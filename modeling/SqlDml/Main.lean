import SqlDml.CommandLine.Command

/-!
Contract: the program.

Owns:
- performing the readings and writings of the command in the real world.

Does not own: any decision of the command.
-/

namespace SqlDml.CommandLine

/-- Bytes as text, if they are text. -/
def decoded (bytes : ByteArray) : Except String String :=
  match String.fromUTF8? bytes with
  | some text => .ok text
  | none => .error "stream did not contain valid UTF-8"

/-- A failure of the system in words. -/
def systemMessage : IO.Error → String
  | .noFileOrDirectory _ _ _ => "No such file or directory (os error 2)"
  | .permissionDenied _ _ _ => "Permission denied (os error 13)"
  | error => toString error

/-- Everything that a stream still holds. -/
def readToEnd (stream : IO.FS.Stream) : IO ByteArray := do
  let mut bytes := ByteArray.empty
  repeat
    let piece ← stream.read 65536
    if piece.isEmpty then
      break
    bytes := bytes ++ piece
  return bytes

/-- The text that an action reads, or why it reads none. -/
def attemptText (action : IO ByteArray) : IO (Except String String) := do
  try
    return decoded (← action)
  catch error =>
    return .error (systemMessage error)

/-- Performs a command. -/
def Interaction.execute {α : Type} : Interaction α → IO α
  | .done value => return value
  | .readFile path next => do
      (next (← attemptText (IO.FS.readBinFile path))).execute
  | .readInput next => do
      (next (← attemptText (do readToEnd (← IO.getStdin)))).execute
  | .writeOutput text next => do
      let stream ← IO.getStdout
      let written ←
        try
          stream.putStr text
          stream.flush
          pure (Except.ok ())
        catch error =>
          pure (Except.error (systemMessage error))
      (next written).execute
  | .writeErrors text next => do
      let stream ← IO.getStderr
      try stream.putStr text catch _ => pure ()
      next.execute

end SqlDml.CommandLine

/-- Runs the command on the arguments of the program. -/
def main (arguments : List String) : IO UInt32 := do
  let code ← (SqlDml.CommandLine.command arguments).execute
  return code.toUInt32
