import SqlDml.Toml.Text

/-!
Contract: numbers, dates and times.

Owns:
- the forms of integers and fractional numbers;
- the range of integers, and which fractional numbers are finite;
- the forms of dates, times and offsets, and which of them exist.

Does not own: the values of dates and times, which nothing asks for.
-/

namespace SqlDml.Toml

open Reader

/-! ## Numbers -/

/-- Digits, with an underscore between any two. -/
def digits (isDigit : Char → Bool) : Reader (List Char) := do
  let first ← charOf isDigit
  return first :: (← many (do
    let _ ← maybe (char '_')
    charOf isDigit))

/-- Whether a minus sign stands in front; a plus sign means the same as none. -/
def negative : Reader Bool :=
  (do char '-'; return true) <|> (do char '+'; return false) <|> pure false

/-- The digits of a decimal number before its point, without superfluous zeros in front. -/
def wholeDigits : Reader (List Char) :=
  (do char '0'; return ['0']) <|> digits Char.isDigit

/-- Digits after a prefix that names their base. -/
def based (base : Nat) (opening : String) (isDigit : Char → Bool) : Reader Int := do
  word opening
  return (digitsValue base (← digits isDigit) : Nat)

/-- A decimal integer. -/
def decimal : Reader Int := do
  let below ← negative
  let value := (digitsValue 10 (← wholeDigits) : Nat)
  return if below then -(value : Int) else value

/-- The number of integers of each sign: they fit 64 bits. -/
def integersOfSign : Int := 9223372036854775808

/-- An integer, which fits 64 bits with sign. -/
def integer : Reader Int := do
  let value ←
    based 16 "0x" isHexChar <|>
    based 8 "0o" (fun char => '0' ≤ char && char ≤ '7') <|>
    based 2 "0b" (fun char => char == '0' || char == '1') <|>
    decimal
  if -integersOfSign ≤ value ∧ value < integersOfSign then return value else failure

/-- The exponent of a fractional number. -/
def exponent : Reader Int := do
  char 'e' <|> char 'E'
  let below ← negative
  let value := (digitsValue 10 (← digits Char.isDigit) : Nat)
  return if below then -(value : Int) else value

/-- The least number whose double is infinite: half a step above the greatest finite one. -/
def infiniteFrom : Nat := Nat.pow 2 1024 - Nat.pow 2 970

/-- Whether the double nearest to `coefficient · 10 ^ power` is finite.  Far from the limit, which
has 309 places before its point, the number of places decides. -/
def isFinite (coefficient : Nat) (power : Int) : Bool :=
  let places := ((Nat.toDigits 10 coefficient).length : Int) + power
  if coefficient = 0 ∨ places < 300 then true
  else if 320 < places then false
  else if power < 0 then coefficient < infiniteFrom * Nat.pow 10 (-power).toNat
  else coefficient * Nat.pow 10 power.toNat < infiniteFrom

/-- A fractional number: a point or an exponent or both stand behind the digits.  A positive one
must be finite. -/
def fractional : Reader Unit :=
  (do
    let below ← negative
    let whole ← wholeDigits
    let places ← maybe (do char '.'; digits Char.isDigit)
    let power ← maybe exponent
    if places.isNone ∧ power.isNone then failure
    let after := places.getD []
    if !below && !isFinite (digitsValue 10 (whole ++ after)) (power.getD 0 - after.length) then
      failure) <|>
  (do
    let _ ← negative
    word "inf" <|> word "nan")

/-! ## Dates and times -/

/-- A number of exactly so many digits between two bounds. -/
def counted (count least greatest : Nat) : Reader Nat := do
  let value := digitsValue 10 (← exactly Char.isDigit count)
  if least ≤ value ∧ value ≤ greatest then return value else failure

/-- The days of a month. -/
def daysOf (year month : Nat) : Nat :=
  if month = 2 then
    if year % 4 = 0 ∧ (year % 100 ≠ 0 ∨ year % 400 = 0) then 29 else 28
  else if month = 4 ∨ month = 6 ∨ month = 9 ∨ month = 11 then 30
  else 31

/-- A date that exists. -/
def date : Reader Unit := do
  let year ← counted 4 0 9999
  char '-'
  let month ← counted 2 1 12
  char '-'
  let _ ← counted 2 1 (daysOf year month)

/-- A time of day; the last minute of a day may have a leap second. -/
def timeOfDay : Reader Unit := do
  let _ ← counted 2 0 23
  char ':'
  let _ ← counted 2 0 59
  char ':'
  let _ ← counted 2 0 60
  let _ ← maybe (do
    char '.'
    let _ ← charOf Char.isDigit
    let _ ← run Char.isDigit)

/-- The distance of a time from universal time. -/
def offset : Reader Unit :=
  char 'Z' <|> char 'z' <|> (do
    char '+' <|> char '-'
    let _ ← counted 2 0 23
    char ':'
    let _ ← counted 2 0 59)

/-- A date, a time, or a date with a time and perhaps an offset. -/
def moment : Reader Unit :=
  (do
    date
    let _ ← maybe (do
      char 'T' <|> char 't' <|> char ' '
      timeOfDay
      let _ ← maybe offset)) <|>
  timeOfDay

end SqlDml.Toml
