import SqlDml.Main
import SqlDml.Proofs.Canonical.Identifiers
import SqlDml.Proofs.Canonical.Limits
import SqlDml.Proofs.Canonical.Operands
import SqlDml.Proofs.CommandLine.Verdicts
import SqlDml.Proofs.Counting.Sessions
import SqlDml.Proofs.Extents.Alone
import SqlDml.Proofs.Lexing.Calls
import SqlDml.Proofs.Lexing.Spaced
import SqlDml.Proofs.Markers.Exact
import SqlDml.Proofs.Markers.Order
import SqlDml.Proofs.Naming.Collected
import SqlDml.Proofs.Naming.Qualifiers
import SqlDml.Proofs.Naming.Renamed
import SqlDml.Proofs.Naming.Retokenized
import SqlDml.Proofs.Naming.Spliceable
import SqlDml.Proofs.Naming.Spliced
import SqlDml.Proofs.Naming.Unchanged
import SqlDml.Proofs.Nesting.Consumed
import SqlDml.Proofs.Parsing.Entry
import SqlDml.Proofs.Parsing.Furthest
import SqlDml.Proofs.Precedence.Climbing
import SqlDml.Proofs.Reading.Kept
import SqlDml.Proofs.Replay.Inserts
import SqlDml.Proofs.Shapes.Statements
import SqlDml.Proofs.Spelling.SameKinds
import SqlDml.Proofs.Spelt.Places
import SqlDml.Proofs.Stream.Cursor
import SqlDml.Proofs.Trees.Spanless
import SqlDml.Proofs.Trees.Walks
import SqlDml.Traversal.Erase
import SqlDml.Proofs.Spelt.Changes
import SqlDml.Proofs.Canonical.Changes
import SqlDml.Proofs.Canonical.RoundTrip
import SqlDml.Proofs.Lexing.Decoded
import SqlDml.Proofs.Lexing.Munch
import SqlDml.Proofs.Parsing.Deletes
import SqlDml.Proofs.Parens.Redundant
import SqlDml.Proofs.Parsing.Merged
import SqlDml.Proofs.Parsing.Rejected
import SqlDml.Proofs.Parsing.Snippets
