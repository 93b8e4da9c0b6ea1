import Peering.Text.Batches
import Peering.Yaml.Cursor

/-!
# Sources

The text of a document is read from a file piece by piece, as far as it is needed.
A piece that cannot be read, or has a character in it that may not stand in a
document, is a fault only if all that stands before it has none.
-/

namespace Peering.Yaml

/-- A text, as far as it can be read. -/
structure Source where
  /-- The characters that can be read. -/
  text : List Char
  /-- Why there are no more, unless the text is at its end. -/
  beyond : Option Fault := none

/-- A character that may stand in a text. -/
def isAdmitted (c : Char) : Bool :=
  c == '\t' || c == '\n' || c == '\r' || c == '\x85' || (' ' ≤ c && c ≤ '~') ||
    ('\xa0' ≤ c && c ≤ '\ufffd') || '\uffff' < c

namespace Source

/-- The number of characters in the pieces that are complete before a character. The first two
pieces are read together. -/
def complete (index : Nat) : Nat :=
  let n := index / Batches.pieceSize
  if n < 2 then 0 else n * Batches.pieceSize

/-- A text that cannot be read beyond some of its characters. -/
def cut (text : List Char) (index : Nat) (f : Fault) : Source :=
  { text := text.take (complete index), beyond := some f }

/-- The source without the piece in which a character may not stand, and those after it. -/
def admitted (s : Source) : Source :=
  match s.text.findIdx? (fun c => !isAdmitted c) with
  | some index => cut s.text index .malformed
  | none => s

/-- The source that bytes are. -/
def ofBytes (bytes : List UInt8) : Source :=
  match readText bytes with
  | (text, none) => admitted { text }
  | (text, some e) => admitted (cut text text.length (.unreadable e))

end Source

end Peering.Yaml
