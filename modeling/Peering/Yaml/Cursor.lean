import Peering.Yaml.Token

/-!
# Reading positions

A cursor is what is left of a text, and where that begins. Line breaks are the
line feed, U+0085, U+2028 and U+2029; the first two are read as a line feed. The
byte order mark takes no column.
-/

namespace Peering.Yaml

/-- A line break. -/
def isBreak (c : Char) : Bool :=
  c == '\n' || c == '\x85' || c == '\u2028' || c == '\u2029'

/-- A blank within a line. -/
def isGap (c : Char) : Bool := c == ' ' || c == '\t'

/-- The byte order mark. -/
def byteOrderMark : Char := '\ufeff'

/-- What is left of a text, and where it begins. -/
structure Cursor where
  /-- What is left. -/
  rest : List Char
  /-- The column of the next character. -/
  column : Nat := 0
  /-- The line of the next character. -/
  line : Nat := 0
  /-- The number of characters before the next one. -/
  index : Nat := 0
  /-- There are no more characters than this in the whole text, so no reading of what is left takes
  more steps. -/
  size : Nat := rest.length

namespace Cursor

/-- The next character. -/
def peek (c : Cursor) : Option Char := c.rest.head?

/-- The character after the next one. -/
def second (c : Cursor) : Option Char := c.rest.tail.head?

/-- What is wrong if something else must stand here. -/
def fault (c : Cursor) : Fault := if c.rest.isEmpty then .unfinished else .malformed

/-- A line ends here: with a break, or with the text. -/
def atLineEnd (c : Cursor) : Bool := c.peek.all isBreak

/-- A word ends before this character: it is a blank or a break, or the text is at its end. -/
def endsWord (ch : Option Char) : Bool := ch.all (fun ch => isGap ch || isBreak ch)

/-- Past the next character. -/
def next (c : Cursor) : Cursor :=
  match c.rest with
  | [] => c
  | ch :: rest =>
    if isBreak ch then ⟨rest, 0, c.line + 1, c.index + 1, c.size⟩
    else if ch = byteOrderMark then ⟨rest, c.column, c.line, c.index + 1, c.size⟩
    else ⟨rest, c.column + 1, c.line, c.index + 1, c.size⟩

/-- Past a number of characters. -/
def forward (c : Cursor) : Nat → Cursor
  | 0 => c
  | n + 1 => c.next.forward n

/-- The leading characters of a class, and the cursor past them. -/
def span (c : Cursor) (p : Char → Bool) : List Char × Cursor :=
  let taken := c.rest.takeWhile p
  (taken, c.forward taken.length)

/-- The cursor past the leading characters of a class. -/
def skip (c : Cursor) (p : Char → Bool) : Cursor := (c.span p).2

/-- What a line break is read as. -/
def readBreak (ch : Char) : Char := if ch = '\x85' then '\n' else ch

/-- The line break here, if there is one, and the cursor past it. -/
def takeBreak (c : Cursor) : Option (Char × Cursor) :=
  match c.peek with
  | some ch => if isBreak ch then some (readBreak ch, c.next) else none
  | none => none

/-- Past blanks, a comment and nothing else up to the end of the line. -/
def restOfLine? (c : Cursor) : Option Cursor :=
  let c := c.skip (· = ' ')
  let c := if c.peek = some '#' then c.skip (fun ch => !isBreak ch) else c
  match c.takeBreak with
  | some (_, c) => some c
  | none => if c.rest.isEmpty then some c else none

/-- Three given characters stand here, and a word ends after them. -/
def atMark (c : Cursor) (mark : Char) : Bool :=
  c.rest.take 3 == [mark, mark, mark] && endsWord (c.rest.drop 3).head?

/-- The mark for the start or the end of a document stands here. -/
def atSeparator (c : Cursor) : Bool := c.atMark '-' || c.atMark '.'

end Cursor

end Peering.Yaml
