import Peering.Yaml.Quotes

/-!
# Plain scalars

A plain scalar goes on until a colon before a blank, a comment, an indicator of
a flow collection around it, or a line that is indented too little. Its lines are
joined like those in quotes.
-/

namespace Peering.Yaml

/-- Characters that begin no plain scalar. -/
def indicators : List Char :=
  ['-', '?', ':', ',', '[', ']', '\x7b', '\x7d', '#', '&', '*', '!', '|', '>', '\'', '"', '%',
    '@', '\x60']

/-- A plain scalar can begin here. -/
def startsPlain (c : Cursor) (inFlow : Bool) : Bool :=
  match c.peek with
  | none => false
  | some ch =>
    !(isGap ch || isBreak ch || indicators.contains ch) ||
      (!Cursor.endsWord c.second && (ch == '-' || (!inFlow && (ch == '?' || ch == ':'))))

/-- The brackets and the comma of flow collections. -/
def flowMarks : List Char := [',', '[', ']', '\x7b', '\x7d']

/-- The characters of a plain scalar up to a blank or to its end. -/
def plainWord (inFlow : Bool) : List Char → List Char
  | [] => []
  | ch :: rest =>
    if isGap ch || isBreak ch then []
    else if ch = ':' ∧ (Cursor.endsWord rest.head? ||
        (inFlow && rest.head?.any (flowMarks.contains ·))) then []
    else if inFlow && (ch == '?' || flowMarks.contains ch) then []
    else ch :: plainWord inFlow rest

/-- What is found between two words of a plain scalar. -/
structure Between where
  /-- What it stands for, nothing if the scalar ends here. -/
  text : List Char
  /-- The cursor past it. -/
  cursor : Cursor
  /-- A line has been broken. -/
  broken : Bool

/-- The breaks of the empty lines here and the blanks before the next word; none at a
separator of documents. -/
def plainBreaks : Nat → Cursor → Option (List Char) × Cursor
  | 0, c => (none, c)
  | n + 1, c =>
    let c := c.skip (· = ' ')
    match c.takeBreak with
    | none => (some [], c)
    | some (ch, c) =>
      if c.atSeparator then (none, c)
      else
        let (breaks, c) := plainBreaks n c
        (breaks.map (ch :: ·), c)

/-- What stands between two words of a plain scalar. -/
def plainBetween (c : Cursor) : Between :=
  let (gap, c) := c.span (· = ' ')
  match c.takeBreak with
  | none => ⟨gap, c, false⟩
  | some (first, c) =>
    if c.atSeparator then ⟨[], c, true⟩
    else
      match plainBreaks (c.size + 1) c with
      | (some breaks, c) => ⟨foldBreaks first breaks, c, true⟩
      | (none, c) => ⟨[], c, true⟩

/-- The text of a plain scalar, the cursor past it and the blanks that follow, and whether
the last thing skipped was a line break. -/
def plainText (inFlow : Bool) (indent : Int) (gap : List Char) (broken : Bool) :
    Nat → Cursor → List Char × Cursor × Bool
  | 0, c => ([], c, broken)
  | n + 1, c =>
    if c.peek = some '#' then ([], c, broken)
    else
      let word := plainWord inFlow c.rest
      if word.isEmpty then ([], c, broken)
      else
        let between := plainBetween (c.forward word.length)
        let c := between.cursor
        if between.text.isEmpty || (!inFlow && (c.column : Int) < indent) then
          (gap ++ word, c, between.broken)
        else
          let (more, c, broken) := plainText inFlow indent between.text between.broken n c
          (gap ++ word ++ more, c, broken)

end Peering.Yaml
