import Peering.Text.Half
import Peering.Yaml.Cursor

/-!
# Block scalars

A block scalar takes its lines as they are, without their indentation, or folds
them into one. Its header may give the indentation and say what happens to the
line breaks at the end.
-/

namespace Peering.Yaml

/-- What happens to the line breaks at the end of a block. -/
inductive Chomping where
  /-- One is kept. -/
  | clip
  /-- None is kept. -/
  | strip
  /-- All are kept. -/
  | keep
  deriving DecidableEq

/-- The chomping that a sign asks for. -/
def Chomping.ofSign? : Option Char → Option Chomping
  | some '+' => some .keep
  | some '-' => some .strip
  | _ => none

/-- The indentation that a digit asks for; zero is refused. -/
def indentDigit? : Option Char → Except Fault (Option Nat)
  | some ch =>
    if ch = '0' then .error .malformed
    else if '1' ≤ ch ∧ ch ≤ '9' then .ok (some (ch.toNat - '0'.toNat))
    else .ok none
  | none => .ok none

/-- The header of a block: its chomping, its indentation if it is given, and the cursor at
the first line. -/
def blockHeader (c : Cursor) : Except Fault (Chomping × Option Nat × Cursor) := do
  let (chomping, indent, c) ← match Chomping.ofSign? c.peek with
    | some chomping => do
      let c := c.next
      match ← indentDigit? c.peek with
      | some n => pure (chomping, some n, c.next)
      | none => pure (chomping, none, c)
    | none => do
      match ← indentDigit? c.peek with
      | some n =>
        let c := c.next
        match Chomping.ofSign? c.peek with
        | some chomping => pure (chomping, some n, c.next)
        | none => pure (.clip, some n, c)
      | none => pure (.clip, none, c)
  if c.peek.all (fun ch => ch == ' ' || isBreak ch) then
    match c.restOfLine? with
    | some c => return (chomping, indent, c)
    | none => throw .malformed
  else throw .malformed

/-- The breaks of the empty lines at the front of a block, the widest indentation found
there, and the cursor past them. -/
def leadingLines : Nat → Cursor → List Char × Nat × Cursor
  | 0, c => ([], 0, c)
  | n + 1, c =>
    let (blanks, c) := c.span (· = ' ')
    let widest := if blanks.isEmpty then 0 else c.column
    match c.takeBreak with
    | none => ([], widest, c)
    | some (ch, c) =>
      let (breaks, more, c) := leadingLines n c
      (ch :: breaks, max widest more, c)

/-- Past blanks up to a column. -/
def skipIndent (c : Cursor) (indent : Nat) : Cursor :=
  c.forward (min (indent - c.column) (c.rest.takeWhile (· = ' ')).length)

/-- The breaks of the empty lines here, and the cursor past them and the indentation. -/
def blockBreaks (indent : Nat) : Nat → Cursor → List Char × Cursor
  | 0, c => ([], c)
  | n + 1, c =>
    let c := skipIndent c indent
    match c.takeBreak with
    | none => ([], c)
    | some (ch, c) =>
      let (breaks, c) := blockBreaks indent n c
      (ch :: breaks, c)

/-- The lines of a block, with the last line break and the breaks after it apart. -/
def blockLines (folded : Bool) (indent : Nat) (before : List Char) :
    Nat → Cursor → List Char × List Char × List Char × Cursor
  | 0, c => ([], [], before, c)
  | n + 1, c =>
    let spaced := c.peek.any isGap
    let (line, c) := c.span (fun ch => !isBreak ch)
    let (last, c) := match c.takeBreak with
      | some (ch, c) => ([ch], c)
      | none => ([], c)
    let (breaks, c) := blockBreaks indent (c.size + 1) c
    if c.column = indent ∧ !c.rest.isEmpty then
      let joint :=
        if folded && last == ['\n'] && !spaced && !c.peek.any isGap then
          if breaks.isEmpty then [' '] else []
        else last
      let (more, final, after, c) := blockLines folded indent breaks n c
      (before ++ line ++ joint ++ more, final, after, c)
    else (before ++ line, last, breaks, c)

/-- The block scalar that begins here, under blocks indented by `outer`. -/
def takeBlock (c : Cursor) (folded : Bool) (outer : Int) : Except Fault (Token × Cursor) := do
  let (chomping, given, c) ← blockHeader c.next
  let least := (max (outer + 1) 1).toNat
  let (breaks, indent, c) := match given with
    | some n =>
      let indent := least + n - 1
      let (breaks, c) := blockBreaks indent (c.size + 1) c
      (breaks, indent, c)
    | none =>
      let (breaks, widest, c) := leadingLines (c.size + 1) c
      (breaks, max least widest, c)
  let (text, last, after, c) :=
    if c.column = indent ∧ !c.rest.isEmpty then
      blockLines folded indent breaks (c.size + 1) c
    else ([], [], breaks, c)
  let tail := match chomping with
    | .clip => last
    | .strip => []
    | .keep => last ++ after
  return (.scalar (textOf (text ++ tail)) false, c)

end Peering.Yaml
