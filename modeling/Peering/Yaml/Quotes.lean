import Peering.Text.Half
import Peering.Yaml.Cursor

/-!
# Scalars in quotes

Between quotes a line break stands for a blank, and further breaks for
themselves. In single quotes a quote is written twice; in double quotes a
backslash begins an escape.
-/

namespace Peering.Yaml

/-- What a backslash and one character stand for. -/
def simpleEscape? : Char → Option Char
  | '0' => some '\x00'
  | 'a' => some '\x07'
  | 'b' => some '\x08'
  | 't' => some '\t'
  | '\t' => some '\t'
  | 'n' => some '\n'
  | 'v' => some '\x0b'
  | 'f' => some '\x0c'
  | 'r' => some '\r'
  | 'e' => some '\x1b'
  | ' ' => some ' '
  | '"' => some '"'
  | '\\' => some '\\'
  | '/' => some '/'
  | 'N' => some '\x85'
  | '_' => some '\xa0'
  | 'L' => some '\u2028'
  | 'P' => some '\u2029'
  | _ => none

/-- How many hexadecimal digits follow the letter of an escape. -/
def escapeDigits? : Char → Option Nat
  | 'x' => some 2
  | 'u' => some 4
  | 'U' => some 8
  | _ => none

/-- The value of a hexadecimal digit. -/
def hexValue? (c : Char) : Option Nat :=
  if '0' ≤ c ∧ c ≤ '9' then some (c.toNat - '0'.toNat)
  else if 'a' ≤ c ∧ c ≤ 'f' then some (c.toNat - 'a'.toNat + 10)
  else if 'A' ≤ c ∧ c ≤ 'F' then some (c.toNat - 'A'.toNat + 10)
  else none

/-- The number that a given count of hexadecimal digits writes. -/
def hexNumber? (count : Nat) (cs : List Char) : Option Nat :=
  let digits := cs.take count
  if digits.length = count then
    (digits.mapM hexValue?).map (fun values => values.foldl (fun n d => n * 16 + d) 0)
  else none

/-- What is wrong if a given count of hexadecimal digits must stand here. -/
def hexFault (count : Nat) (cs : List Char) : Fault :=
  if cs.length < count ∧ cs.all (fun c => (hexValue? c).isSome) then .unfinished else .malformed

/-- What a text holds for the character with a number. -/
def escapedChar (code : Nat) : Except Fault (List Char) :=
  if code < 0x110000 then .ok (kept code)
  else if code < 0x80000000 then .error (.badNumber "chr() arg not in range(0x110000)")
  else .error .overflow

/-- The breaks of the empty lines here, with the blanks of the line that follows skipped. A
separator of documents must not stand here. -/
def emptyLines : Nat → Cursor → Except Fault (List Char × Cursor)
  | 0, _ => .error .malformed
  | n + 1, c =>
    if c.atSeparator then .error .malformed
    else
      let c := c.skip isGap
      match c.takeBreak with
      | none => .ok ([], c)
      | some (ch, c) => do
        let (breaks, c) ← emptyLines n c
        return (ch :: breaks, c)

/-- What a line break and the breaks of the empty lines after it stand for. -/
def foldBreaks (first : Char) (more : List Char) : List Char :=
  if first ≠ '\n' then first :: more else if more.isEmpty then [' '] else more

/-- The rest of a scalar in quotes, and the cursor past the closing quote. Every round
consumes a character, so as many rounds as characters suffice. -/
def quotedRest (double : Bool) : Nat → Cursor → Except Fault (List Char × Cursor)
  | 0, _ => .error .malformed
  | n + 1, c =>
    let go (text : List Char) (c : Cursor) : Except Fault (List Char × Cursor) := do
      let (more, c) ← quotedRest double n c
      return (text ++ more, c)
    match c.peek with
    | none => .error .unfinished
    | some ch =>
      if isGap ch || isBreak ch then
        let (gap, after) := c.span isGap
        match after.takeBreak with
        | none => go gap after
        | some (first, c) => do
          let (breaks, c) ← emptyLines (c.size + 1) c
          go (foldBreaks first breaks) c
      else if double then
        if ch = '"' then .ok ([], c.next)
        else if ch = '\\' then
          let c := c.next
          match c.peek with
          | none => .error .unfinished
          | some e =>
            match simpleEscape? e, escapeDigits? e with
            | some ch, _ => go [ch] c.next
            | none, some count =>
              let c := c.next
              match hexNumber? count c.rest with
              | some code => do
                go (← escapedChar code) (c.forward count)
              | none => .error (hexFault count c.rest)
            | none, none =>
              if isBreak e then do
                let (breaks, c) ← emptyLines (c.size + 1) c.next
                go breaks c
              else .error .malformed
        else go (kept ch.toNat) c.next
      else if ch = '\'' then
        if c.second = some '\'' then go ['\''] (c.forward 2) else .ok ([], c.next)
      else go (kept ch.toNat) c.next

/-- The scalar in quotes that begins here. -/
def takeQuoted (c : Cursor) (double : Bool) : Except Fault (Token × Cursor) := do
  let (text, c) ← quotedRest double (c.size + 1) c.next
  return (.scalar (String.ofList text) false, c)

end Peering.Yaml
