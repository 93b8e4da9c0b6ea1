import Peering.Decimal.Integer
import Peering.Yaml.Quotes

/-!
# Names, tags and directives

Anchors and aliases have names of letters, digits, hyphens and underscores. Tags
and the directives at the head of a document are written with handles and
escaped characters.
-/

namespace Peering.Yaml

/-- A letter, a digit, a hyphen or an underscore. -/
def isNameChar (c : Char) : Bool := c.isAlphanum || c == '-' || c == '_'

/-- A character of a tag, escapes aside. -/
def isTagChar (c : Char) : Bool := c.isAlphanum || "-;/?:@&=+$,_.!~*'()[]".toList.contains c

/-- Characters that may follow a name, the end of a word aside. -/
def afterName : List Char := ['?', ':', ',', ']', '\x7d', '%', '@', '\x60']

/-- A blank or the end of a line. -/
def endsPart (ch : Option Char) : Bool := ch.all (fun ch => ch == ' ' || isBreak ch)

/-- The name of an anchor or an alias, behind its indicator. -/
def takeName (c : Cursor) : Except Fault (String × Cursor) :=
  let (name, c) := c.next.span isNameChar
  if name.isEmpty then .error c.fault
  else if Cursor.endsWord c.peek || c.peek.any (afterName.contains ·) then
    .ok (String.ofList name, c)
  else .error .malformed

/-- The bytes that escapes with a percent sign stand for, and the cursor past them. -/
def takeEscapes : Nat → Cursor → Except Fault (List UInt8 × Cursor)
  | 0, c => .ok ([], c)
  | n + 1, c =>
    if c.peek = some '%' then
      match hexNumber? 2 c.next.rest with
      | some code => do
        let (bytes, c) ← takeEscapes n (c.forward 3)
        return (UInt8.ofNat code :: bytes, c)
      | none => .error (hexFault 2 c.next.rest)
    else .ok ([], c)

/-- The text of a tag, and the cursor past it. -/
def tagText : Nat → Cursor → Except Fault (List Char × Cursor)
  | 0, c => .ok ([], c)
  | n + 1, c =>
    if c.peek = some '%' then do
      let (bytes, c) ← takeEscapes (c.size + 1) c
      match Utf8.decode bytes with
      | (text, none) => do
        let (more, c) ← tagText n c
        return (text ++ more, c)
      | _ => throw .malformed
    else
      let (text, c) := c.span isTagChar
      if text.isEmpty then .ok ([], c)
      else do
        let (more, c) ← tagText n c
        return (text ++ more, c)

/-- The text of a tag, which must not be empty. -/
def takeTagText (c : Cursor) : Except Fault (String × Cursor) := do
  let (text, after) ← tagText (c.size + 1) c
  if after.index = c.index then throw after.fault
  return (String.ofList text, after)

/-- The handle of a tag: an exclamation mark, or a name between two of them. -/
def takeHandle (c : Cursor) : Except Fault (String × Cursor) :=
  if c.peek = some '!' then
    if c.second = some ' ' then .ok ("!", c.next)
    else
      let (name, after) := c.next.span isNameChar
      if after.peek = some '!' then .ok (String.ofList ('!' :: (name ++ ['!'])), after.next)
      else .error after.fault
  else .error c.fault

/-- A tag has a handle of its own: a further exclamation mark stands in it. -/
def hasHandle (c : Cursor) : Bool :=
  (c.next.rest.takeWhile (fun ch => !(ch == ' ' || isBreak ch))).contains '!'

/-- The tag that begins here. -/
def takeTag (c : Cursor) : Except Fault (Token × Cursor) := do
  let (token, c) ←
    if c.second = some '<' then do
      let (text, c) ← takeTagText (c.forward 2)
      if c.peek = some '>' then pure (Token.tag none text, c.next) else throw c.fault
    else if Cursor.endsWord c.second then pure (Token.tag none "!", c.next)
    else if hasHandle c then do
      let (handle, c) ← takeHandle c
      let (text, c) ← takeTagText c
      pure (Token.tag (some handle) text, c)
    else do
      let (text, c) ← takeTagText c.next
      pure (Token.tag (some "!") text, c)
  if endsPart c.peek then return (token, c) else throw .malformed

/-- A number of a version. -/
def takeVersionPart (c : Cursor) : Except Fault (Nat × Cursor) :=
  let (digits, c) := c.span Char.isDigit
  if digits.isEmpty then .error c.fault
  else match integerIn 10 digits with
    | .ok n => .ok (n.toNat, c)
    | .error fault => .error (.badNumber (fault.message 10 digits))

/-- The version in a directive. -/
def takeVersion (c : Cursor) : Except Fault (Directive × Cursor) := do
  let (major, c) ← takeVersionPart (c.skip (· = ' '))
  if c.peek ≠ some '.' then throw c.fault
  let (_, c) ← takeVersionPart c.next
  if endsPart c.peek then return (.version major, c) else throw .malformed

/-- The handle and its meaning in a directive. -/
def takeHandleRule (c : Cursor) : Except Fault (Directive × Cursor) := do
  let (handle, c) ← takeHandle (c.skip (· = ' '))
  if c.peek ≠ some ' ' then throw c.fault
  let (stands, c) ← takeTagText (c.skip (· = ' '))
  if endsPart c.peek then return (.handle handle stands, c) else throw .malformed

/-- The directive that begins here, with the rest of its line. -/
def takeDirective (c : Cursor) : Except Fault (Token × Cursor) := do
  let (name, c) := c.next.span isNameChar
  if name.isEmpty || !endsPart c.peek then throw c.fault
  let (directive, c) ← match String.ofList name with
    | "YAML" => takeVersion c
    | "TAG" => takeHandleRule c
    | _ => pure (.other, c.skip (fun ch => !isBreak ch))
  match c.restOfLine? with
  | some c => return (.directive directive, c)
  | none => throw .malformed

end Peering.Yaml
