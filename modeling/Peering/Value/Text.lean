import Peering.Text.Quoted
import Peering.Value.Basic

/-!
# The text of a value

Two forms are in use. In the plain form a text stands for itself; in the exact
form texts are quoted, so that values of different kinds differ. Elements of
lists and mappings are always in the exact form.
-/

namespace Peering.Value

/-- A truth value in words. -/
def boolText (b : Bool) : String := if b then "True" else "False"

/-- What is written for a byte between two quotes. -/
def byteText (q : Char) (b : UInt8) : List Char :=
  if 0x7f ≤ b then '\\' :: 'x' :: hexDigits 2 b.toNat else quoteChar q (Char.ofNat b.toNat)

/-- The text of bytes: those that stand for printable characters are shown as these. -/
def bytesText (bytes : List UInt8) : String :=
  let q := quoteFor (bytes.map fun b => Char.ofNat b.toNat)
  String.ofList ('b' :: q :: (bytes.flatMap (byteText q) ++ [q]))

mutual

/-- The exact form. -/
def exact : Value → String
  | .null => "None"
  | .bool b => boolText b
  | .int n => intText n
  | .float x => floatText x
  | .text s => quoted s
  | .bytes b => bytesText b
  | .list items => "[" ++ ", ".intercalate (exactItems items) ++ "]"
  | .mapping entries => "\x7b" ++ ", ".intercalate (exactEntries entries) ++ "\x7d"
  | .set members =>
    if members.isEmpty then "set()"
    else "\x7b" ++ ", ".intercalate (exactItems members) ++ "\x7d"
  | .pair a b => "(" ++ a.exact ++ ", " ++ b.exact ++ ")"
  | .shown s => s.exact

/-- The exact forms of the elements of a list. -/
def exactItems : List Value → List String
  | [] => []
  | v :: rest => v.exact :: exactItems rest

/-- The entries of a mapping, each a key, a colon and a value. -/
def exactEntries : List (Value × Value) → List String
  | [] => []
  | (k, v) :: rest => (k.exact ++ ": " ++ v.exact) :: exactEntries rest

end

/-- Why a value cannot be shown. -/
inductive TextFault where
  /-- An integer in it is too long to be written. -/
  | longInteger
  /-- Too many values stand one inside of the other. -/
  | tooDeep
  deriving DecidableEq

/-- The fault in words. -/
def TextFault.message : TextFault → String
  | longInteger => notWritable
  | tooDeep => "there are too many values one inside of the other"

mutual

/-- The first fault met when a value is shown and so many values may stand one inside of the other.
The members of a set count as those of a list in it. -/
def faultWithin (room : Nat) : Value → Option TextFault
  | .int n =>
    if room = 0 then some .tooDeep else if Peering.isWritable n then none else some .longInteger
  | .list items => if room = 0 then some .tooDeep else itemsFault (room - 1) items
  | .mapping entries => if room = 0 then some .tooDeep else entriesFault (room - 1) entries
  | .set members => if room ≤ 1 then some .tooDeep else itemsFault (room - 2) members
  | .pair a b =>
    if room = 0 then some .tooDeep
    else (faultWithin (room - 1) a).or (faultWithin (room - 1) b)
  | _ => if room = 0 then some .tooDeep else none

/-- The first fault of the items of a list. -/
def itemsFault (room : Nat) : List Value → Option TextFault
  | [] => none
  | v :: rest => (faultWithin room v).or (itemsFault room rest)

/-- The first fault of the entries of a mapping. -/
def entriesFault (room : Nat) : List (Value × Value) → Option TextFault
  | [] => none
  | (k, v) :: rest => ((faultWithin room k).or (faultWithin room v)).or (entriesFault room rest)

end

/-- So many values may stand one inside of the other where they are shown. -/
def textRoom : Nat := 993

/-- Why a value cannot be shown, if it cannot. -/
def textFault? (v : Value) : Option TextFault := v.faultWithin textRoom

/-- The plain form. -/
def plain : Value → String
  | .text s => s
  | .shown s => s.plain
  | v => v.exact

/-- A text is shown as it is. -/
@[simp] theorem plain_text (s : String) : (Value.text s).plain = s := rfl

end Peering.Value
