import Peering.Text.Half
import Peering.Value.Basic

/-!
# Mappings given as pairs

Where a mapping is asked for, a sequence of pairs will do as well. A pair is itself a sequence
of two parts: a list, a text of two characters, or a mapping, of which the keys count. Of two
pairs with one key the later one wins.
-/

namespace Peering

/-- Why a value does not stand for a mapping. -/
inductive MappingFault where
  /-- The value or an item of it is no sequence, or a key can change. -/
  | wrongType
  /-- An item at a place, counted from zero, is a sequence of another size than two. -/
  | noPair (index size : Nat)
  deriving DecidableEq

/-- The message of a fault. -/
def MappingFault.message : MappingFault → String
  | .wrongType => "the value is no sequence of pairs"
  | .noPair index size => "dictionary update sequence element #" ++ toString index ++
    " has length " ++ toString size ++ "; 2 is required"

/-- The parts of a sequence: the items of a list, the members of a set, the parts of a pair, the
characters of a text, the numbers of bytes, or the keys of a mapping. -/
def Value.parts? : Value → Option (List Value)
  | .list items => some items
  | .text s => some ((codesOf s.toList).map fun code => .text (String.ofList (kept code)))
  | .bytes b => some (b.map fun byte => .int byte.toNat)
  | .mapping entries => some (entries.map Prod.fst)
  | .set members => some members
  | .pair a b => some [a, b]
  | _ => none

namespace Mapping

/-- The mapping with pairs set, the first of which stands at a place. -/
def setPairs (m : Mapping) (index : Nat) : List Value → Except MappingFault Mapping
  | [] => .ok m
  | item :: rest =>
    match item.parts? with
    | some [key, value] =>
      if key.isKey then setPairs (m.set key value) (index + 1) rest else .error .wrongType
    | some parts => .error (.noPair index parts.length)
    | none => .error .wrongType

/-- The mapping that a value stands for. -/
def ofValue : Value → Except MappingFault Mapping
  | .mapping entries => .ok entries
  | v =>
    match v.parts? with
    | some items => setPairs [] 0 items
    | none => .error .wrongType

end Mapping

end Peering
