import Peering.Value.Slots

/-!
# Copies of values

A copy of a value is equal to it, but the members of sets in it may be shown in
another order. A value in which too many others stand one inside of the other
cannot be copied.
-/

namespace Peering.Value

mutual

/-- The copy of a value. -/
def copied : Value → Value
  | .list items => .list (copiedItems items)
  | .mapping entries => .mapping (copiedEntries entries)
  | .set members => .set (copyOrder members)
  | .pair a b => .pair a.copied b.copied
  | v => v

/-- The copies of the items of a list. -/
def copiedItems : List Value → List Value
  | [] => []
  | v :: rest => v.copied :: copiedItems rest

/-- The entries of a mapping with copies of their values. A key has no other copy than itself. -/
def copiedEntries : List (Value × Value) → List (Value × Value)
  | [] => []
  | (k, v) :: rest => (k, v.copied) :: copiedEntries rest

end

mutual

/-- The steps that are taken one inside of the other to copy a value: two for a value without parts
or a list or mapping, three for a pair, and those for the list of its members and three more for a
set. -/
def copySteps : Value → Nat
  | .list items => 2 + itemsSteps items
  | .mapping entries => 2 + entriesSteps entries
  | .set members => 5 + itemsSteps members
  | .pair a b => 3 + max a.copySteps b.copySteps
  | _ => 2

/-- The most steps for an item of a list. -/
def itemsSteps : List Value → Nat
  | [] => 0
  | v :: rest => max v.copySteps (itemsSteps rest)

/-- The most steps for a key or value of a mapping. -/
def entriesSteps : List (Value × Value) → Nat
  | [] => 0
  | (k, v) :: rest => max (max k.copySteps v.copySteps) (entriesSteps rest)

end

/-- So many steps may be taken one inside of the other. -/
def copyRoom : Nat := 978

/-- The value can be copied. -/
def isCopyable (v : Value) : Bool := v.copySteps ≤ copyRoom

end Peering.Value
