import Peering.Value.Basic

/-!
# The order in which sets are shown

Numbers in a set stand in a table of slots, each at the slot of its residue or, where that
is taken, at the next free one of a sequence of slots, and they are shown in the order of
the slots. Other values have no lasting order and are shown as they came.
-/

namespace Peering

/-- The modulus of residues, which is a prime. -/
def residueModulus : Nat := Nat.pow 2 61 - 1

/-- The residue of a number with a sign, as a word of 64 bits. There is no residue of minus one:
that of minus two stands for it. -/
def signedResidue (negative : Bool) (n : Nat) : Nat :=
  let r := n % residueModulus
  if !negative || r = 0 then r
  else Nat.pow 2 64 - (if r = 1 then 2 else r)

/-- The residue of an infinity. -/
def infiniteResidue : Nat := 314159

/-- The residue of a number. Equal numbers have the same residue, whatever their kind: a power of
two counts by the remainder of its exponent modulo 61. -/
def Value.residue? : Value → Option Nat
  | .bool b => some (if b then 1 else 0)
  | .int n => some (signedResidue (n < 0) n.natAbs)
  | .float x =>
    match FloatParts.ofFloat x with
    | .finite negative m q => some (signedResidue negative (m * Nat.pow 2 (q % 61).toNat))
    | .infinite negative => some (signedResidue negative infiniteResidue)
    | .notANumber => none
  | _ => none

/-- A table of slots, each free or taken by a value with its residue. The number of slots is a power
of two. -/
abbrev Slots := Array (Option (Value × Nat))

namespace Slots

/-- The least number of slots above a number: a power of two, and no less than eight. -/
def sizeAbove (n : Nat) : Nat := Nat.pow 2 (max 3 (Nat.log2 n + 1))

/-- A table of free slots. -/
def free (size : Nat) : Slots := Array.replicate size none

/-- The values in the order of their slots. -/
def taken (slots : Slots) : List (Value × Nat) := slots.toList.filterMap id

/-- The number of neighbours of a slot that are tried before another one. They are not tried if
they go beyond the last slot. -/
def neighbours : Nat := 9

/-- The first free slot of the sequence that goes on from a slot. After 13 steps nothing is left of
the residue, and the sequence meets every slot. -/
def freeFrom (slots : Slots) : Nat → Nat → Nat → Nat
  | 0, slot, _ => slot
  | steps + 1, slot, residue =>
    let tried := if slot + neighbours < slots.size then neighbours + 1 else 1
    match (List.range tried).find? fun k => ((slots[slot + k]?).join).isNone with
    | some k => slot + k
    | none =>
      let residue := residue / 32
      slots.freeFrom steps ((slot * 5 + 1 + residue) % slots.size) residue

/-- Puts a value with a residue into a table. -/
def put (slots : Slots) (e : Value × Nat) : Slots :=
  let slot := slots.freeFrom (slots.size + 13) (e.2 % slots.size) e.2
  slots.setIfInBounds slot (some e)

/-- A table of a size with values put in one after the other. -/
def ofList (size : Nat) (values : List (Value × Nat)) : Slots := values.foldl put (free size)

/-- The number of slots for so many values that come at once. -/
def sizeFor (count : Nat) : Nat := if count < 5 then 8 else sizeAbove (2 * count)

/-- The number of slots to which a table with so many values grows. -/
def grownSize (count : Nat) : Nat := sizeAbove (if 50000 < count then 2 * count else 4 * count)

/-- Adds values one after the other, given the number of those that are in the table. A table of
which three fifths are taken grows, and its values are put into the new one in order. -/
def growWith (slots : Slots) (count : Nat) : List (Value × Nat) → Slots
  | [] => slots
  | e :: rest =>
    let slots := slots.put e
    let count := count + 1
    let slots :=
      if (slots.size - 1) * 3 ≤ count * 5 then ofList (grownSize count) slots.taken else slots
    slots.growWith count rest

end Slots

/-- The values of a set in the order of a table that is made of them, if they are all numbers. -/
def orderBy (table : List (Value × Nat) → Slots) (values : List Value) : List Value :=
  match values.mapM fun v => v.residue?.map fun r => (v, r) with
  | none => values
  | some known => (table known).taken.map Prod.fst

/-- The values of a set in the order in which they are shown. They come all at once. -/
def setOrder (values : List Value) : List Value :=
  orderBy (Slots.ofList (Slots.sizeFor values.length)) values

/-- The members of a set in the order in which a copy of it shows them. A copy gets the members one
by one. -/
def copyOrder (members : List Value) : List Value :=
  orderBy ((Slots.free 8).growWith 0) members

end Peering
