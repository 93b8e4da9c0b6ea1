import Peering.Value.Text
import Mathlib.Tactic.Common

/-!
# Values that can be shown

A value is shown unless an integer in it is too long to be written, or too many values stand one
inside of the other. This file counts the levels of a value. Where no integer is too long, there is
room for so many of them, and nothing else counts.
-/

namespace Peering.Value

/-- No integer in a value of any kind is too long to be written. -/
inductive HasShortIntegers : Value → Prop
  | null : HasShortIntegers .null
  | bool (b : Bool) : HasShortIntegers (.bool b)
  | int {n : Int} (hn : isWritable n = true) : HasShortIntegers (.int n)
  | float (x : Float) : HasShortIntegers (.float x)
  | text (s : String) : HasShortIntegers (.text s)
  | bytes (b : List UInt8) : HasShortIntegers (.bytes b)
  | list {items : List Value} (hitems : ∀ v ∈ items, HasShortIntegers v) :
    HasShortIntegers (.list items)
  | mapping {entries : List (Value × Value)} (hkeys : ∀ e ∈ entries, HasShortIntegers e.1)
    (hvalues : ∀ e ∈ entries, HasShortIntegers e.2) : HasShortIntegers (.mapping entries)
  | set {members : List Value} (hmembers : ∀ v ∈ members, HasShortIntegers v) :
    HasShortIntegers (.set members)
  | pair {a b : Value} (ha : HasShortIntegers a) (hb : HasShortIntegers b) :
    HasShortIntegers (.pair a b)
  | shown (s : Shown) : HasShortIntegers (.shown s)

mutual

/-- The most values that stand one inside of the other in a value, itself included. The members of a
set count as those of a list in it. -/
def levels : Value → Nat
  | .list items => 1 + itemsLevels items
  | .mapping entries => 1 + entriesLevels entries
  | .set members => 2 + itemsLevels members
  | .pair a b => 1 + max a.levels b.levels
  | _ => 1

/-- The most levels of an item of a list. -/
def itemsLevels : List Value → Nat
  | [] => 0
  | v :: rest => max v.levels (itemsLevels rest)

/-- The most levels of a key or value of a mapping. -/
def entriesLevels : List (Value × Value) → Nat
  | [] => 0
  | (k, v) :: rest => max (max k.levels v.levels) (entriesLevels rest)

end

variable {v : Value} {room k m : Nat}

/-- A value itself is one level. -/
theorem levels_pos (v : Value) : 0 < v.levels := by
  cases v <;> simp only [levels] <;> omega

/-- An item of a list has no more levels than the items together. -/
theorem levels_le_of_mem_items {items : List Value} (h : v ∈ items) :
    v.levels ≤ itemsLevels items := by
  induction items with
  | nil => cases h
  | cons w rest ih =>
    rw [itemsLevels]
    obtain rfl | h := List.mem_cons.mp h
    · exact Nat.le_max_left _ _
    · exact Nat.le_trans (ih h) (Nat.le_max_right _ _)

/-- A value of a mapping has no more levels than the entries together. -/
theorem levels_le_of_mem_entries {entries : List (Value × Value)} {k : Value}
    (h : (k, v) ∈ entries) : v.levels ≤ entriesLevels entries := by
  induction entries with
  | nil => cases h
  | cons e rest ih =>
    rw [entriesLevels]
    obtain rfl | h := List.mem_cons.mp h
    · exact Nat.le_trans (Nat.le_max_right _ _) (Nat.le_max_left _ _)
    · exact Nat.le_trans (ih h) (Nat.le_max_right _ _)

/-- The fault if there are so many levels and there is only so much room. -/
private def depthFault? (room levels : Nat) : Option TextFault :=
  if room < levels then some .tooDeep else none

private theorem depthFault?_or (room k m : Nat) :
    (depthFault? room k).or (depthFault? room m) = depthFault? room (max k m) := by
  unfold depthFault?
  split_ifs <;> first | rfl | omega

/-- One level more is one less for what is inside. -/
private theorem depthFault?_inside (room k : Nat) :
    (if room = 0 then some .tooDeep else depthFault? (room - 1) k) = depthFault? room (1 + k) := by
  unfold depthFault?
  split_ifs <;> first | rfl | omega

/-- A set takes two levels. -/
private theorem depthFault?_inside_set (room k : Nat) :
    (if room ≤ 1 then some .tooDeep else depthFault? (room - 2) k) = depthFault? room (2 + k) := by
  unfold depthFault?
  split_ifs <;> first | rfl | omega

private theorem depthFault?_leaf (room : Nat) :
    (if room = 0 then some .tooDeep else none) = depthFault? room 1 :=
  depthFault?_inside room 0

private theorem itemsFault_eq {items : List Value}
    (h : ∀ v ∈ items, v.faultWithin room = depthFault? room v.levels) :
    itemsFault room items = depthFault? room (itemsLevels items) := by
  induction items with
  | nil => rfl
  | cons v rest ih =>
    rw [itemsFault, itemsLevels, h v List.mem_cons_self,
      ih fun w hw => h w (List.mem_cons_of_mem v hw), depthFault?_or]

private theorem entriesFault_eq {entries : List (Value × Value)}
    (hkeys : ∀ e ∈ entries, e.1.faultWithin room = depthFault? room e.1.levels)
    (hvalues : ∀ e ∈ entries, e.2.faultWithin room = depthFault? room e.2.levels) :
    entriesFault room entries = depthFault? room (entriesLevels entries) := by
  induction entries with
  | nil => rfl
  | cons e rest ih =>
    rw [entriesFault, entriesLevels, hkeys e List.mem_cons_self, hvalues e List.mem_cons_self,
      ih (fun f hf => hkeys f (List.mem_cons_of_mem e hf))
        fun f hf => hvalues f (List.mem_cons_of_mem e hf), depthFault?_or, depthFault?_or]

private theorem HasShortIntegers.faultWithin_eq (h : v.HasShortIntegers) (room : Nat) :
    v.faultWithin room = depthFault? room v.levels := by
  induction h generalizing room with
  | int hn =>
    rw [faultWithin, if_pos hn, depthFault?_leaf]
    rfl
  | list _ ih =>
    rw [faultWithin, levels, itemsFault_eq fun v hv => ih v hv (room - 1), depthFault?_inside]
  | mapping _ _ ihkeys ihvalues =>
    rw [faultWithin, levels, entriesFault_eq (fun e he => ihkeys e he (room - 1))
      fun e he => ihvalues e he (room - 1), depthFault?_inside]
  | set _ ih =>
    rw [faultWithin, levels, itemsFault_eq fun v hv => ih v hv (room - 2), depthFault?_inside_set]
  | pair _ _ iha ihb =>
    rw [faultWithin, levels, iha, ihb, depthFault?_or, depthFault?_inside]
  | _ =>
    rw [faultWithin, levels]
    · exact depthFault?_leaf room
    all_goals simp

/-- Where no integer is too long, a value can be shown exactly if there are not too many levels. -/
theorem HasShortIntegers.textFault?_eq (h : v.HasShortIntegers) :
    v.textFault? = if textRoom < v.levels then some .tooDeep else none :=
  h.faultWithin_eq textRoom

end Peering.Value
