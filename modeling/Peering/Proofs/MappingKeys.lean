import Peering.Proofs.TextKeys
import Mathlib.Tactic.Common

/-!
# Mappings with texts for keys

What is found in a mapping at a text is the first entry with this key. Where no text is a key twice,
it is the only one. A key that is set is found, and it leaves the other texts alone.
-/

namespace Peering.Mapping

variable {m : Mapping} {key key' : String} {k v w : Value}

/-- The texts among the keys of a mapping. -/
def textKeys (m : Mapping) : List String :=
  m.filterMap fun e =>
    match e.1 with
    | .text key => some key
    | _ => none

/-- A text under which a value stands is a key. -/
theorem mem_textKeys_of_mem (h : (.text key, v) ∈ m) : key ∈ m.textKeys :=
  List.mem_filterMap.mpr ⟨(.text key, v), h, rfl⟩

/-- A text that comes first is the first key. -/
theorem textKeys_cons_text (key : String) (v : Value) (m : Mapping) :
    textKeys ((.text key, v) :: m) = key :: m.textKeys := rfl

/-- Where no text is a key twice, there is one value at most at each. -/
theorem eq_of_mem (hm : m.textKeys.Nodup) (hv : (.text key, v) ∈ m) (hw : (.text key, w) ∈ m) :
    v = w := by
  induction m with
  | nil => cases hv
  | cons e rest ih =>
    have hrest : (textKeys rest).Nodup :=
      hm.sublist ((List.sublist_cons_self e rest).filterMap _)
    -- An entry behind one with the same text would be a second one.
    have hfirst {x y : Value} (hx : (.text key, x) = e) (hy : (.text key, y) ∈ rest) : False := by
      rw [← hx, textKeys_cons_text] at hm
      exact (List.nodup_cons.mp hm).1 (mem_textKeys_of_mem hy)
    obtain hv | hv := List.mem_cons.mp hv
    · obtain hw | hw := List.mem_cons.mp hw
      · exact (Prod.mk.inj (hv.trans hw.symm)).2
      · exact (hfirst hv hw).elim
    · obtain hw | hw := List.mem_cons.mp hw
      · exact (hfirst hw hv).elim
      · exact ih hrest hv hw

/-- The first entry is found at its key. -/
theorem get?_cons_self (key : String) (v : Value) (m : Mapping) :
    get? ((.text key, v) :: m) key = some v :=
  if_pos rfl

/-- Another key is looked for behind the first entry. -/
theorem get?_cons_of_ne (hk : k ≠ .text key) : get? ((k, v) :: m) key = m.get? key := by
  cases k with
  | text s => exact if_neg fun hs => hk (congrArg Value.text hs)
  | _ => rfl

/-- What is found at a key is an entry of the mapping. -/
theorem mem_of_get? (h : m.get? key = some v) : (.text key, v) ∈ m := by
  induction m with
  | nil => cases h
  | cons e rest ih =>
    obtain ⟨k, x⟩ := e
    by_cases hk : k = .text key
    · subst hk
      rw [get?_cons_self] at h
      obtain rfl := Option.some.inj h
      exact List.mem_cons_self
    · rw [get?_cons_of_ne hk] at h
      exact List.mem_cons_of_mem _ (ih h)

/-- Nothing is found exactly where no entry has the key. -/
theorem get?_eq_none_iff : m.get? key = none ↔ ∀ v, (.text key, v) ∉ m := by
  constructor
  · intro h
    induction m with
    | nil => simp
    | cons e rest ih =>
      obtain ⟨k, x⟩ := e
      by_cases hk : k = .text key
      · subst hk
        cases (get?_cons_self key x rest).symm.trans h
      · rw [get?_cons_of_ne hk] at h
        intro v hv
        obtain heq | hv := List.mem_cons.mp hv
        · exact hk (Prod.mk.inj heq).1.symm
        · exact ih h v hv
  · intro h
    cases hget : m.get? key with
    | none => rfl
    | some v => exact absurd (mem_of_get? hget) (h v)

/-- What is set is found. -/
theorem get?_set_self (m : Mapping) (key : String) (v : Value) :
    (m.set (.text key) v).get? key = some v := by
  induction m with
  | nil => exact get?_cons_self key v []
  | cons e rest ih =>
    obtain ⟨k, x⟩ := e
    rw [set]
    split
    · rename_i hk
      obtain rfl := Value.eqv_text_iff.mp hk
      exact get?_cons_self key v rest
    · rename_i hk
      rw [get?_cons_of_ne fun heq => hk (Value.eqv_text_iff.mpr heq)]
      exact ih

/-- What is set at one key is not found at another. -/
theorem get?_set_of_ne (hne : key' ≠ key) (m : Mapping) (v : Value) :
    (m.set (.text key) v).get? key' = m.get? key' := by
  have hother : Value.text key ≠ .text key' := fun heq => hne (Value.text.inj heq).symm
  induction m with
  | nil => exact get?_cons_of_ne hother
  | cons e rest ih =>
    obtain ⟨k, x⟩ := e
    rw [set]
    split
    · rename_i hk
      obtain rfl := Value.eqv_text_iff.mp hk
      rw [get?_cons_of_ne hother, get?_cons_of_ne hother]
    · by_cases hk : k = .text key'
      · subst hk
        rw [get?_cons_self, get?_cons_self]
      · rw [get?_cons_of_ne hk, get?_cons_of_ne hk, ih]

end Peering.Mapping
