import Peering.Table
import Mathlib.Data.List.Nodup

/-!
# Tables with texts for keys

A text equals no other value than itself. So a table whose keys are texts, none of them twice, is a
map from its keys: what is found at a key is what stands there, and what is done at one key leaves
all others alone.
-/

namespace Peering

/-- No other value than a text itself is equal to it. -/
theorem Value.eqv_text_iff {v : Value} {s : String} : v.eqv (.text s) = true ↔ v = .text s := by
  cases v with
  | text t => simp
  | _ => simp [Value.eqv]

/-- The values are texts, and none of them is there twice. -/
structure AreDistinctTexts (keys : List Value) : Prop where
  texts : ∀ k ∈ keys, ∃ s, k = .text s
  nodup : keys.Nodup

/-- One of several texts is equal only to itself. -/
theorem AreDistinctTexts.eqv_iff {keys : List Value} (h : AreDistinctTexts keys) {k v : Value}
    (hk : k ∈ keys) : k.eqv v = true ↔ v = k := by
  obtain ⟨s, rfl⟩ := h.texts k hk
  exact Value.text_eqv_iff

/-- Some of distinct texts are distinct texts. -/
theorem AreDistinctTexts.of_sublist {keys keys' : List Value} (h : AreDistinctTexts keys)
    (hsub : keys'.Sublist keys) : AreDistinctTexts keys' where
  texts := fun k hk => h.texts k (hsub.subset hk)
  nodup := h.nodup.sublist hsub

namespace Table

variable {α : Type} {t : Table α} {s : String} {x : α} {v : Value}

/-- The first entry is found at its key, and the others behind it. -/
theorem get?_cons (k : Value) (x : α) (t : Table α) (v : Value) :
    get? ((k, x) :: t) v = if k.eqv v then some x else get? t v := by
  unfold get?
  by_cases hk : k.eqv v = true <;> simp [hk]

/-- What is not found in the first table is looked for in the second. -/
theorem get?_append (t u : Table α) (v : Value) :
    get? (t ++ u) v = (t.get? v).or (u.get? v) := by
  rw [get?, List.find?_append, Option.map_or]
  rfl

/-- A table contains a key exactly if there is a value at it. -/
theorem contains_eq_isSome_get? (t : Table α) (v : Value) : t.contains v = (t.get? v).isSome := by
  rw [get?, Option.isSome_map, Bool.eq_iff_iff, contains, List.any_eq_true, List.find?_isSome]

section Writing

/-- Only what is found at a text is replaced by what is written there. -/
private theorem get?_written (t : Table α) (s : String) (x : α) (v : Value) :
    get? (t.map fun e => if e.1.eqv (.text s) then (e.1, x) else e) v =
      (t.get? v).map fun y => if v.eqv (.text s) then x else y := by
  induction t with
  | nil => rfl
  | cons e t ih =>
    obtain ⟨k, y⟩ := e
    rw [List.map_cons]
    by_cases hks : k.eqv (.text s) = true
    · obtain rfl := Value.eqv_text_iff.mp hks
      rw [if_pos hks, get?_cons, get?_cons, ih]
      by_cases hv : (Value.text s).eqv v = true
      · obtain rfl := Value.text_eqv_iff.mp hv
        simp
      · rw [if_neg hv, if_neg hv]
    · rw [if_neg hks, get?_cons, get?_cons, ih]
      by_cases hkv : k.eqv v = true
      · have hvs : ¬v.eqv (.text s) = true := by
          intro hvs
          obtain rfl := Value.eqv_text_iff.mp hvs
          exact hks hkv
        rw [if_pos hkv, if_pos hkv, Option.map_some, if_neg hvs]
      · rw [if_neg hkv, if_neg hkv]

/-- What is set at a text is found there. -/
theorem get?_set_self (t : Table α) (s : String) (x : α) :
    (t.set (.text s) x).get? (.text s) = some x := by
  have hself : (Value.text s).eqv (.text s) = true := Value.eqv_text_iff.mpr rfl
  unfold set
  rw [contains_eq_isSome_get?]
  cases hfound : t.get? (.text s) with
  | some y =>
    rw [Option.isSome_some, if_pos rfl, get?_written, hfound, Option.map_some, if_pos hself]
  | none =>
    rw [Option.isSome_none, if_neg Bool.false_ne_true, get?_append, hfound, Option.none_or,
      get?_cons, if_pos hself]

/-- What is set at a text changes nothing elsewhere. -/
theorem get?_set_of_ne (hv : v ≠ .text s) : (t.set (.text s) x).get? v = t.get? v := by
  have hother : ¬v.eqv (.text s) = true := fun heqv => hv (Value.eqv_text_iff.mp heqv)
  have hother' : ¬(Value.text s).eqv v = true := fun heqv => hv (Value.text_eqv_iff.mp heqv)
  unfold set
  split
  · rw [get?_written]
    simp only [if_neg hother, Option.map_id']
  · rw [get?_append, get?_cons, if_neg hother']
    exact Option.or_none

/-- Nothing is found any more at a text that has been taken out. -/
theorem get?_erase_self (t : Table α) (s : String) : (t.erase (.text s)).get? (.text s) = none := by
  rw [get?, Option.map_eq_none_iff, List.find?_eq_none]
  intro e he hfound
  obtain ⟨_, hkept⟩ := List.mem_filter.mp he
  simp [hfound] at hkept

/-- Taking a text out changes nothing elsewhere. -/
theorem get?_erase_of_ne (hv : v ≠ .text s) : (t.erase (.text s)).get? v = t.get? v := by
  induction t with
  | nil => rfl
  | cons e t ih =>
    obtain ⟨k, y⟩ := e
    by_cases hks : k.eqv (.text s) = true
    · obtain rfl := Value.eqv_text_iff.mp hks
      have hkv : ¬(Value.text s).eqv v = true := fun heqv => hv (Value.text_eqv_iff.mp heqv)
      rw [erase, List.filter_cons_of_neg (by simp), get?_cons, if_neg hkv]
      exact ih
    · rw [erase, List.filter_cons_of_pos (by simpa using hks), get?_cons, get?_cons]
      change (if k.eqv v = true then some y else (erase t (.text s)).get? v) = _
      rw [ih]

/-- What is set at any other key changes nothing at a text. -/
theorem get?_text_set_of_ne {k : Value} (hk : k ≠ .text s) (t : Table α) (x : α) :
    (t.set k x).get? (.text s) = t.get? (.text s) := by
  unfold set
  split
  · rename_i hcontains
    clear hcontains
    induction t with
    | nil => rfl
    | cons e t ih =>
      obtain ⟨k', y⟩ := e
      rw [List.map_cons]
      by_cases hk's : k'.eqv (.text s) = true
      · obtain rfl := Value.eqv_text_iff.mp hk's
        have hother : ¬(Value.text s).eqv k = true := fun heqv => hk (Value.text_eqv_iff.mp heqv)
        rw [if_neg hother, get?_cons, get?_cons, if_pos hk's, if_pos hk's]
      · split <;> rw [get?_cons, get?_cons, if_neg hk's, if_neg hk's, ih]
  · have hother : ¬k.eqv (.text s) = true := fun heqv => hk (Value.eqv_text_iff.mp heqv)
    rw [get?_append, get?_cons, if_neg hother]
    exact Option.or_none

/-- Taking any other key out changes nothing at a text. -/
theorem get?_text_erase_of_ne {k : Value} (hk : k ≠ .text s) (t : Table α) :
    (t.erase k).get? (.text s) = t.get? (.text s) := by
  induction t with
  | nil => rfl
  | cons e t ih =>
    obtain ⟨k', y⟩ := e
    by_cases hk' : k'.eqv k = true
    · have hother : ¬k'.eqv (.text s) = true := by
        intro heqv
        obtain rfl := Value.eqv_text_iff.mp heqv
        exact hk (Value.text_eqv_iff.mp hk')
      rw [erase, List.filter_cons_of_neg (by simpa using hk'), get?_cons, if_neg hother]
      exact ih
    · rw [erase, List.filter_cons_of_pos (by simpa using hk'), get?_cons, get?_cons]
      change (if k'.eqv (.text s) = true then some y else (erase t k).get? (.text s)) = _
      rw [ih]

end Writing

section Reading

/-- In a table whose keys are distinct texts, what stands at a key is found there. -/
theorem get?_eq_some_iff (ht : AreDistinctTexts t.keys) : t.get? v = some x ↔ (v, x) ∈ t := by
  constructor
  · intro hfound
    obtain ⟨⟨k, y⟩, hfind, rfl⟩ := Option.map_eq_some_iff.mp hfound
    have hmem := List.mem_of_find?_eq_some hfind
    have hkv : k.eqv v = true := by simpa using List.find?_some hfind
    rw [(ht.eqv_iff (List.mem_map_of_mem hmem)).mp hkv]
    exact hmem
  · intro hmem
    have hself : v.eqv v = true := (ht.eqv_iff (List.mem_map_of_mem hmem)).mpr rfl
    have hsome : (t.find? fun e => e.1.eqv v).isSome = true :=
      List.find?_isSome.mpr ⟨(v, x), hmem, hself⟩
    obtain ⟨⟨k, y⟩, hfind⟩ := Option.isSome_iff_exists.mp hsome
    have hmem' := List.mem_of_find?_eq_some hfind
    have hkv : k.eqv v = true := by simpa using List.find?_some hfind
    obtain rfl : v = k := (ht.eqv_iff (List.mem_map_of_mem hmem')).mp hkv
    have hentry := List.inj_on_of_nodup_map ht.nodup hmem hmem' rfl
    rw [get?, hfind, ← hentry]
    rfl

/-- Nothing is found exactly at what is no key. -/
theorem get?_eq_none_iff (ht : AreDistinctTexts t.keys) : t.get? v = none ↔ v ∉ t.keys := by
  constructor
  · intro hnone hkey
    obtain ⟨⟨k, x⟩, hmem, rfl⟩ := List.mem_map.mp hkey
    rw [(get?_eq_some_iff ht).mpr hmem] at hnone
    cases hnone
  · intro hkey
    cases hfound : t.get? v with
    | none => rfl
    | some x => exact absurd (List.mem_map_of_mem ((get?_eq_some_iff ht).mp hfound)) hkey

/-- A key that comes in for the first time comes in at the end. -/
theorem set_of_not_mem (ht : AreDistinctTexts t.keys) (hkey : v ∉ t.keys) (x : α) :
    t.set v x = t ++ [(v, x)] := by
  have habsent : ¬t.contains v = true := by
    rw [contains_eq_isSome_get?, (get?_eq_none_iff ht).mpr hkey]
    exact Bool.false_ne_true
  rw [set, if_neg habsent]

end Reading

end Table

end Peering
