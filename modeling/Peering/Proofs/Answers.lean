import Mathlib.Tactic.Common

/-!
# Answers that are put together

What is computed from several answers fails if one of them does. This file takes an answer apart
into those it was made of, and says what the answers for the elements of a list are.
-/

namespace Peering

variable {ε α β : Type}

/-- Where there is an answer in the end, there was one before. -/
theorem exists_of_bind_ok {x : Except ε α} {f : α → Except ε β} {b : β}
    (h : x.bind f = .ok b) : ∃ a, x = .ok a ∧ f a = .ok b := by
  cases x with
  | error e => cases h
  | ok a => exact ⟨a, rfl, h⟩

/-- Where there is none, one of the two was missing. -/
theorem exists_of_bind_error {x : Except ε α} {f : α → Except ε β} {e : ε}
    (h : x.bind f = .error e) : x = .error e ∨ ∃ a, x = .ok a ∧ f a = .error e := by
  cases x with
  | error e' =>
    obtain rfl := Except.error.inj h
    exact .inl rfl
  | ok a => exact .inr ⟨a, rfl, h⟩

/-- What has a value is that value. -/
theorem eq_ok_of_toOption {x : Except ε α} {a : α} (h : x.toOption = some a) : x = .ok a := by
  cases x with
  | ok _ => exact congrArg Except.ok (Option.some.inj h)
  | error _ => cases h

section Lists

variable {f : α → Except ε β} {g : α → β} {l : List α}

/-- The answers for a list are told by what an answer must be. -/
theorem eq_map_of_mapM (hfg : ∀ x y, f x = .ok y → y = g x) {ys : List β}
    (h : l.mapM f = .ok ys) : ys = l.map g := by
  induction l generalizing ys with
  | nil => exact (Except.ok.inj h).symm
  | cons x rest ih =>
    rw [List.mapM_cons] at h
    obtain ⟨y, hy, h⟩ := exists_of_bind_ok h
    obtain ⟨others, hothers, h⟩ := exists_of_bind_ok h
    obtain rfl := Except.ok.inj h
    rw [List.map_cons, hfg x y hy, ih hothers]

/-- A list without an answer has an element without one. -/
theorem exists_of_mapM_error {e : ε} (h : l.mapM f = .error e) : ∃ x ∈ l, f x = .error e := by
  induction l with
  | nil => cases h
  | cons x rest ih =>
    rw [List.mapM_cons] at h
    obtain hx | ⟨y, -, h⟩ := exists_of_bind_error h
    · exact ⟨x, List.mem_cons_self, hx⟩
    · obtain hrest | ⟨others, -, h⟩ := exists_of_bind_error h
      · obtain ⟨z, hz, hfail⟩ := ih hrest
        exact ⟨z, List.mem_cons_of_mem x hz, hfail⟩
      · cases h

/-- Each answer is one for an element. -/
theorem exists_of_mem_mapM {ys : List β} {y : β} (h : l.mapM f = .ok ys) (hy : y ∈ ys) :
    ∃ x ∈ l, f x = .ok y := by
  induction l generalizing ys with
  | nil =>
    obtain rfl := Except.ok.inj h
    cases hy
  | cons x rest ih =>
    rw [List.mapM_cons] at h
    obtain ⟨z, hz, h⟩ := exists_of_bind_ok h
    obtain ⟨others, hothers, h⟩ := exists_of_bind_ok h
    obtain rfl := Except.ok.inj h
    obtain rfl | hy := List.mem_cons.mp hy
    · exact ⟨x, List.mem_cons_self, hz⟩
    · obtain ⟨w, hw, hfound⟩ := ih hothers hy
      exact ⟨w, List.mem_cons_of_mem x hw, hfound⟩

/-- A list with an answer has one for each element. -/
theorem exists_of_mapM_ok {ys : List β} (h : l.mapM f = .ok ys) : ∀ x ∈ l, ∃ y, f x = .ok y := by
  induction l generalizing ys with
  | nil => simp
  | cons x rest ih =>
    rw [List.mapM_cons] at h
    obtain ⟨y, hy, h⟩ := exists_of_bind_ok h
    obtain ⟨others, hothers, h⟩ := exists_of_bind_ok h
    exact List.forall_mem_cons.mpr ⟨⟨y, hy⟩, ih hothers⟩

/-- Where each element has an answer, so has the list of all. -/
theorem mapM_of_forall_ok (h : ∀ x ∈ l, f x = .ok (g x)) : l.mapM f = .ok (l.map g) := by
  induction l with
  | nil => rfl
  | cons x rest ih =>
    rw [List.mapM_cons, h x List.mem_cons_self, ih fun y hy => h y (List.mem_cons_of_mem x hy)]
    rfl

end Lists

end Peering
