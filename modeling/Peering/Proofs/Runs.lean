import Peering.Duration
import Mathlib.Data.List.TakeWhile
import Mathlib.Tactic.Common

/-!
# Runs

Texts are read by taking off the longest run of characters of a class, and then the next one. This
file shows that a run which is followed by something that does not go on with it is found again,
and that a text is cut into runs in one way only. It also says which classes do not overlap.
-/

namespace Peering

section Runs

variable {α : Type} {p : α → Bool} {run run' rest rest' : List α}

/-- The list does not begin with an element of a class. -/
def Stops (p : α → Bool) (rest : List α) : Prop := ∀ a ∈ rest.head?, p a = false

/-- Nothing begins with no element of a class. -/
@[simp] theorem stops_nil : Stops p [] := by simp [Stops]

/-- A list stops a class exactly if its first element is not in it. -/
@[simp] theorem stops_cons {a : α} : Stops p (a :: rest) ↔ p a = false := by simp [Stops]

/-- In front of elements outside of the class nothing changes. -/
theorem stops_append (hrun : ∀ a ∈ run, p a = false) (hrest : Stops p rest) :
    Stops p (run ++ rest) := by
  cases run with
  | nil => exact hrest
  | cons a run => exact stops_cons.mpr (hrun a List.mem_cons_self)

/-- A run is taken up to what stops it. -/
theorem takeWhile_run (hrun : ∀ a ∈ run, p a = true) (hrest : Stops p rest) :
    (run ++ rest).takeWhile p = run := by
  rw [List.takeWhile_append_of_pos hrun]
  cases rest with
  | nil => simp
  | cons a rest => simp [stops_cons.mp hrest]

/-- A run is dropped up to what stops it. -/
theorem dropWhile_run (hrun : ∀ a ∈ run, p a = true) (hrest : Stops p rest) :
    (run ++ rest).dropWhile p = rest := by
  rw [List.dropWhile_append_of_pos hrun]
  cases rest with
  | nil => rfl
  | cons a rest => simp [stops_cons.mp hrest]

/-- A run and what stops it are found in one way only. -/
theorem eq_of_run_append_eq (heq : run ++ rest = run' ++ rest') (hrun : ∀ a ∈ run, p a = true)
    (hrun' : ∀ a ∈ run', p a = true) (hrest : Stops p rest) (hrest' : Stops p rest') :
    run = run' ∧ rest = rest' := by
  have htake := congrArg (List.takeWhile p) heq
  have hdrop := congrArg (List.dropWhile p) heq
  rw [takeWhile_run hrun hrest, takeWhile_run hrun' hrest'] at htake
  rw [dropWhile_run hrun hrest, dropWhile_run hrun' hrest'] at hdrop
  exact ⟨htake, hdrop⟩

/-- What stands in front of the first separator is found in one way only. -/
theorem eq_of_append_separator_eq [DecidableEq α] {separator : α}
    (heq : run ++ separator :: rest = run' ++ separator :: rest') (hrun : separator ∉ run)
    (hrun' : separator ∉ run') : run = run' ∧ rest = rest' := by
  have hother {l : List α} (hl : separator ∉ l) : ∀ a ∈ l, decide (a ≠ separator) = true :=
    fun a ha => decide_eq_true fun h => hl (h ▸ ha)
  obtain ⟨hruns, hrests⟩ := eq_of_run_append_eq heq (hother hrun) (hother hrun')
    (stops_cons.mpr (by simp)) (stops_cons.mpr (by simp))
  exact ⟨hruns, (List.cons.inj hrests).2⟩

end Runs

section Classes

variable {c : Char}

/-- The values of the digits of a text. -/
def digitValues (cs : List Char) : List Nat := cs.filterMap digitValue?

/-- The numbers of the blank characters. -/
private def blankCodes : List Nat :=
  [0x20, 0x09, 0x0a, 0x0b, 0x0c, 0x0d, 0x85, 0xa0, 0x1680, 0x2000, 0x2001, 0x2002, 0x2003, 0x2004,
    0x2005, 0x2006, 0x2007, 0x2008, 0x2009, 0x200a, 0x2028, 0x2029, 0x202f, 0x205f, 0x3000, 0x1c,
    0x1d, 0x1e, 0x1f]

private theorem toNat_mem_blankCodes (h : isBlank c = true) : c.toNat ∈ blankCodes := by
  simp only [isBlank, isWhiteSpace, Bool.or_eq_true, Bool.and_eq_true, beq_iff_eq,
    decide_eq_true_eq] at h
  simp only [blankCodes, List.mem_cons, List.not_mem_nil, or_false]
  omega

/-- A digit is not blank. -/
theorem isBlank_of_isDigit (h : isDigit c = true) : isBlank c = false := by
  rw [← Bool.not_eq_true]
  intro hblank
  have hcode := toNat_mem_blankCodes hblank
  obtain ⟨n, hn⟩ := Option.isSome_iff_exists.mp h
  unfold digitValue? at hn
  split at hn
  · split at hn
    · rename_i hascii
      have hlow : 0x30 ≤ c.toNat := hascii.1
      have hnone : ∀ k ∈ blankCodes, 0x30 ≤ k → 0x80 ≤ k := by decide
      have := hnone _ hcode hlow
      omega
    · cases hn
  · obtain ⟨z, hz, -⟩ := Option.map_eq_some_iff.mp hn
    have hmem := List.mem_of_find?_eq_some hz
    have hblock := List.find?_some hz
    simp only [Bool.and_eq_true, decide_eq_true_eq] at hblock
    have hnone : ∀ k ∈ blankCodes, ∀ z ∈ digitZeros, z ≤ k → ¬k < z + 10 := by decide +kernel
    exact hnone _ hcode z hmem hblock.1 hblock.2

/-- White space is no digit. -/
theorem isDigit_of_isBlank (h : isBlank c = true) : isDigit c = false := by
  rw [← Bool.not_eq_true]
  intro hdigit
  rw [isBlank_of_isDigit hdigit] at h
  cases h

/-- The digits at the front of a text are its longest run of digits. -/
theorem takeDigits_eq (cs : List Char) :
    takeDigits cs = (digitValues (cs.takeWhile isDigit), cs.dropWhile isDigit) := by
  induction cs with
  | nil => rfl
  | cons c cs ih =>
    cases hvalue : digitValue? c with
    | none =>
      have hdigit : isDigit c = false := by rw [isDigit, hvalue]; rfl
      simp [takeDigits, hvalue, hdigit, digitValues]
    | some d =>
      have hdigit : isDigit c = true := by rw [isDigit, hvalue]; rfl
      simp [takeDigits, hvalue, hdigit, digitValues, ih]

/-- The digits of a run are read up to what stops them. -/
theorem takeDigits_run {run rest : List Char} (hrun : ∀ c ∈ run, isDigit c = true)
    (hrest : Stops isDigit rest) : takeDigits (run ++ rest) = (digitValues run, rest) := by
  rw [takeDigits_eq, takeWhile_run hrun hrest, dropWhile_run hrun hrest]

/-- Every digit has a value. -/
theorem length_digitValues {cs : List Char} (h : ∀ c ∈ cs, isDigit c = true) :
    (digitValues cs).length = cs.length := by
  induction cs with
  | nil => rfl
  | cons c cs ih =>
    obtain ⟨d, hd⟩ := Option.isSome_iff_exists.mp (h c List.mem_cons_self)
    have hrest := ih fun c' hc' => h c' (List.mem_cons_of_mem _ hc')
    rw [digitValues, List.filterMap_cons_some hd, List.length_cons, List.length_cons]
    exact congrArg (· + 1) hrest

end Classes

end Peering
