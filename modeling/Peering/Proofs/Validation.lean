import Peering.Peer
import Mathlib.Tactic.Common

/-!
# Which configurations are valid

The check of a configuration goes through the fields one by one and reports the first that is
not admitted. This file says which configurations it accepts, without an order, and that all
others are refused by a validation error, where it can be shown what is wrong with them.
-/

namespace Peering

namespace Value

/-- A value is in a range exactly if it is an integer there. -/
theorem isIntIn_iff {v : Value} {low high : Int} :
    v.isIntIn low high = true ↔ ∃ n, v = .int n ∧ low ≤ n ∧ n ≤ high := by
  cases v with
  | int n => simp [isIntIn]
  | _ => simp [isIntIn]

/-- A value is from a bound on exactly if it is an integer there. -/
theorem isIntFrom_iff {v : Value} {low : Int} :
    v.isIntFrom low = true ↔ ∃ n, v = .int n ∧ low ≤ n := by
  cases v with
  | int n => simp [isIntFrom]
  | _ => simp [isIntFrom]

end Value

namespace Peer

/-- The configuration is valid. -/
structure IsValid (p : Peer) : Prop where
  /-- The address is a text that is not blank. -/
  address_text : ∃ s, p.address = .text s ∧ s.toList.all isBlank = false
  /-- AS numbers are integers of four octets other than zero. -/
  asn_range : ∀ f ∈ p.asnFields,
    ∃ n, f.2 = .int n ∧ EngineError.minAsn ≤ n ∧ n ≤ EngineError.maxAsn
  /-- Counts are integers from zero on. -/
  count_nonneg : ∀ f ∈ p.countFields, ∃ n, f.2 = .int n ∧ 0 ≤ n

variable {p : Peer} {a : String}

/-- The usable addresses are the texts that are not blank. -/
theorem usableAddress?_eq_some_iff :
    p.usableAddress? = some a ↔ p.address = .text a ∧ a.toList.all isBlank = false := by
  unfold usableAddress?
  constructor
  · intro h
    split at h
    · rename_i s hs
      split at h
      · cases h
      · rename_i hblank
        obtain rfl := Option.some.inj h
        exact ⟨hs, by simpa using hblank⟩
    · cases h
  · rintro ⟨haddress, hblank⟩
    simp only [haddress, hblank, Bool.false_eq_true, if_false]

/-- No AS number is bad exactly if both are integers in the range. -/
theorem badAsn?_eq_none_iff : p.badAsn? = none ↔ ∀ f ∈ p.asnFields,
    ∃ n, f.2 = .int n ∧ EngineError.minAsn ≤ n ∧ n ≤ EngineError.maxAsn := by
  simp only [badAsn?, List.find?_eq_none, Bool.not_eq_true, Bool.not_eq_false',
    Value.isIntIn_iff]

/-- No count is bad exactly if all are integers from zero on. -/
theorem badCount?_eq_none_iff :
    p.badCount? = none ↔ ∀ f ∈ p.countFields, ∃ n, f.2 = .int n ∧ 0 ≤ n := by
  simp only [badCount?, List.find?_eq_none, Bool.not_eq_true, Bool.not_eq_false',
    Value.isIntFrom_iff]

/-- What is accepted is valid, and the result is the address. -/
theorem validate_eq_ok_iff : p.validate = .ok a ↔ p.IsValid ∧ p.address = .text a := by
  constructor
  · intro h
    unfold validate at h
    cases husable : p.usableAddress? with
    | none => simp [husable] at h
    | some b =>
      cases hasn : p.badAsn? with
      | some f => simp [husable, hasn] at h
      | none =>
        cases hcount : p.badCount? with
        | some f => simp [husable, hasn, hcount] at h
        | none =>
          obtain rfl : b = a := by simpa [husable, hasn, hcount] using h
          obtain ⟨haddress, hblank⟩ := usableAddress?_eq_some_iff.mp husable
          exact ⟨⟨⟨b, haddress, hblank⟩, badAsn?_eq_none_iff.mp hasn,
            badCount?_eq_none_iff.mp hcount⟩, haddress⟩
  · rintro ⟨⟨⟨s, hs, hblank⟩, hasn, hcount⟩, haddress⟩
    obtain rfl : s = a := Value.text.inj (hs.symm.trans haddress)
    have husable := usableAddress?_eq_some_iff.mpr ⟨hs, hblank⟩
    simp only [validate, husable, badAsn?_eq_none_iff.mpr hasn,
      badCount?_eq_none_iff.mpr hcount]

/-- Only texts are accepted as addresses. -/
theorem address_of_validate (h : p.validate = .ok a) : p.address = .text a :=
  (validate_eq_ok_iff.mp h).2

/-- Every valid configuration is accepted. -/
theorem IsValid.exists_validate (h : p.IsValid) :
    ∃ a, p.address = .text a ∧ p.validate = .ok a := by
  obtain ⟨a, haddress, _⟩ := h.address_text
  exact ⟨a, haddress, validate_eq_ok_iff.mpr ⟨h, haddress⟩⟩

/-- What is refused is not valid, and the error is one of validation. -/
theorem not_isValid_of_validate {err : EngineError} (h : p.validate = .error err) :
    ¬p.IsValid ∧ ∃ field, err.kind = .validation field := by
  constructor
  · intro hvalid
    obtain ⟨a, _, ha⟩ := hvalid.exists_validate
    rw [h] at ha
    cases ha
  · unfold validate at h
    split at h
    · obtain rfl := Except.error.inj h
      exact ⟨_, rfl⟩
    · split at h
      · obtain rfl := Except.error.inj h
        exact ⟨_, rfl⟩
      · split at h
        · obtain rfl := Except.error.inj h
          exact ⟨_, rfl⟩
        · cases h

/-- The check that shows what is wrong accepts the same configurations. -/
theorem check_eq_ok_iff_validate : p.check = .ok a ↔ p.validate = .ok a := by
  unfold check
  cases p.validate with
  | ok b => simp
  | error err => exact ⟨fun h => (nomatch h), fun h => (nomatch h)⟩

/-- What does not pass is not valid. It is refused by a validation error, unless the number that is
not admitted cannot be shown: then it fails for the reason of that. -/
theorem not_isValid_of_check {f : Failure} (h : p.check = .error f) :
    ¬p.IsValid ∧
      ((p.hiddenFault? = none ∧ ∃ err field, f = .refused err ∧ err.kind = .validation field) ∨
        ∃ fault, p.hiddenFault? = some fault ∧ f = .ofTextFault fault) := by
  unfold check at h
  split at h
  · cases h
  · rename_i err hvalid
    obtain ⟨hnot, field, hkind⟩ := not_isValid_of_validate hvalid
    obtain rfl := Except.error.inj h
    cases hhidden : p.hiddenFault? with
    | none => exact ⟨hnot, .inl ⟨rfl, err, field, rfl, hkind⟩⟩
    | some fault => exact ⟨hnot, .inr ⟨fault, rfl, rfl⟩⟩

end Peer

end Peering
