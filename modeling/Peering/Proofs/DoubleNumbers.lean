import Mathlib
import Peering.Duration

/-!
# Doubles that are numbers

What is computed from numbers need not be one, as zeros and infinities do not go together. This file
shows that it is one where one of two factors, or a divisor, is neither. So the double that stands
for a decimal number is a number, and so is a duration that is written down.
-/

namespace Peering.Double

open Float.Model

variable {x y : Float}

section Packing

variable {spec : Format}

private theorem isNaN_dite {p : Prop} [Decidable p] {u : UnpackedFloat} {f : ¬p → UnpackedFloat}
    (hu : u.isNaN = false) (hf : ∀ h, (f h).isNaN = false) :
    (if h : p then u else f h).isNaN = false := by
  by_cases hp : p
  · rw [dif_pos hp]
    exact hu
  · rw [dif_neg hp]
    exact hf hp

/-- What is unpacked is a number, unless all bits of its exponent are set. -/
private theorem isNaN_unpack {b : BitVec spec.numBits}
    (h : UnpackedFloat.unpackExponent b ≠ -1#_) : (UnpackedFloat.unpack spec b).isNaN = false := by
  unfold UnpackedFloat.unpack
  refine (congrArg UnpackedFloat.isNaN (if_neg h)).trans ?_
  by_cases hleast : UnpackedFloat.unpackExponent b = 0#_
  · exact (congrArg UnpackedFloat.isNaN (if_pos hleast)).trans (isNaN_dite rfl fun _ => rfl)
  · exact congrArg UnpackedFloat.isNaN (if_neg hleast)

/-- A number is still one when it is packed and unpacked. -/
private theorem isNaN_pack {u : UnpackedFloat} (h : u.isNaN = false) :
    (Float.Model.pack u).unpack.isNaN = false := by
  cases u with
  | notANumber => cases h
  | infinity s => cases s <;> rfl
  | zero s => cases s <;> rfl
  | finite s m e hm =>
    change (UnpackedFloat.unpack .binary64
      (UnpackedFloat.pack .binary64 (.finite s m e hm))).isNaN = false
    unfold UnpackedFloat.pack
    dsimp only
    split
    · cases s <;> rfl
    · rename_i hsmall
      refine isNaN_unpack ?_
      split
      · rw [UnpackedFloat.unpackExponent_packComponents]
        intro heq
        have hfull := congrArg BitVec.toNat heq
        generalize (e + Format.binary64.exponentBias + _).toNat = k at hsmall hfull
        change ¬2 ^ 11 ≤ k + 1 at hsmall
        change k % 2 ^ 11 = 2047 at hfull
        omega
      · rw [UnpackedFloat.unpackExponent_packComponents]
        decide

/-- What is computed from a number is one, if it is for each kind of numbers. -/
private theorem isNaN_of_kinds {f : UnpackedFloat → UnpackedFloat} {u : UnpackedFloat}
    (hu : u.isNaN = false) (hinfinity : ∀ s, (f (.infinity s)).isNaN = false)
    (hzero : ∀ s, (f (.zero s)).isNaN = false)
    (hfinite : ∀ s m e hm, (f (.finite s m e hm)).isNaN = false) : (f u).isNaN = false := by
  cases u with
  | notANumber => cases hu
  | infinity s => exact hinfinity s
  | zero s => exact hzero s
  | finite s m e hm => exact hfinite s m e hm

private theorem isNaN_roundWithAccuracy (s : UnpackedFloat.Sign) (m : Nat) (e : Int)
    (accuracy : UnpackedFloat.Accuracy) :
    (UnpackedFloat.roundWithAccuracy spec s m e accuracy).isNaN = false := by
  unfold UnpackedFloat.roundWithAccuracy
  exact isNaN_dite rfl fun _ => rfl

end Packing

/-- The double is a number, and neither zero nor infinite. -/
def isProper (x : Float) : Bool :=
  match x.toModel.unpack with
  | .finite _ _ _ _ => true
  | _ => false

private theorem exists_of_isProper (h : isProper x = true) :
    ∃ s m e hm, x.toModel.unpack = .finite s m e hm := by
  unfold isProper at h
  split at h
  · exact ⟨_, _, _, _, ‹_›⟩
  · cases h

/-- A number times a proper one is a number. -/
theorem isNaN_mul (hx : x.isNaN = false) (hy : isProper y = true) : (x * y).isNaN = false := by
  obtain ⟨s, m, e, hm, hy⟩ := exists_of_isProper hy
  refine isNaN_pack (u := UnpackedFloat.mul .binary64 x.toModel.unpack y.toModel.unpack) ?_
  rw [hy]
  exact isNaN_of_kinds (f := fun u => UnpackedFloat.mul .binary64 u (.finite s m e hm)) hx
    (fun _ => rfl) (fun _ => rfl) fun _ _ _ _ => isNaN_roundWithAccuracy _ _ _ _

/-- A number divided by a proper one is a number. -/
theorem isNaN_div (hx : x.isNaN = false) (hy : isProper y = true) : (x / y).isNaN = false := by
  obtain ⟨s, m, e, hm, hy⟩ := exists_of_isProper hy
  refine isNaN_pack (u := UnpackedFloat.div .binary64 x.toModel.unpack y.toModel.unpack) ?_
  rw [hy]
  exact isNaN_of_kinds (f := fun u => UnpackedFloat.div .binary64 u (.finite s m e hm)) hx
    (fun _ => rfl) (fun _ => rfl) fun _ _ _ _ => isNaN_roundWithAccuracy _ _ _ _

/-- The opposite of a number is a number. -/
theorem isNaN_neg (hx : x.isNaN = false) : (-x).isNaN = false :=
  isNaN_pack (u := x.toModel.unpack.neg) (isNaN_of_kinds (f := UnpackedFloat.neg) hx
    (fun _ => rfl) (fun _ => rfl) fun _ _ _ _ => rfl)

/-- What is made of an unsigned integer is a number. -/
theorem isNaN_toFloat (n : UInt64) : n.toFloat.isNaN = false := by
  refine isNaN_pack (u := UnpackedFloat.normalize .binary64 n.toNat 0 .positive) ?_
  unfold UnpackedFloat.normalize
  split
  · exact isNaN_roundWithAccuracy _ _ _ _
  · rfl
  · exact isNaN_roundWithAccuracy _ _ _ _

private theorem isNaN_unpackedOfScientific (n : Nat) (e : Int) :
    (UnpackedFloat.ofScientific .binary64 n e).isNaN = false := by
  unfold UnpackedFloat.ofScientific
  split
  · rfl
  split
  · rfl
  split
  · rfl
  split
  · exact isNaN_roundWithAccuracy _ _ _ _
  · exact isNaN_roundWithAccuracy _ _ _ _

/-- What is made of decimal digits is a number. -/
theorem isNaN_ofScientific (n : Nat) (negative : Bool) (e : Nat) :
    (Float.ofScientific n negative e).isNaN = false := by
  have hpowers : ∀ k (hk : k < 23), isProper (Float.exactlyRepresentablePowersOfTen[k]) = true := by
    decide +kernel
  unfold Float.ofScientific
  split
  · rename_i hsmall
    have hpower := hpowers e (by omega)
    dsimp only
    split
    · exact isNaN_div (isNaN_toFloat _) hpower
    · exact isNaN_mul (isNaN_toFloat _) hpower
  · exact isNaN_pack (isNaN_unpackedOfScientific _ _)

/-- The double that is nearest to a decimal number is a number. -/
theorem isNaN_floatOfDecimal (n : Nat) (e : Int) : (floatOfDecimal n e).isNaN = false := by
  unfold floatOfDecimal
  split
  · decide +kernel
  split
  · decide +kernel
  split
  · decide +kernel
  · exact isNaN_ofScientific _ _ _

/-- The double nearest to an integer is a number. -/
theorem isNaN_floatOfInt? {n : Int} (h : floatOfInt? n = some x) : x.isNaN = false := by
  unfold floatOfInt? at h
  split at h
  · cases h
  · obtain rfl := Option.some.inj h
    split
    · exact isNaN_neg (isNaN_ofScientific _ _ _)
    · exact isNaN_ofScientific _ _ _

end Peering.Double

namespace Peering.Duration

/-- A duration that is written down is a number. -/
theorem Literal.isNaN_toSeconds (l : Literal) : l.toSeconds.isNaN = false := by
  refine Double.isNaN_mul ?_ ?_
  · unfold Literal.number
    dsimp only
    split
    · exact Double.isNaN_neg (Double.isNaN_floatOfDecimal _ _)
    · exact Double.isNaN_floatOfDecimal _ _
  · cases l.unit <;> decide +kernel

/-- A duration is a number, unless a double is given that is not. -/
theorem isNaN_of_ofValue {v : Value} {x : Float} (h : ofValue v = .ok x) :
    x.isNaN = false ∨ v = .float x := by
  unfold ofValue at h
  split at h
  · split at h
    · rename_i hfits
      obtain rfl := Except.ok.inj h
      exact .inl (Double.isNaN_floatOfInt? hfits)
    · cases h
  · obtain rfl := Except.ok.inj h
    exact .inr rfl
  · split at h
    · obtain rfl := Except.ok.inj h
      exact .inl (Literal.isNaN_toSeconds _)
    · cases h
  · cases h

end Peering.Duration
