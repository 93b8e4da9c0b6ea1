import Mathlib
import Peering.Proofs.ClockOrder

/-!
# Sums of doubles

A clock goes on by delays that are added to it. The sum of two doubles is the exact sum of their
mantissas at a common exponent, rounded to the 53 bits that a double has. Rounding does not go below
a double that the exact sum has reached, so what is added to a time without being negative never
gives an earlier time.
-/

namespace Peering.Double

open Float.Model UnpackedFloat

/-- A mantissa and an exponent as they are in a double: the mantissa has 53 bits, or fewer at the
least exponent. -/
structure IsCanonical (m : Nat) (e : Int) : Prop where
  mantissa_lt : m < 2 ^ 53
  least_le : -1074 ≤ e
  full : 2 ^ 52 ≤ m ∨ e = -1074

variable {m m' n k : Nat} {e e' : Int}

section Packing

private theorem finite_congr {s : Sign} {hm : 0 < m} {hm' : 0 < m'} (hmantissa : m = m')
    (hexponent : e = e') : UnpackedFloat.finite s m e hm = .finite s m' e' hm' := by
  subst hmantissa hexponent
  rfl

private theorem toNat_one_append (v : BitVec 52) : (1#1 ++ v).toNat = 2 ^ 52 + v.toNat := by
  rw [BitVec.toNat_append, ← Nat.shiftLeft_add_eq_or_of_lt v.isLt, Nat.shiftLeft_eq]
  simp

private theorem exponentBias_eq : Format.binary64.exponentBias = 1023 := rfl

/-- What is unpacked is canonical. -/
theorem isCanonical_of_unpack {v : Float.Model} {s : Sign} {hm : 0 < m}
    (hv : v.unpack = .finite s m e hm) : IsCanonical m e ∧ e ≤ 971 := by
  unfold Float.Model.unpack UnpackedFloat.unpack at hv
  simp only [exponentBias_eq] at hv
  split at hv
  · split at hv <;> cases hv
  rename_i hfull
  split at hv
  · rename_i hleast
    split at hv
    · cases hv
    · cases hv
      have hlt := (@unpackMantissa .binary64 v.toBits.toBitVec).isLt
      rw [hleast]
      exact ⟨⟨Nat.lt_trans hlt (by decide), by decide, Or.inr (by decide)⟩, by decide⟩
  · rename_i hnormal
    cases hv
    have hlt := (@unpackMantissa .binary64 v.toBits.toBitVec).isLt
    have hexponent := (@unpackExponent .binary64 v.toBits.toBitVec).isLt
    generalize hx : @unpackExponent .binary64 v.toBits.toBitVec = x at *
    generalize @unpackMantissa .binary64 v.toBits.toBitVec = y at *
    have hnonzero : x.toNat ≠ 0 := fun heq => hnormal (BitVec.eq_of_toNat_eq heq)
    have hfinite : x.toNat ≠ 2047 := fun heq => hfull (BitVec.eq_of_toNat_eq heq)
    change y.toNat < 2 ^ 52 at hlt
    change x.toNat < 2 ^ 11 at hexponent
    rw [toNat_one_append]
    exact ⟨⟨by omega, by omega, Or.inl (by omega)⟩, by omega⟩

private theorem biased_eq (e : Int) :
    (e + Format.binary64.exponentBias + (52 : Nat)).toNat = (e + 1075).toNat := by
  rw [exponentBias_eq]
  omega

private theorem pack_normal (hnormal : 2 ^ 52 ≤ m) (hlt : m < 2 ^ 53) (hleast : -1074 ≤ e)
    (he : e ≤ 971) (s : Sign) (hm : 0 < m) : UnpackedFloat.pack .binary64 (.finite s m e hm) =
      packComponents .binary64 s (BitVec.ofNat 11 (e + 1075).toNat) (BitVec.ofNat 52 m) := by
  have hbits : m.log2 + 1 = Format.binary64.mantissaBits :=
    congrArg Nat.succ ((Nat.log2_eq_iff hm.ne').mpr ⟨hnormal, hlt⟩)
  simp only [UnpackedFloat.pack, biased_eq]
  rw [if_neg (by omega), if_pos hbits]

private theorem pack_least (hlt : m < 2 ^ 52) (s : Sign) (hm : 0 < m) :
    UnpackedFloat.pack .binary64 (.finite s m (-1074) hm) =
      packComponents .binary64 s 0#11 (BitVec.ofNat 52 m) := by
  have hlog : m.log2 < 52 := (Nat.log2_lt hm.ne').mpr hlt
  simp only [UnpackedFloat.pack, biased_eq]
  rw [if_neg (by decide), if_neg (by change m.log2 + 1 ≠ 53; omega)]

/-- What is packed is unpacked again, if its exponent is not too large for a double. -/
theorem unpack_pack (hcanonical : IsCanonical m e) (he : e ≤ 971) (s : Sign) (hm : 0 < m) :
    (Float.Model.pack (.finite s m e hm)).unpack = .finite s m e hm := by
  obtain ⟨hlt, hleast, hfull⟩ := hcanonical
  change UnpackedFloat.unpack .binary64 (UnpackedFloat.pack .binary64 (.finite s m e hm)) = _
  by_cases hnormal : 2 ^ 52 ≤ m
  · have hexponent : (BitVec.ofNat 11 (e + 1075).toNat).toNat = (e + 1075).toNat := by
      rw [BitVec.toNat_ofNat, Nat.mod_eq_of_lt (by omega)]
    have hfinite : BitVec.ofNat 11 (e + 1075).toNat ≠ -1#11 := by
      intro heq
      have hall : (e + 1075).toNat = 2047 := hexponent.symm.trans (congrArg BitVec.toNat heq)
      omega
    have hnonzero : BitVec.ofNat 11 (e + 1075).toNat ≠ 0#11 := by
      intro heq
      have hzero : (e + 1075).toNat = 0 := hexponent.symm.trans (congrArg BitVec.toNat heq)
      omega
    rw [pack_normal hnormal hlt hleast he, UnpackedFloat.unpack]
    simp only [unpackMantissa_packComponents, unpackExponent_packComponents,
      unpackSign_packComponents, Sign.ofBitVec_toBitVec, if_neg hfinite, if_neg hnonzero]
    refine finite_congr ?_ ?_
    · rw [toNat_one_append, BitVec.toNat_ofNat]
      omega
    · rw [hexponent, exponentBias_eq]
      omega
  · have hlt' : m < 2 ^ 52 := Nat.lt_of_not_le hnormal
    obtain rfl := hfull.resolve_left hnormal
    have hmantissa : (BitVec.ofNat 52 m).toNat = m := by
      rw [BitVec.toNat_ofNat, Nat.mod_eq_of_lt hlt']
    have hnonzero : BitVec.ofNat 52 m ≠ 0#52 := by
      intro heq
      exact hm.ne' (hmantissa.symm.trans (congrArg BitVec.toNat heq))
    rw [pack_least hlt', UnpackedFloat.unpack]
    simp only [unpackMantissa_packComponents, unpackExponent_packComponents,
      unpackSign_packComponents, Sign.ofBitVec_toBitVec, dif_neg hnonzero]
    rw [if_neg (by decide), if_pos trivial]
    exact finite_congr hmantissa rfl

/-- What has too large an exponent is packed as an infinity. -/
theorem unpack_pack_of_lt (he : 971 < e) (s : Sign) (hm : 0 < m) :
    (Float.Model.pack (.finite s m e hm)).unpack = .infinity s := by
  have hpack : UnpackedFloat.pack .binary64 (.finite s m e hm) = packedInfinity .binary64 s := by
    simp only [UnpackedFloat.pack, biased_eq]
    rw [if_pos (by omega)]
  change UnpackedFloat.unpack .binary64 (UnpackedFloat.pack .binary64 (.finite s m e hm)) = _
  rw [hpack]
  cases s <;> rfl

end Packing

section Rounding

/-- The exponent that is aimed at in rounding. -/
private theorem target_eq (m : Nat) (e : Int) :
    Format.binary64.targetExponent (Float.Model.totalExponent m e) =
      max (m.log2 + e - 52) (-1074) := by
  have hleast : Format.binary64.minExponent = -1074 := rfl
  rw [Format.targetExponent, Float.Model.totalExponent, hleast]
  change max ((m.log2 : Int) + 1 + e - (53 : Nat)) (-1074) = _
  omega

private theorem mantissa_shiftRight (x : ExtendedMantissa) (k : Nat) :
    (x >>> k).mantissa = x.mantissa / 2 ^ k := by
  induction k with
  | zero => exact (Nat.div_one _).symm
  | succ k ih =>
    change (x >>> k).mantissa / 2 = _
    rw [ih, Nat.div_div_eq_div_mul, ← Nat.pow_succ]

private theorem roundedMantissa_bounds (x : ExtendedMantissa) :
    x.mantissa ≤ x.roundedMantissa ∧ x.roundedMantissa ≤ x.mantissa + 1 := by
  obtain ⟨m, round, sticky⟩ := x
  cases round <;> cases sticky
  case true.false =>
    change m ≤ m + m % 2 ∧ m + m % 2 ≤ m + 1
    omega
  case true.true => exact ⟨Nat.le_succ m, Nat.le_refl _⟩
  all_goals exact ⟨Nat.le_refl m, Nat.le_succ m⟩

/-- A mantissa of at most 53 bits stays as it is. -/
private theorem shift_of_log2_le (hlog : m.log2 ≤ 52) (hleast : -1074 ≤ e) :
    shiftToTargetExponent .binary64 m e .exact = (⟨m, false, false⟩, e) := by
  have hamount : (max ((m.log2 : Int) + e - 52) (-1074) - e).toNat = 0 := by omega
  simp only [shiftToTargetExponent, shiftToExponent, target_eq, hamount]
  exact Prod.ext rfl (Int.add_zero e)

/-- A mantissa that has just got a bit too many loses the last one. -/
private theorem shift_two_pow (hleast : -1074 ≤ e) :
    shiftToTargetExponent .binary64 (2 ^ 53) e .exact = (⟨2 ^ 52, false, false⟩, e + 1) := by
  have hamount : (max (((2 ^ 53 : Nat).log2 : Int) + e - 52) (-1074) - e).toNat = 1 := by
    rw [Nat.log2_two_pow]
    omega
  simp only [shiftToTargetExponent, shiftToExponent, target_eq, hamount]
  rfl

private theorem roundWithAccuracy_eq {x : ExtendedMantissa} {e' t : Int} {r : Nat}
    (hfirst : shiftToTargetExponent .binary64 m e .exact = (x, e'))
    (hsecond : shiftToTargetExponent .binary64 x.roundedMantissa e' .exact =
      (⟨r, false, false⟩, t)) (s : Sign) (hr : 0 < r) :
    roundWithAccuracy .binary64 s m e .exact = .finite s r t hr := by
  simp only [roundWithAccuracy, hfirst, hsecond]
  exact dif_neg hr.ne'

/-- A mantissa of at most 53 bits is not rounded. -/
private theorem round_of_log2_le (hlog : m.log2 ≤ 52) (hleast : -1074 ≤ e) (s : Sign)
    (hm : 0 < m) : roundWithAccuracy .binary64 s m e .exact = .finite s m e hm :=
  roundWithAccuracy_eq (shift_of_log2_le hlog hleast) (shift_of_log2_le hlog hleast) s hm

/-- A mantissa of more bits is rounded to 53 bits, or just beyond them. -/
private theorem round_of_lt_log2 (hlog : m.log2 = 52 + k) (hpos : 0 < k) (hleast : -1074 ≤ e)
    (s : Sign) : ∃ r t, ∃ hr : 0 < r, roundWithAccuracy .binary64 s m e .exact = .finite s r t hr ∧
      2 ^ 52 ≤ r ∧ r < 2 ^ 53 ∧ (t = e + k ∧ m / 2 ^ k ≤ r ∨ t = e + k + 1) := by
  have hm : m ≠ 0 := by
    rintro rfl
    rw [Nat.log2_zero] at hlog
    omega
  have hamount : (max ((m.log2 : Int) + e - 52) (-1074) - e).toNat = k := by omega
  have hfirst : shiftToTargetExponent .binary64 m e .exact =
      ((⟨m, false, false⟩ : ExtendedMantissa) >>> k, e + k) := by
    simp only [shiftToTargetExponent, shiftToExponent, target_eq, hamount]
    rfl
  obtain ⟨hlow, hhigh⟩ := (Nat.log2_eq_iff hm).mp hlog
  have hfloor : 2 ^ 52 ≤ m / 2 ^ k := by
    rw [Nat.le_div_iff_mul_le (Nat.two_pow_pos k), ← Nat.pow_add]
    exact hlow
  have hfloor' : m / 2 ^ k < 2 ^ 53 := by
    rw [Nat.div_lt_iff_lt_mul (Nat.two_pow_pos k), ← Nat.pow_add]
    exact Nat.lt_of_lt_of_eq hhigh (by congr 1; omega)
  obtain ⟨hle, hle'⟩ := roundedMantissa_bounds ((⟨m, false, false⟩ : ExtendedMantissa) >>> k)
  rw [mantissa_shiftRight] at hle hle'
  change m / 2 ^ k ≤ _ at hle
  change _ ≤ m / 2 ^ k + 1 at hle'
  have hleast' : -1074 ≤ e + k := by omega
  by_cases hfits : ((⟨m, false, false⟩ : ExtendedMantissa) >>> k).roundedMantissa < 2 ^ 53
  · have hsecond := shift_of_log2_le
      (Nat.le_of_lt_succ ((Nat.log2_lt (by omega)).mpr hfits)) hleast'
    exact ⟨_, _, by omega, roundWithAccuracy_eq hfirst hsecond s _, by omega, hfits,
      Or.inl ⟨rfl, hle⟩⟩
  · have hfull : ((⟨m, false, false⟩ : ExtendedMantissa) >>> k).roundedMantissa = 2 ^ 53 := by
      omega
    have hsecond := shift_two_pow hleast'
    rw [← hfull] at hsecond
    exact ⟨_, _, by decide, roundWithAccuracy_eq hfirst hsecond s _, by decide, by decide,
      Or.inr rfl⟩

private theorem round_eq (s : Sign) (m : Nat) (e : Int) {c : Nat}
    (hc : (e - max ((m.log2 : Int) + e - 52) (-1074)).toNat = c) :
    UnpackedFloat.round .binary64 s m e =
      roundWithAccuracy .binary64 s (m <<< c) (e - c) .exact := by
  simp only [UnpackedFloat.round, decreaseExponent, target_eq, hc]

/-- A double whose mantissa has 53 bits is at most a sum of as many bits at the same exponent. -/
private theorem exponent_le (hm' : 2 ^ 52 ≤ m') (hle : m' * 2 ^ n ≤ m) (hm : m < 2 ^ (53 + k)) :
    n ≤ k := by
  have hpow : 2 ^ (52 + n) < 2 ^ (53 + k) := by
    calc 2 ^ (52 + n) = 2 ^ 52 * 2 ^ n := Nat.pow_add 2 52 n
      _ ≤ m' * 2 ^ n := Nat.mul_le_mul_right _ hm'
      _ < 2 ^ (53 + k) := Nat.lt_of_le_of_lt hle hm
  have hlt := (Nat.pow_lt_pow_iff_right (by decide)).mp hpow
  omega

/-- A mantissa and an exponent are rounded to a canonical double, which is not below any canonical
double that they have reached. -/
def IsRounded (s : Sign) (m : Nat) (e : Int) : Prop :=
  ∃ r t, ∃ hr : 0 < r, UnpackedFloat.round .binary64 s m e = .finite s r t hr ∧
    IsCanonical r t ∧ ∀ m' e', IsCanonical m' e' → e ≤ e' → m' * 2 ^ (e' - e).toNat ≤ m →
      e' < t ∨ e' = t ∧ m' ≤ r

/-- Where the mantissa has too many bits, some are lost. -/
private theorem isRounded_of_many (hleast : -1074 ≤ e) (s : Sign) (hmany : 52 < m.log2) :
    IsRounded s m e := by
  obtain ⟨k, hk⟩ := Nat.exists_eq_add_of_lt hmany
  have hlog : m.log2 = 52 + (k + 1) := by omega
  obtain ⟨r, t, hr, hround, hlow, hhigh, ht⟩ :=
    round_of_lt_log2 hlog (Nat.succ_pos k) hleast s
  refine ⟨r, t, hr, ?_, ⟨hhigh, by omega, Or.inl hlow⟩, fun m' e' hcanonical he hle => ?_⟩
  · rw [round_eq s m e (c := 0) (by omega), Nat.shiftLeft_zero, Int.natCast_zero, Int.sub_zero]
    exact hround
  · have hlt : m < 2 ^ (53 + (k + 1)) := by
      have hlt' := Nat.lt_log2_self (n := m)
      rwa [hlog, show 52 + (k + 1) + 1 = 53 + (k + 1) by omega] at hlt'
    rcases hcanonical.full with hfull | hfull
    · have hexponent := exponent_le hfull hle hlt
      rcases ht with ⟨ht, hfloor⟩ | ht
      · by_cases heq : e' = t
        · have hshift : (e' - e).toNat = k + 1 := by omega
          rw [hshift, ← Nat.le_div_iff_mul_le (Nat.two_pow_pos _)] at hle
          exact Or.inr ⟨heq, hle.trans hfloor⟩
        · exact Or.inl (by omega)
      · exact Or.inl (by omega)
    · exact Or.inl (by omega)

/-- Where the mantissa does not have too many bits, none is lost. -/
private theorem isRounded_of_few (hm : 0 < m) (hleast : -1074 ≤ e) (s : Sign)
    (hfew : m.log2 ≤ 52) : IsRounded s m e := by
  obtain ⟨c, hc⟩ : ∃ c, (e - max ((m.log2 : Int) + e - 52) (-1074)).toNat = c := ⟨_, rfl⟩
  obtain ⟨hlow, hhigh⟩ := (Nat.log2_eq_iff hm.ne').mp rfl
  have hshift : m <<< c = m * 2 ^ c := Nat.shiftLeft_eq m c
  have hpos : 0 < m <<< c := hshift ▸ Nat.mul_pos hm (Nat.two_pow_pos c)
  have hlog : (m <<< c).log2 = m.log2 + c := by
    rw [Nat.log2_eq_iff hpos.ne', hshift, Nat.pow_add, Nat.add_right_comm, Nat.pow_add]
    exact ⟨Nat.mul_le_mul_right _ hlow, Nat.mul_lt_mul_of_pos_right hhigh (Nat.two_pow_pos c)⟩
  have hlt : m <<< c < 2 ^ 53 := (Nat.log2_lt hpos.ne').mp (by omega)
  refine ⟨m <<< c, e - c, hpos, ?_, ⟨hlt, by omega, ?_⟩, fun m' e' hcanonical he hle => ?_⟩
  · rw [round_eq s m e hc]
    exact round_of_log2_le (by omega) (by omega) s hpos
  · by_cases hleast' : e - c = -1074
    · exact Or.inr hleast'
    · exact Or.inl ((Nat.le_log2 hpos.ne').mp (by omega))
  · have hm' : m < 2 ^ (53 + 0) := (Nat.log2_lt hm.ne').mp (by omega)
    have heq : e' = e ∧ c = 0 := by
      rcases hcanonical.full with hfull | hfull
      · have hexponent := exponent_le hfull hle hm'
        have hsame : (e' - e).toNat = 0 := by omega
        rw [hsame, Nat.pow_zero, Nat.mul_one] at hle
        have hfull' : 52 ≤ m.log2 := (Nat.le_log2 hm.ne').mpr (hfull.trans hle)
        omega
      · omega
    obtain ⟨rfl, rfl⟩ := heq
    simp only [Int.sub_self, Int.toNat_zero, Nat.pow_zero, Nat.mul_one] at hle
    exact Or.inr ⟨(Int.sub_zero e').symm, hle⟩

/-- Rounding does not go below a double that has been reached. -/
theorem isRounded (hm : 0 < m) (hleast : -1074 ≤ e) (s : Sign) : IsRounded s m e := by
  rcases Nat.lt_or_ge 52 m.log2 with hmany | hfew
  · exact isRounded_of_many hleast s hmany
  · exact isRounded_of_few hm hleast s hfew

end Rounding

section Sums

/-- A double that is not negative as it is unpacked. -/
private inductive IsNonneg : UnpackedFloat → Prop where
  | infinity : IsNonneg (.infinity .positive)
  | zero (s : Sign) : IsNonneg (.zero s)
  | finite {m : Nat} {e : Int} (hcanonical : IsCanonical m e) (he : e ≤ 971) (hm : 0 < m) :
    IsNonneg (.finite .positive m e hm)

private theorem toLex_lt_of_lt {i j : Int} (h : i < j) (a b : Int ×ₗ Int) :
    (toLex (i, a) : Int ×ₗ Int ×ₗ Int) < toLex (j, b) :=
  Prod.Lex.toLex_lt_toLex.mpr (Or.inl h)

private theorem isNonneg_of_le {x : Float} (hx : 0.0 ≤ x) : IsNonneg x.toModel.unpack := by
  obtain ⟨⟨_, hnumber⟩, hrank⟩ := le_iff_rank_le.mp hx
  change x.toModel.unpack.isNaN = false at hnumber
  change toLex (0, toLex (0, 0)) ≤ rankOf x.toModel.unpack at hrank
  cases hunpack : x.toModel.unpack with
  | notANumber =>
    rw [hunpack] at hnumber
    cases hnumber
  | infinity s =>
    cases s with
    | positive => exact .infinity
    | negative =>
      rw [hunpack] at hrank
      exact absurd hrank (by decide)
  | zero s => exact .zero s
  | finite s m e hm =>
    cases s with
    | positive =>
      obtain ⟨hcanonical, he⟩ := isCanonical_of_unpack hunpack
      exact .finite hcanonical he hm
    | negative =>
      rw [hunpack] at hrank
      exact absurd hrank (not_le.mpr (toLex_lt_of_lt (show (-1 : Int) < 0 by decide) _ _))

/-- A sum of doubles, unpacked, that is at least a double. -/
private def Reaches (u w : UnpackedFloat) : Prop :=
  (Float.Model.pack w).unpack.isNaN = false ∧ rankOf u ≤ rankOf (Float.Model.pack w).unpack

private theorem reaches_infinity {u : UnpackedFloat} (hu : IsNonneg u) :
    Reaches u (.infinity .positive) := by
  refine ⟨rfl, ?_⟩
  change rankOf u ≤ toLex (2, toLex (0, 0))
  cases hu with
  | infinity => exact le_rfl
  | zero => exact (toLex_lt_of_lt (show (0 : Int) < 2 by decide) _ _).le
  | finite => exact (toLex_lt_of_lt (show (1 : Int) < 2 by decide) _ _).le

private theorem reaches_finite {r : Nat} {t : Int} (hcanonical : IsCanonical r t) (hr : 0 < r)
    {u : UnpackedFloat} (hu : rankOf u ≤ toLex (1, toLex (t, (r : Int)))) :
    Reaches u (.finite .positive r t hr) := by
  rcases lt_or_ge 971 t with hlt | hle
  · rw [Reaches, unpack_pack_of_lt hlt]
    exact ⟨rfl, hu.trans (toLex_lt_of_lt (show (1 : Int) < 2 by decide) _ _).le⟩
  · rw [Reaches, unpack_pack hcanonical hle]
    exact ⟨rfl, hu⟩

private theorem add_finite (hm : 0 < m) (hm' : 0 < m') :
    UnpackedFloat.add .binary64 (.finite .positive m e hm) (.finite .positive m' e' hm') =
      UnpackedFloat.round .binary64 .positive
        (m <<< (e - min e e').toNat + m' <<< (e' - min e e').toNat) (min e e') := by
  have hpos : 0 < m <<< (e - min e e').toNat := by
    rw [Nat.shiftLeft_eq]
    exact Nat.mul_pos hm (Nat.two_pow_pos _)
  have hgreater : compare ((m <<< (e - min e e').toNat : Nat) +
      (m' <<< (e' - min e e').toNat : Nat) : Int) 0 = .gt :=
    compare_gt_iff_gt.mpr
      (Int.add_pos_of_pos_of_nonneg (Int.natCast_pos.mpr hpos) (Int.natCast_nonneg _))
  simp only [UnpackedFloat.add, decreaseExponent, Sign.apply, UnpackedFloat.normalize, hgreater]
  rfl

private theorem reaches_add_finite (hcanonical : IsCanonical m e) (hm : 0 < m)
    (hcanonical' : IsCanonical m' e') (hm' : 0 < m') : Reaches (.finite .positive m e hm)
      (UnpackedFloat.add .binary64 (.finite .positive m e hm) (.finite .positive m' e' hm')) := by
  have hreached : m * 2 ^ (e - min e e').toNat ≤
      m <<< (e - min e e').toNat + m' <<< (e' - min e e').toNat := by
    rw [Nat.shiftLeft_eq]
    exact Nat.le_add_right _ _
  have hpos := Nat.lt_of_lt_of_le (Nat.mul_pos hm (Nat.two_pow_pos _)) hreached
  have hleast : -1074 ≤ min e e' := le_min hcanonical.least_le hcanonical'.least_le
  obtain ⟨r, t, hr, hround, hrounded, hbelow⟩ := isRounded hpos hleast .positive
  rw [add_finite hm hm', hround]
  refine reaches_finite hrounded hr ?_
  rcases hbelow m e hcanonical (min_le_left e e') hreached with hlt | ⟨rfl, hle⟩
  · exact Prod.Lex.toLex_le_toLex.mpr
      (Or.inr ⟨rfl, Prod.Lex.toLex_le_toLex.mpr (Or.inl hlt)⟩)
  · exact Prod.Lex.toLex_le_toLex.mpr
      (Or.inr ⟨rfl, Prod.Lex.toLex_le_toLex.mpr (Or.inr ⟨rfl, Int.ofNat_le.mpr hle⟩)⟩)

private theorem reaches_add {u v : UnpackedFloat} (hu : IsNonneg u) (hv : IsNonneg v) :
    Reaches u (UnpackedFloat.add .binary64 u v) := by
  have hone (a b : Int ×ₗ Int) : (toLex (0, a) : Int ×ₗ Int ×ₗ Int) ≤ toLex (1, b) :=
    (toLex_lt_of_lt (by decide) a b).le
  cases hv with
  | infinity =>
    have hsum : UnpackedFloat.add .binary64 u (.infinity .positive) = .infinity .positive := by
      cases hu <;> rfl
    rw [hsum]
    exact reaches_infinity hu
  | zero t =>
    cases hu with
    | infinity => exact reaches_infinity .infinity
    | zero s => cases s <;> cases t <;> exact ⟨rfl, le_rfl⟩
    | finite hcanonical he hm => exact reaches_finite hcanonical hm le_rfl
  | finite hcanonical he hm =>
    cases hu with
    | infinity => exact reaches_infinity .infinity
    | zero s => exact reaches_finite hcanonical hm (hone _ _)
    | finite hcanonical' he' hm' => exact reaches_add_finite hcanonical' hm' hcanonical hm

/-- What is added to a time without being negative gives no earlier time. -/
theorem le_add {x d : Float} (hx : 0.0 ≤ x) (hd : 0.0 ≤ d) : x ≤ x + d := by
  obtain ⟨hnumber, hrank⟩ := reaches_add (isNonneg_of_le hx) (isNonneg_of_le hd)
  exact le_iff_rank_le.mpr ⟨⟨(le_iff_rank_le.mp hx).1.2, hnumber⟩, hrank⟩

/-- What is neither positive nor negative leaves the time zero as it is. -/
theorem zero_add_of_zero {d : Float} (hd : 0.0 ≤ d) (hd' : d ≤ 0.0) : 0.0 + d = 0.0 := by
  have hrank : rankOf d.toModel.unpack ≤ toLex (0, toLex (0, 0)) := (le_iff_rank_le.mp hd').2
  have hsum : 0.0 + d = ⟨Float.Model.pack
      (UnpackedFloat.add .binary64 (0.0 : Float).toModel.unpack d.toModel.unpack)⟩ := rfl
  have hnonneg := isNonneg_of_le hd
  generalize d.toModel.unpack = u at hrank hsum hnonneg
  rw [hsum]
  cases hnonneg with
  | infinity => exact absurd hrank (by decide)
  | zero s => cases s <;> rfl
  | finite =>
    exact absurd hrank (not_le.mpr (toLex_lt_of_lt (show (0 : Int) < 1 by decide) _ _))

end Sums

end Peering.Double
