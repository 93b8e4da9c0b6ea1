import Mathlib.Data.Fintype.Pigeonhole
import Mathlib.Data.Prod.Lex
import Mathlib.Order.Compare

/-!
# The order of doubles

Clock readings are doubles. What is not a number stands in no order to anything; all other doubles
are compared by a rank, in which the kind of the number counts first, then its exponent and then its
mantissa. So they are in a linear order, in which only the two zeros have the same place.
-/

namespace Peering.Double

open Float.Model

/-- The rank of a double among those that are numbers. -/
def rankOf : UnpackedFloat → Int ×ₗ Int ×ₗ Int
  | .infinity .positive => toLex (2, toLex (0, 0))
  | .finite .positive m e _ => toLex (1, toLex (e, m))
  | .zero _ | .notANumber => toLex (0, toLex (0, 0))
  | .finite .negative m e _ => toLex (-1, toLex (-e, -m))
  | .infinity .negative => toLex (-2, toLex (0, 0))

section Ranks

private theorem compare_rank (kind e e' m m' : Int) :
    compare (toLex (kind, toLex (e, m))) (toLex (kind, toLex (e', m'))) =
      (compare e e').then (compare m m') := by
  simp [Prod.Lex.compare_def, compareLex, compareOn]

private theorem compare_neg_neg (m n : Int) : compare (-m) (-n) = (compare m n).swap := by
  rcases lt_trichotomy m n with hlt | rfl | hlt
  · rw [compare_lt_iff_lt.mpr hlt, compare_gt_iff_gt.mpr (Int.neg_lt_neg hlt)]
    rfl
  · simp
  · rw [compare_gt_iff_gt.mpr hlt, compare_lt_iff_lt.mpr (Int.neg_lt_neg hlt)]
    rfl

private theorem compare_natCast (m n : Nat) : compare (m : Int) (n : Int) = compare m n := by
  rcases lt_trichotomy m n with hlt | rfl | hlt
  · rw [compare_lt_iff_lt.mpr hlt, compare_lt_iff_lt.mpr (Int.ofNat_lt.mpr hlt)]
  · simp
  · rw [compare_gt_iff_gt.mpr hlt, compare_gt_iff_gt.mpr (Int.ofNat_lt.mpr hlt)]

/-- Numbers are compared by their ranks. -/
private theorem compare_eq {x y : UnpackedFloat} (hx : x.isNaN = false) (hy : y.isNaN = false) :
    x.compare y = some (compare (rankOf x) (rankOf y)) := by
  cases x with
  | notANumber => cases hx
  | infinity s =>
    cases y with
    | notANumber => cases hy
    | infinity t => cases s <;> cases t <;> decide
    | zero t => cases s <;> rfl
    | finite t => cases s <;> cases t <;> rfl
  | zero s =>
    cases y with
    | notANumber => cases hy
    | infinity t => cases t <;> rfl
    | zero t => rfl
    | finite t => cases t <;> rfl
  | finite s m e =>
    cases y with
    | notANumber => cases hy
    | infinity t => cases s <;> cases t <;> rfl
    | zero t => cases s <;> rfl
    | finite t m' e' =>
      cases s <;> cases t
      case positive.positive =>
        change some ((compare e e').then (compare m m')) =
          some (compare (toLex (1, toLex (e, (m : Int)))) (toLex (1, toLex (e', (m' : Int)))))
        rw [compare_rank, compare_natCast]
      case negative.negative =>
        change some ((compare e e').then (compare m m')).swap =
          some (compare (toLex (-1, toLex (-e, -(m : Int)))) (toLex (-1, toLex (-e', -(m' : Int)))))
        rw [compare_rank, compare_neg_neg, compare_neg_neg, compare_natCast, Ordering.swap_then]
      all_goals rfl

/-- What is not a number is not compared. -/
private theorem compare_eq_none {x y : UnpackedFloat} (h : ¬(x.isNaN = false ∧ y.isNaN = false)) :
    x.compare y = none := by
  cases x <;> cases y <;> first | rfl | exact absurd ⟨rfl, rfl⟩ h

end Ranks

/-- The rank of a double. -/
def rank (x : Float) : Int ×ₗ Int ×ₗ Int := rankOf x.toModel.unpack

variable {x y z : Float}

/-- One double is less than another exactly if both are numbers and its rank is less. -/
theorem lt_iff_rank_lt : x < y ↔ (x.isNaN = false ∧ y.isNaN = false) ∧ rank x < rank y := by
  have hunfold : x < y ↔ x.toModel.unpack.lt y.toModel.unpack = true := decide_eq_true_iff
  rw [hunfold, UnpackedFloat.lt]
  by_cases h : x.isNaN = false ∧ y.isNaN = false
  · rw [compare_eq h.1 h.2, and_iff_right h]
    simp [rank, compare_lt_iff_lt]
  · rw [compare_eq_none h]
    exact ⟨fun hlt => Bool.noConfusion hlt, fun hlt => absurd hlt.1 h⟩

/-- One double is at most another exactly if both are numbers and its rank is at most the other. -/
theorem le_iff_rank_le : x ≤ y ↔ (x.isNaN = false ∧ y.isNaN = false) ∧ rank x ≤ rank y := by
  have hunfold : x ≤ y ↔ x.toModel.unpack.le y.toModel.unpack = true := decide_eq_true_iff
  rw [hunfold, UnpackedFloat.le]
  by_cases h : x.isNaN = false ∧ y.isNaN = false
  · rw [compare_eq h.1 h.2, and_iff_right h]
    simp [rank, Ordering.isLE_iff_ne_gt, compare_le_iff_le]
  · rw [compare_eq_none h]
    exact ⟨fun hle => Bool.noConfusion hle, fun hle => absurd hle.1 h⟩

/-- Doubles that are compared are numbers. -/
theorem isNumber_of_lt (h : x < y) : x.isNaN = false ∧ y.isNaN = false := (lt_iff_rank_lt.mp h).1

/-- The order of doubles is transitive. -/
theorem lt_trans (hxy : x < y) (hyz : y < z) : x < z := by
  obtain ⟨⟨hx, _⟩, hlt⟩ := lt_iff_rank_lt.mp hxy
  obtain ⟨⟨_, hz⟩, hlt'⟩ := lt_iff_rank_lt.mp hyz
  exact lt_iff_rank_lt.mpr ⟨⟨hx, hz⟩, hlt.trans hlt'⟩

/-- A double is not at most one that is less. -/
theorem not_le_of_lt (h : y < x) : ¬x ≤ y := by
  intro hle
  exact absurd (le_iff_rank_le.mp hle).2 (not_le.mpr (lt_iff_rank_lt.mp h).2)

/-- Of two numbers the one that is not at most the other is greater. -/
theorem lt_of_not_le (hx : x.isNaN = false) (hy : y.isNaN = false) (h : ¬x ≤ y) : y < x := by
  refine lt_iff_rank_lt.mpr ⟨⟨hy, hx⟩, not_le.mp fun hle => h ?_⟩
  exact le_iff_rank_le.mpr ⟨⟨hx, hy⟩, hle⟩

/-- A number is at most itself. -/
theorem le_refl (hx : x.isNaN = false) : x ≤ x := le_iff_rank_le.mpr ⟨⟨hx, hx⟩, le_rfl⟩

/-- What is less is at most the other. -/
theorem le_of_lt (h : x < y) : x ≤ y :=
  le_iff_rank_le.mpr ⟨isNumber_of_lt h, (lt_iff_rank_lt.mp h).2.le⟩

/-- Being at most another double is transitive. -/
theorem le_trans (hxy : x ≤ y) (hyz : y ≤ z) : x ≤ z := by
  obtain ⟨⟨hx, _⟩, hle⟩ := le_iff_rank_le.mp hxy
  obtain ⟨⟨_, hz⟩, hle'⟩ := le_iff_rank_le.mp hyz
  exact le_iff_rank_le.mpr ⟨⟨hx, hz⟩, hle.trans hle'⟩

/-- What is at most a double that is less than a third is less than the third. -/
theorem lt_of_le_of_lt (hxy : x ≤ y) (hyz : y < z) : x < z := by
  obtain ⟨⟨hx, _⟩, hle⟩ := le_iff_rank_le.mp hxy
  obtain ⟨⟨_, hz⟩, hlt⟩ := lt_iff_rank_lt.mp hyz
  exact lt_iff_rank_lt.mpr ⟨⟨hx, hz⟩, hle.trans_lt hlt⟩

/-- What is less than a double that is at most a third is less than the third. -/
theorem lt_of_lt_of_le (hxy : x < y) (hyz : y ≤ z) : x < z := by
  obtain ⟨⟨hx, _⟩, hlt⟩ := lt_iff_rank_lt.mp hxy
  obtain ⟨⟨_, hz⟩, hle⟩ := le_iff_rank_le.mp hyz
  exact lt_iff_rank_lt.mpr ⟨⟨hx, hz⟩, hlt.trans_le hle⟩

instance isTrans_lt : IsTrans Float (· < ·) := ⟨fun _ _ _ => lt_trans⟩

/-- Two doubles with the same bits are the same. -/
private theorem toFin_injective :
    Function.Injective fun x : Float => x.toModel.toBits.toBitVec.toFin := by
  rintro ⟨⟨⟨⟨x⟩⟩, hx⟩⟩ ⟨⟨⟨⟨y⟩⟩, hy⟩⟩ hxy
  obtain rfl : x = y := hxy
  rfl

/-- Doubles do not increase more often than there are doubles. -/
theorem exists_not_lt_succ (f : Nat → Float) : ∃ j < 2 ^ 64, ¬f j < f (j + 1) := by
  by_contra! hall
  have hincreases {i j : Nat} (hij : i < j) (hj : j ≤ 2 ^ 64) : f i < f j := by
    induction hij with
    | refl => exact hall i hj
    | step _ ih => exact lt_trans (ih (Nat.le_of_succ_le hj)) (hall _ hj)
  have hcard : Fintype.card (Fin (2 ^ 64)) < Fintype.card (Fin (2 ^ 64 + 1)) := by
    rw [Fintype.card_fin, Fintype.card_fin]
    exact Nat.lt_succ_self _
  obtain ⟨i, j, hne, heq⟩ := Fintype.exists_ne_map_eq_of_card_lt
    (fun i : Fin (2 ^ 64 + 1) => (f i).toModel.toBits.toBitVec.toFin) hcard
  have hsame : f i = f j := toFin_injective heq
  have hirrefl {x y : Float} (hlt : x < y) (hxy : x = y) : False :=
    (lt_iff_rank_lt.mp hlt).2.ne (congrArg rank hxy)
  rcases lt_or_gt_of_ne (Fin.val_ne_of_ne hne) with hlt | hgt
  · exact hirrefl (hincreases hlt (Nat.le_of_lt_succ j.isLt)) hsame
  · exact hirrefl (hincreases hgt (Nat.le_of_lt_succ i.isLt)) hsame.symm

end Peering.Double
