import Mathlib.Tactic.Linarith
import Mathlib.Tactic.Ring

/-! # Integer division

Monotonicity of truncating and rounding-up division in each argument, and the
characterisation of the rounded-up quotient that tile counts rest on.
-/

namespace CuTile

/-- The quotient rounded towards positive infinity. -/
def ceilQuotient (dividend divisor : Int) : Int := -((-dividend).fdiv divisor)

namespace Division

/-! ## Floor division by a positive divisor -/

variable {dividend small large : Int}

theorem ediv_le_ediv_right_of_nonneg (nonneg : 0 ≤ dividend) (positive : 0 < small)
    (le : small ≤ large) : dividend / large ≤ dividend / small := by
  apply Int.le_ediv_of_mul_le positive
  have quotient : 0 ≤ dividend / large := Int.ediv_nonneg nonneg (by omega)
  calc dividend / large * small
      ≤ dividend / large * large := Int.mul_le_mul_of_nonneg_left le quotient
    _ ≤ dividend := Int.ediv_mul_le dividend (by omega)

theorem ediv_le_ediv_right_of_nonpos (nonpos : dividend ≤ 0) (positive : 0 < small)
    (le : small ≤ large) : dividend / small ≤ dividend / large := by
  apply Int.le_ediv_of_mul_le (by omega)
  have quotient : dividend / small ≤ 0 := Int.ediv_nonpos_of_nonpos_of_neg nonpos (by omega)
  calc dividend / small * large
      ≤ dividend / small * small := Int.mul_le_mul_of_nonpos_left quotient le
    _ ≤ dividend := Int.ediv_mul_le dividend (by omega)

/-! ## Truncating division -/

variable {divisor : Int}

theorem tdiv_le_tdiv_of_neg {left right : Int} (negative : divisor < 0) (le : left ≤ right) :
    right.tdiv divisor ≤ left.tdiv divisor := by
  have flipped : (-right).tdiv (-divisor) ≤ (-left).tdiv (-divisor) :=
    Int.tdiv_le_tdiv (by omega) (Int.neg_le_neg le)
  simpa using flipped

/-- A divisor range that avoids zero lies on one side of it. -/
theorem tdiv_le_tdiv_right_of_nonneg (nonneg : 0 ≤ dividend) (avoids : 0 < small ∨ large < 0)
    (le : small ≤ large) : dividend.tdiv large ≤ dividend.tdiv small := by
  rcases avoids with positive | negative
  · rw [Int.tdiv_eq_ediv_of_nonneg nonneg, Int.tdiv_eq_ediv_of_nonneg nonneg]
    exact ediv_le_ediv_right_of_nonneg nonneg positive le
  · have mirrored : dividend / -small ≤ dividend / -large :=
      ediv_le_ediv_right_of_nonneg nonneg (by omega) (by omega)
    rw [← Int.tdiv_eq_ediv_of_nonneg nonneg, ← Int.tdiv_eq_ediv_of_nonneg nonneg,
      Int.tdiv_neg, Int.tdiv_neg] at mirrored
    exact Int.le_of_neg_le_neg mirrored

theorem tdiv_le_tdiv_right_of_nonpos (nonpos : dividend ≤ 0) (avoids : 0 < small ∨ large < 0)
    (le : small ≤ large) : dividend.tdiv small ≤ dividend.tdiv large := by
  have mirrored : (-dividend).tdiv large ≤ (-dividend).tdiv small :=
    tdiv_le_tdiv_right_of_nonneg (by omega) avoids le
  rw [Int.neg_tdiv, Int.neg_tdiv] at mirrored
  exact Int.le_of_neg_le_neg mirrored

/-! ## Division rounded up -/

theorem ceilQuotient_of_pos (positive : 0 < divisor) :
    ceilQuotient dividend divisor = -(-dividend / divisor) := by
  rw [ceilQuotient, Int.fdiv_eq_ediv_of_nonneg _ positive.le]

@[simp] theorem ceilQuotient_neg_neg (dividend divisor : Int) :
    ceilQuotient (-dividend) (-divisor) = ceilQuotient dividend divisor := by
  rw [ceilQuotient, Int.neg_fdiv_neg, ceilQuotient]

/-- The rounded-up quotient counts the multiples of the divisor below the
dividend. -/
theorem lt_ceilQuotient_iff {index : Int} (positive : 0 < divisor) :
    index < ceilQuotient dividend divisor ↔ index * divisor < dividend := by
  rw [ceilQuotient_of_pos positive, lt_neg, Int.ediv_lt_iff_lt_mul positive,
    Int.neg_mul, Int.neg_lt_neg_iff]

theorem ceilQuotient_le_iff {bound : Int} (positive : 0 < divisor) :
    ceilQuotient dividend divisor ≤ bound ↔ dividend ≤ bound * divisor := by
  rw [← not_lt, lt_ceilQuotient_iff positive, not_lt]

/-- Between two multiples the rounded-up quotient is the number of the upper one. -/
theorem ceilQuotient_eq_iff {count : Int} (positive : 0 < divisor) :
    ceilQuotient dividend divisor = count ↔
      (count - 1) * divisor < dividend ∧ dividend ≤ count * divisor := by
  rw [← lt_ceilQuotient_iff positive, ← ceilQuotient_le_iff positive]
  omega

theorem ceilQuotient_mono {left right : Int} (positive : 0 < divisor) (le : left ≤ right) :
    ceilQuotient left divisor ≤ ceilQuotient right divisor := by
  rw [ceilQuotient_of_pos positive, ceilQuotient_of_pos positive]
  exact Int.neg_le_neg (Int.ediv_le_ediv positive (Int.neg_le_neg le))

theorem ceilQuotient_anti_of_neg {left right : Int} (negative : divisor < 0) (le : left ≤ right) :
    ceilQuotient right divisor ≤ ceilQuotient left divisor := by
  rw [← ceilQuotient_neg_neg right, ← ceilQuotient_neg_neg left]
  exact ceilQuotient_mono (by omega) (Int.neg_le_neg le)

theorem ceilQuotient_right_of_nonneg (nonneg : 0 ≤ dividend) (avoids : 0 < small ∨ large < 0)
    (le : small ≤ large) : ceilQuotient dividend large ≤ ceilQuotient dividend small := by
  rcases avoids with positive | negative
  · rw [ceilQuotient_of_pos (by omega), ceilQuotient_of_pos positive]
    exact Int.neg_le_neg (ediv_le_ediv_right_of_nonpos (by omega) positive le)
  · rw [← ceilQuotient_neg_neg _ large, ← ceilQuotient_neg_neg _ small,
      ceilQuotient_of_pos (by omega), ceilQuotient_of_pos (by omega), neg_neg]
    exact Int.neg_le_neg (ediv_le_ediv_right_of_nonneg nonneg (by omega) (by omega))

theorem ceilQuotient_right_of_nonpos (nonpos : dividend ≤ 0) (avoids : 0 < small ∨ large < 0)
    (le : small ≤ large) : ceilQuotient dividend small ≤ ceilQuotient dividend large := by
  rcases avoids with positive | negative
  · rw [ceilQuotient_of_pos positive, ceilQuotient_of_pos (by omega)]
    exact Int.neg_le_neg (ediv_le_ediv_right_of_nonneg (by omega) positive le)
  · rw [← ceilQuotient_neg_neg _ large, ← ceilQuotient_neg_neg _ small,
      ceilQuotient_of_pos (by omega), ceilQuotient_of_pos (by omega), neg_neg]
    exact Int.neg_le_neg (ediv_le_ediv_right_of_nonpos nonpos (by omega) (by omega))

/-- Rounding up in truncating arithmetic: add one when the quotient is positive
and inexact. -/
theorem ceilQuotient_eq_tdiv (nonzero : divisor ≠ 0) :
    ceilQuotient dividend divisor = dividend.tdiv divisor +
      if dividend.tmod divisor ≠ 0 ∧ (0 < dividend ↔ 0 < divisor) then 1 else 0 := by
  rw [ceilQuotient, Int.neg_fdiv, Int.tdiv_eq_fdiv]
  by_cases divides : divisor ∣ dividend
  · simp [divides, Int.tmod_eq_zero_of_dvd divides]
  · have dividendNonzero : dividend ≠ 0 := fun zero => divides (zero ▸ Int.dvd_zero _)
    have inexact : dividend.tmod divisor ≠ 0 := fun zero =>
      divides (Int.dvd_of_tmod_eq_zero zero)
    simp only [divides, nonzero, inexact, or_self, if_false, ne_eq, not_false_eq_true,
      true_and]
    rcases lt_or_gt_of_ne nonzero with negative | positive
    · rw [Int.sign_eq_neg_one_of_neg negative]
      split_ifs <;> omega
    · rw [Int.sign_eq_one_of_pos positive]
      split_ifs <;> omega

theorem ceilQuotient_of_dvd (nonzero : divisor ≠ 0) (divides : divisor ∣ dividend) :
    ceilQuotient dividend divisor = dividend.tdiv divisor := by
  rw [ceilQuotient_eq_tdiv nonzero, Int.tmod_eq_zero_of_dvd divides]
  simp

variable {extent tile : Int}

section

variable (nonneg : 0 ≤ extent) (positive : 0 < tile)

include nonneg positive

/-- The host's spelling of a tile count, for extents that are not negative. -/
theorem add_sub_one_tdiv : (extent + tile - 1).tdiv tile = ceilQuotient extent tile := by
  rw [Int.tdiv_eq_ediv_of_nonneg (by omega)]
  apply le_antisymm
  · apply Int.le_of_lt_add_one
    rw [Int.ediv_lt_iff_lt_mul positive]
    have covered : extent ≤ ceilQuotient extent tile * tile :=
      (ceilQuotient_le_iff positive).mp le_rfl
    linarith [Int.add_mul (ceilQuotient extent tile) 1 tile]
  · rw [ceilQuotient_le_iff positive]
    have close := Int.lt_ediv_add_one_mul_self (extent + tile - 1) positive
    linarith [Int.add_mul ((extent + tile - 1) / tile) 1 tile]

theorem tdiv_add_min_tmod :
    extent.tdiv tile + min (extent.tmod tile) 1 = ceilQuotient extent tile := by
  rw [Int.tdiv_eq_ediv_of_nonneg nonneg, Int.tmod_eq_emod_of_nonneg nonneg]
  have split := Int.mul_ediv_add_emod extent tile
  have remainder := Int.emod_nonneg extent positive.ne'
  have small := Int.emod_lt_of_pos extent positive
  apply le_antisymm
  · rw [← Int.sub_one_lt_iff, lt_ceilQuotient_iff positive]
    rcases eq_or_lt_of_le remainder with exact | carry
    · rw [← exact, min_eq_left zero_le_one]
      nlinarith
    · rw [min_eq_right carry]
      nlinarith
  · rw [ceilQuotient_le_iff positive]
    rcases eq_or_lt_of_le remainder with exact | carry
    · rw [← exact, min_eq_left zero_le_one]
      nlinarith
    · rw [min_eq_right carry]
      nlinarith

theorem ceilQuotient_nonneg : 0 ≤ ceilQuotient extent tile := by
  rw [← tdiv_add_min_tmod nonneg positive]
  have quotient := Int.tdiv_nonneg nonneg positive.le
  have remainder := Int.tmod_nonneg tile nonneg
  omega

theorem ceilQuotient_le_self : ceilQuotient extent tile ≤ extent := by
  rw [ceilQuotient_le_iff positive]
  nlinarith

end

/-- Below the host's tile count means below the extent, whatever the sign of the
extent. -/
theorem mul_lt_of_lt_add_sub_one_tdiv {index : Int} (positive : 0 < tile) (nonneg : 0 ≤ index)
    (below : index < (extent + tile - 1).tdiv tile) : index * tile < extent := by
  have numerator : 0 ≤ extent + tile - 1 := by
    by_contra negative
    have opposite : 0 ≤ (-(extent + tile - 1)).tdiv tile :=
      Int.tdiv_nonneg (by omega) positive.le
    rw [Int.neg_tdiv] at opposite
    omega
  rw [Int.tdiv_eq_ediv_of_nonneg numerator] at below
  have covered : (index + 1) * tile ≤ extent + tile - 1 :=
    (Int.le_ediv_iff_mul_le positive).mp below
  linarith [Int.add_mul index 1 tile]

end Division

end CuTile
