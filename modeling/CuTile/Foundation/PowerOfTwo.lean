import Mathlib.Algebra.Order.Ring.Int
import Mathlib.Data.Int.Bitwise
import Mathlib.RingTheory.Multiplicity

/-! # Power-of-two divisors

The largest power of two that divides a number, up to a cap, and two ways machines
compute it: masking a number with its negation, and counting trailing zeros.
-/

namespace CuTile.PowerOfTwo

theorem two_pow_dvd_two_pow_iff (first second : Nat) :
    (2 : Int) ^ first ∣ 2 ^ second ↔ first ≤ second := by
  apply pow_dvd_pow_iff two_ne_zero
  rw [Int.isUnit_iff]
  decide

/-- `divisor` is the largest power of two, up to `2 ^ cap`, that divides `value`. -/
structure LargestUpTo (cap : Nat) (value divisor : Int) : Prop where
  isPower : ∃ exponent ≤ cap, divisor = 2 ^ exponent
  dvd_iff : ∀ exponent ≤ cap, (2 : Int) ^ exponent ∣ divisor ↔ 2 ^ exponent ∣ value

namespace LargestUpTo

variable {cap : Nat} {value divisor : Int}

section

variable (largest : LargestUpTo cap value divisor)

include largest

theorem dvd : divisor ∣ value := by
  rcases largest.isPower with ⟨exponent, small, rfl⟩
  exact (largest.dvd_iff exponent small).mp dvd_rfl

theorem one_le : 1 ≤ divisor := by
  rcases largest.isPower with ⟨_, _, rfl⟩
  exact one_le_pow₀ one_le_two

/-- The divisor divides another number exactly when that number has all the
power-of-two divisors of the value. -/
theorem dvd_other_iff (other : Int) :
    divisor ∣ other ↔
      ∀ exponent ≤ cap, (2 : Int) ^ exponent ∣ value → (2 : Int) ^ exponent ∣ other := by
  constructor
  · intro divides exponent small ofValue
    exact ((largest.dvd_iff exponent small).mpr ofValue).trans divides
  · intro all
    rcases largest.isPower with ⟨exponent, small, rfl⟩
    exact all exponent small largest.dvd

end

theorem unique {divisor' : Int} (first : LargestUpTo cap value divisor)
    (second : LargestUpTo cap value divisor') : divisor = divisor' := by
  have below := (first.dvd_other_iff divisor').mpr fun exponent small =>
    (second.dvd_iff exponent small).mpr
  have above := (second.dvd_other_iff divisor).mpr fun exponent small =>
    (first.dvd_iff exponent small).mpr
  rcases first.isPower with ⟨_, _, rfl⟩
  rcases second.isPower with ⟨_, _, rfl⟩
  exact Int.dvd_antisymm (pow_nonneg zero_le_two _) (pow_nonneg zero_le_two _) below above

theorem eq_iff {value' divisor' : Int} (first : LargestUpTo cap value divisor)
    (second : LargestUpTo cap value' divisor') :
    divisor = divisor' ↔
      ∀ exponent ≤ cap, (2 : Int) ^ exponent ∣ value ↔ (2 : Int) ^ exponent ∣ value' := by
  constructor
  · intro equal exponent small
    rw [← first.dvd_iff exponent small, ← second.dvd_iff exponent small, equal]
  · intro same
    apply first.unique
    refine ⟨second.isPower, ?_⟩
    intro exponent small
    rw [second.dvd_iff exponent small, same exponent small]

theorem of_exponent {power : Nat} (small : power ≤ cap)
    (le_iff : ∀ exponent ≤ cap, exponent ≤ power ↔ (2 : Int) ^ exponent ∣ value) :
    LargestUpTo cap value (2 ^ power) := by
  refine ⟨⟨power, small, rfl⟩, ?_⟩
  intro exponent atMost
  rw [two_pow_dvd_two_pow_iff]
  exact le_iff exponent atMost

/-- Capping a power of two that has the divisors of the value. -/
theorem of_min {power : Nat} (dvd_iff : ∀ exponent, (2 : Int) ^ exponent ∣ 2 ^ power ↔
    2 ^ exponent ∣ value) : LargestUpTo cap value (min (2 ^ power) (2 ^ cap)) := by
  have monotone : Monotone fun exponent : Nat => (2 : Int) ^ exponent :=
    pow_right_mono₀ (by decide)
  rw [← monotone.map_min]
  apply of_exponent (min_le_right power cap)
  intro exponent atMost
  rw [← dvd_iff exponent, two_pow_dvd_two_pow_iff, le_min_iff, and_iff_left atMost]

theorem of_dvd (divides : (2 : Int) ^ cap ∣ value) : LargestUpTo cap value (2 ^ cap) := by
  apply of_exponent le_rfl
  intro _ atMost
  exact iff_of_true atMost ((pow_dvd_pow 2 atMost).trans divides)

end LargestUpTo

/-! ## The lowest set bit -/

/-- In two's complement, a number and its negation share just the lowest bit. -/
def lowestBit (value : Int) : Int := Int.land value (-value)

theorem land_lnot (value : Int) : Int.land value (Int.lnot value) = 0 := by
  have none (bits : Nat) : Nat.ldiff bits bits = 0 := by
    apply Nat.eq_of_testBit_eq
    intro _
    rw [Nat.testBit_ldiff, Bool.and_not_self, Nat.zero_testBit]
  cases value with
  | ofNat bits => exact congrArg Int.ofNat (none bits)
  | negSucc bits => exact congrArg Int.ofNat (none bits)

theorem lowestBit_double (value : Int) : lowestBit (2 * value) = 2 * lowestBit value := by
  have shape (other : Int) : 2 * other = Int.bit false other := by
    rw [Int.bit_val, Bool.cond_false, add_zero]
  rw [lowestBit, ← mul_neg, shape value, shape (-value), Int.land_bit, Bool.and_self,
    ← shape, lowestBit]

theorem lowestBit_odd (half : Int) : lowestBit (2 * half + 1) = 1 := by
  have shape (other : Int) : 2 * other + 1 = Int.bit true other := by
    rw [Int.bit_val, Bool.cond_true]
  have negated : -(2 * half + 1) = 2 * Int.lnot half + 1 := by
    cases half with
    | ofNat bits => exact (by omega : -(2 * (bits : Int) + 1) = 2 * Int.negSucc bits + 1)
    | negSucc bits => exact (by omega : -(2 * Int.negSucc bits + 1) = 2 * (bits : Int) + 1)
  rw [lowestBit, negated, shape half, shape (Int.lnot half), Int.land_bit, Bool.and_self,
    land_lnot, Int.bit_val, Bool.cond_true, mul_zero, zero_add]

/-- The lowest bit has the power-of-two divisors of the number. -/
theorem two_pow_dvd_lowestBit_iff (exponent : Nat) (value : Int) :
    (2 : Int) ^ exponent ∣ lowestBit value ↔ 2 ^ exponent ∣ value := by
  induction exponent generalizing value with
  | zero => simp
  | succ exponent induction =>
    rcases Int.even_or_odd' value with ⟨half, rfl | rfl⟩
    · rw [lowestBit_double, pow_succ', mul_dvd_mul_iff_left two_ne_zero,
        mul_dvd_mul_iff_left two_ne_zero]
      exact induction half
    · have odd (number : Int) : ¬(2 : Int) ^ (exponent + 1) ∣ 2 * number + 1 := by
        intro divides
        have two := (dvd_pow_self (2 : Int) exponent.succ_ne_zero).trans divides
        omega
      rw [lowestBit_odd]
      exact iff_of_false (odd 0) (odd half)

theorem lowestBit_two_pow_mul (exponent : Nat) (value : Int) :
    lowestBit (2 ^ exponent * value) = 2 ^ exponent * lowestBit value := by
  induction exponent with
  | zero => rw [pow_zero, one_mul, one_mul]
  | succ _ induction =>
    rw [pow_succ', mul_assoc, lowestBit_double, induction, mul_assoc]

theorem exists_lowestBit_eq {value : Int} (nonzero : value ≠ 0) :
    ∃ exponent, lowestBit value = 2 ^ exponent := by
  have finite : FiniteMultiplicity 2 value :=
    Int.finiteMultiplicity_iff.mpr ⟨by decide, nonzero⟩
  rcases finite.exists_eq_pow_mul_and_not_dvd with ⟨odd, isProduct, notEven⟩
  refine ⟨multiplicity 2 value, ?_⟩
  rcases Int.even_or_odd' odd with ⟨half, rfl | rfl⟩
  · exact absurd (dvd_mul_right 2 half) notEven
  · rw [isProduct, lowestBit_two_pow_mul, lowestBit_odd, mul_one, ← isProduct]

/-! ## Trailing zeros -/

/-- The trailing zero bits of a word; all of them when the word is zero. -/
def trailingZeros : Nat → Nat → Nat
  | 0, _ => 0
  | width + 1, value => if value % 2 = 0 then trailingZeros width (value / 2) + 1 else 0

theorem le_trailingZeros_iff {width exponent : Nat} (value : Nat) (small : exponent ≤ width) :
    exponent ≤ trailingZeros width value ↔ 2 ^ exponent ∣ value := by
  induction width generalizing exponent value with
  | zero =>
    rw [Nat.le_zero.mp small]
    simp
  | succ width induction =>
    cases exponent with
    | zero => simp
    | succ exponent =>
      unfold trailingZeros
      split_ifs with even
      · rcases Nat.dvd_of_mod_eq_zero even with ⟨half, rfl⟩
        rw [Nat.mul_div_cancel_left half (by decide), pow_succ',
          Nat.mul_dvd_mul_iff_left (by decide), Nat.add_le_add_iff_right]
        exact induction half (by omega)
      · have notEven : ¬2 ^ (exponent + 1) ∣ value := by
          intro divides
          exact even (Nat.mod_eq_zero_of_dvd
            ((dvd_pow_self 2 exponent.succ_ne_zero).trans divides))
        exact iff_of_false (by omega) notEven

end CuTile.PowerOfTwo
