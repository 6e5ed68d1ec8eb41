import Mathlib.Data.Int.Bitwise
import Mathlib.Tactic.Linarith

/-! # Ranges of binary operations

Where a binary operation takes its values when each operand is known up to an
interval: at the corners, when it is monotone or antitone along every line; in
the residue range, for remainders; in the two's-complement envelope, for
bitwise operations.
-/

namespace CuTile

namespace IntegerInterval

/-! ## Corner sampling -/

section Corners

variable {α β γ : Type} [LinearOrder α] [LinearOrder β] [LinearOrder γ]

/-- The operation goes one way along the whole interval. -/
def OneWay (operation : α → γ) (first last : α) : Prop :=
  MonotoneOn operation (Set.Icc first last) ∨ AntitoneOn operation (Set.Icc first last)

theorem OneWay.between {operation : α → γ} {first last point : α}
    (oneWay : OneWay operation first last) (inside : point ∈ Set.Icc first last) :
    min (operation first) (operation last) ≤ operation point ∧
      operation point ≤ max (operation first) (operation last) := by
  have ordered : first ≤ last := inside.1.trans inside.2
  have atFirst : first ∈ Set.Icc first last := ⟨le_rfl, ordered⟩
  have atLast : last ∈ Set.Icc first last := ⟨ordered, le_rfl⟩
  rcases oneWay with up | down
  · exact ⟨min_le_of_left_le (up atFirst inside inside.1),
      le_max_of_le_right (up inside atLast inside.2)⟩
  · exact ⟨min_le_of_right_le (down inside atLast inside.2),
      le_max_of_le_left (down atFirst inside inside.1)⟩

/-- An operation that is one-way along every line through a rectangle stays
between its least and greatest corner. -/
theorem corner_hull {operation : α → β → γ} {first last x : α} {low high y : β}
    (alongFirst : ∀ fixed ∈ Set.Icc low high,
      OneWay (fun moving => operation moving fixed) first last)
    (alongSecond : ∀ fixed ∈ Set.Icc first last, OneWay (operation fixed) low high)
    (xInside : x ∈ Set.Icc first last) (yInside : y ∈ Set.Icc low high) :
    min (min (operation first low) (operation first high))
        (min (operation last low) (operation last high)) ≤ operation x y ∧
      operation x y ≤
        max (max (operation first low) (operation first high))
          (max (operation last low) (operation last high)) := by
  have ordered : first ≤ last := xInside.1.trans xInside.2
  have atFirst := (alongSecond first ⟨le_rfl, ordered⟩).between yInside
  have atLast := (alongSecond last ⟨ordered, le_rfl⟩).between yInside
  have across := (alongFirst y yInside).between xInside
  exact ⟨(min_le_min atFirst.1 atLast.1).trans across.1,
    across.2.trans (max_le_max atFirst.2 atLast.2)⟩

end Corners

/-! ## Remainders -/

/-- The truncated remainder follows the dividend's sign, and is smaller in
magnitude than both the dividend and the divisor. -/
theorem tmod_range (dividend : Int) {divisor bound : Int}
    (small : divisor.natAbs ≤ bound) (nonzero : divisor ≠ 0) :
    min dividend 0 ≤ dividend.tmod divisor ∧ dividend.tmod divisor ≤ max dividend 0 ∧
      -(bound - 1) ≤ dividend.tmod divisor ∧ dividend.tmod divisor ≤ bound - 1 := by
  have magnitude : (dividend.tmod divisor).natAbs = dividend.natAbs % divisor.natAbs :=
    Int.natAbs_tmod dividend divisor
  have belowDivisor : dividend.natAbs % divisor.natAbs < divisor.natAbs :=
    Nat.mod_lt _ (Int.natAbs_pos.mpr nonzero)
  have belowDividend : dividend.natAbs % divisor.natAbs ≤ dividend.natAbs :=
    Nat.mod_le _ _
  have sign : 0 ≤ dividend → 0 ≤ dividend.tmod divisor := Int.tmod_nonneg divisor
  have signNegated : 0 ≤ -dividend → 0 ≤ -(dividend.tmod divisor) := by
    rw [← Int.neg_tmod]
    exact Int.tmod_nonneg divisor
  omega

/-! ## Bitwise operations -/

/-- Bits needed to write `value` in binary. -/
def bitLength (value : Nat) : Nat := if value = 0 then 0 else value.log2 + 1

theorem lt_two_pow_bitLength (value : Nat) : value < 2 ^ bitLength value := by
  unfold bitLength
  split_ifs with zero
  · simp [zero]
  · exact Nat.lt_log2_self

/-- The nonnegative number whose binary digits, inverted when `value` is
negative, are those of `value`. -/
def magnitudeBits : Int → Nat
  | Int.ofNat value => value
  | Int.negSucc value => value

theorem magnitudeBits_lt_iff (value : Int) (bits : Nat) :
    magnitudeBits value < 2 ^ bits ↔ -(2 ^ bits : Int) ≤ value ∧ value < 2 ^ bits := by
  have cast : ((2 ^ bits : Nat) : Int) = 2 ^ bits := by push_cast; rfl
  have positive : (0 : Int) < 2 ^ bits := by positivity
  cases value with
  | ofNat value =>
    simp only [magnitudeBits, Int.ofNat_eq_natCast]
    omega
  | negSucc value =>
    simp only [magnitudeBits, Int.negSucc_eq]
    omega

/-- A bitwise operation keeps uniform high bits uniform. -/
theorem magnitudeBits_bitwise_lt {left right : Int} {bits : Nat}
    (leftFits : magnitudeBits left < 2 ^ bits) (rightFits : magnitudeBits right < 2 ^ bits) :
    magnitudeBits (Int.land left right) < 2 ^ bits ∧
      magnitudeBits (Int.lor left right) < 2 ^ bits ∧
      magnitudeBits (Int.xor left right) < 2 ^ bits := by
  cases left <;> cases right <;>
    simp only [magnitudeBits] at leftFits rightFits <;>
    refine ⟨?_, ?_, ?_⟩ <;>
    simp only [Int.land, Int.lor, Int.xor, magnitudeBits, Nat.ldiff] <;>
    first
      | exact Nat.and_lt_two_pow _ ‹_›
      | exact Nat.or_lt_two_pow ‹_› ‹_›
      | exact Nat.xor_lt_two_pow ‹_› ‹_›
      | exact Nat.bitwise_lt_two_pow ‹_› ‹_›

/-- The smallest `2 ^ n - 1` that covers a number. -/
def onesOver (value : Nat) : Nat := 2 ^ bitLength value - 1

theorem le_onesOver_of_bits_lt {value cover : Nat} (fits : value < 2 ^ bitLength cover) :
    value ≤ onesOver cover := by
  unfold onesOver
  omega

/-- `|` and `^` set no bit above the highest bit of either operand's bound. -/
theorem or_xor_le_onesOver {left right leftLast rightLast : Nat}
    (leftBound : left ≤ leftLast) (rightBound : right ≤ rightLast) :
    left ||| right ≤ onesOver (leftLast ||| rightLast) ∧
      left ^^^ right ≤ onesOver (leftLast ||| rightLast) := by
  have leftFits : left < 2 ^ bitLength (leftLast ||| rightLast) :=
    leftBound.trans Nat.left_le_or |>.trans_lt (lt_two_pow_bitLength _)
  have rightFits : right < 2 ^ bitLength (leftLast ||| rightLast) :=
    rightBound.trans Nat.right_le_or |>.trans_lt (lt_two_pow_bitLength _)
  exact ⟨le_onesOver_of_bits_lt (Nat.or_lt_two_pow leftFits rightFits),
    le_onesOver_of_bits_lt (Nat.xor_lt_two_pow leftFits rightFits)⟩

end IntegerInterval

end CuTile
