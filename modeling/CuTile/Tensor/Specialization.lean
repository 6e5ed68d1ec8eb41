import CuTile.Foundation.MachineInteger
import CuTile.Foundation.PowerOfTwo

/-! # Specialization bits

What the host records about a tensor when it is built, for the compiler to rely on:
power-of-two divisors of its extents, strides and pointer, which strides are one, and
whether its elements are disjoint.
-/

namespace CuTile

open PowerOfTwo

/-- A power-of-two divisor of a value, clamped to `max`. -/
structure DivHint where
  divisor : Int
  max : Int
deriving DecidableEq, Repr

instance : Inhabited DivHint := ⟨⟨1, 16⟩⟩

/-- The largest power of two that divides an `i32`. Zero counts as sixteen, and the
least `i32` has no positive lowest bit. -/
def maxPow2DivisorUnclamped (value : Int) : Int :=
  if value = 0 then 16
  else if value = IntegerFormat.i32.minValue then (1 : Int) <<< 30
  else lowestBit value

namespace DivHint

def fromValue (value : Int) : DivHint := ⟨min (maxPow2DivisorUnclamped value) 16, 16⟩

/-- The pointer is a `u64` address. -/
def fromPtr (ptr : Nat) : DivHint := ⟨(1 : Int) <<< min (trailingZeros 64 ptr) 4, 16⟩

def withMax (hint : DivHint) (max : Int) : DivHint := ⟨min hint.divisor max, max⟩

theorem fromValue_largest (value : Int) : LargestUpTo 4 value (fromValue value).divisor := by
  unfold fromValue maxPow2DivisorUnclamped
  split_ifs with zero least
  · rw [zero]
    exact LargestUpTo.of_dvd (dvd_zero _)
  · rw [least]
    exact LargestUpTo.of_dvd (by decide)
  · rcases exists_lowestBit_eq zero with ⟨_, isPower⟩
    have divisors := fun exponent => two_pow_dvd_lowestBit_iff exponent value
    rw [isPower] at divisors ⊢
    exact LargestUpTo.of_min divisors

theorem fromPtr_largest (ptr : Nat) : LargestUpTo 4 ptr (fromPtr ptr).divisor := by
  rw [fromPtr, Int.shiftLeft_eq, one_mul]
  apply LargestUpTo.of_exponent (min_le_right _ _)
  intro exponent atMost
  have counted := le_trailingZeros_iff ptr (atMost.trans (by decide : 4 ≤ 64))
  rw [le_min_iff, and_iff_left atMost, counted]
  exact_mod_cast (Int.natCast_dvd_natCast (m := 2 ^ exponent) (n := ptr)).symm

end DivHint

structure SpecializationBits where
  shapeDiv : List DivHint
  strideDiv : List DivHint
  strideOne : List Bool
  basePtrDiv : DivHint
  elementsDisjoint : Bool
deriving DecidableEq, Repr

/-- Sorted by stride, each axis must step over the axis before it. -/
def elementsDisjoint (shape strides : List Int) : Bool :=
  let sorted := (strides.zip shape).mergeSort fun left right =>
    left.1 < right.1 || (left.1 == right.1 && left.2 ≤ right.2)
  let first := sorted.head?.all fun axis => 0 < axis.1
  let stepsOver (axis next : Int × Int) : Bool :=
    ¬(next.1 ≤ 0 || next.1 < IntegerFormat.i32.wrap (axis.1 * axis.2))
  first && (sorted.zip sorted.tail).all fun pair => stepsOver pair.1 pair.2

/-- The strides are those of the axes of the shape. -/
def computeSpec (basePtr : Nat) (shape strides : List Int) : SpecializationBits where
  shapeDiv := shape.map DivHint.fromValue
  strideDiv := (strides.take shape.length).map DivHint.fromValue
  strideOne := (strides.take shape.length).map (· == 1)
  basePtrDiv := DivHint.fromPtr basePtr
  elementsDisjoint := elementsDisjoint shape strides

/-- Two pointers give a layout the same specialization when they are aligned alike. -/
theorem computeSpec_eq_iff (first second : Nat) (shape strides : List Int) :
    computeSpec first shape strides = computeSpec second shape strides ↔
      ∀ exponent ≤ 4, 2 ^ exponent ∣ first ↔ 2 ^ exponent ∣ second := by
  have aligned := (DivHint.fromPtr_largest first).eq_iff (DivHint.fromPtr_largest second)
  have cast (exponent value : Nat) : (2 : Int) ^ exponent ∣ value ↔ 2 ^ exponent ∣ value := by
    exact_mod_cast Int.natCast_dvd_natCast (m := 2 ^ exponent) (n := value)
  simp only [cast] at aligned
  rw [← aligned]
  constructor
  · intro equal
    exact congrArg (fun spec => spec.basePtrDiv.divisor) equal
  · intro sameDivisor
    have sameHint : DivHint.fromPtr first = DivHint.fromPtr second :=
      congrArg (DivHint.mk · 16) sameDivisor
    rw [computeSpec, sameHint, computeSpec]

/-- The stride hints of a kernel argument: one, or dynamic. -/
def SpecializationBits.stridesHint (spec : SpecializationBits) : List Int :=
  spec.strideOne.map fun isOne => if isOne then 1 else -1

end CuTile
