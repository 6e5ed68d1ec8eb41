import Mathlib.Data.Int.ModEq
import Mathlib.Tactic.Linarith
import Mathlib.Tactic.Positivity
import Mathlib.Tactic.Ring

/-! # Fixed-width integers

A machine integer is an `Int` together with the format that bounds it. The
three overflow disciplines of a systems language (wrap, check, saturate) are
functions on the exact result, so a proof can always start from ordinary
integer arithmetic and discharge the format afterwards.
-/

namespace CuTile

/-- A two's-complement format. Width zero is excluded: it has no values to
speak of and would make the signed range empty. -/
structure IntegerFormat where
  width : Nat
  signed : Bool
  positive : 0 < width
deriving DecidableEq, Repr

namespace IntegerFormat

def i32 : IntegerFormat := ⟨32, true, by decide⟩
def u32 : IntegerFormat := ⟨32, false, by decide⟩
def i64 : IntegerFormat := ⟨64, true, by decide⟩
def u64 : IntegerFormat := ⟨64, false, by decide⟩

def modulus (format : IntegerFormat) : Nat := 2 ^ format.width

def minValue (format : IntegerFormat) : Int :=
  if format.signed then -(2 ^ (format.width - 1)) else 0

def maxValue (format : IntegerFormat) : Int :=
  if format.signed then 2 ^ (format.width - 1) - 1 else 2 ^ format.width - 1

/-- `value` has an exact representation in `format`. -/
def Represents (format : IntegerFormat) (value : Int) : Prop :=
  format.minValue ≤ value ∧ value ≤ format.maxValue

instance (format : IntegerFormat) (value : Int) :
    Decidable (format.Represents value) :=
  inferInstanceAs (Decidable (_ ∧ _))

/-- The machine value left in a register of this format. -/
def wrap (format : IntegerFormat) (value : Int) : Int :=
  if format.signed then value.bmod format.modulus else value % format.modulus

/-- `checked_*` arithmetic: the exact result, or nothing when it overflows. -/
def checked (format : IntegerFormat) (value : Int) : Option Int :=
  if format.Represents value then some value else none

/-- `saturating_*` arithmetic: the representable value nearest the result. -/
def saturate (format : IntegerFormat) (value : Int) : Int :=
  max format.minValue (min format.maxValue value)

@[simp] theorem represents_i32 (value : Int) :
    i32.Represents value ↔ -2147483648 ≤ value ∧ value ≤ 2147483647 := Iff.rfl

@[simp] theorem represents_u32 (value : Int) :
    u32.Represents value ↔ 0 ≤ value ∧ value ≤ 4294967295 := Iff.rfl

@[simp] theorem represents_i64 (value : Int) :
    i64.Represents value ↔
      -9223372036854775808 ≤ value ∧ value ≤ 9223372036854775807 := Iff.rfl

@[simp] theorem represents_u64 (value : Int) :
    u64.Represents value ↔ 0 ≤ value ∧ value ≤ 18446744073709551615 := Iff.rfl

theorem represents_i32_of_le {value bound : Int} (nonneg : 0 ≤ value) (below : value ≤ bound)
    (represents : i32.Represents bound) : i32.Represents value := by
  rw [represents_i32] at represents ⊢
  omega

section

variable (format : IntegerFormat)

theorem modulus_eq_twice_half : (format.modulus : Int) = 2 * 2 ^ (format.width - 1) := by
  have width := Nat.succ_pred_eq_of_pos format.positive
  rw [modulus, ← width, Nat.pred_eq_sub_one, Nat.pow_succ]
  push_cast
  ring

theorem modulus_pos : 0 < format.modulus :=
  Nat.two_pow_pos format.width

theorem maxValue_eq : format.maxValue = format.minValue + format.modulus - 1 := by
  have half := format.modulus_eq_twice_half
  cases signed : format.signed <;>
    simp [maxValue, minValue, signed, modulus] at half ⊢
  omega

theorem minValue_le_maxValue : format.minValue ≤ format.maxValue := by
  have pos := format.modulus_pos
  rw [maxValue_eq]
  omega

theorem wrap_represents (value : Int) : format.Represents (format.wrap value) := by
  have half := format.modulus_eq_twice_half
  have pos := format.modulus_pos
  cases signed : format.signed with
  | false =>
    have lower := Int.emod_nonneg value (b := (format.modulus : Int)) (by omega)
    have upper := Int.emod_lt_of_pos value (b := (format.modulus : Int)) (by omega)
    simp only [Represents, wrap, maxValue_eq, signed, minValue]
    exact ⟨lower, by simp; omega⟩
  | true =>
    have lower := Int.le_bmod (x := value) pos
    have upper := Int.bmod_lt (x := value) pos
    simp only [Represents, wrap, maxValue_eq, signed, minValue, if_true]
    omega

/-- Wrapping keeps the residue: this is what makes wrapping arithmetic a ring. -/
theorem wrap_modEq (value : Int) : format.wrap value ≡ value [ZMOD format.modulus] := by
  cases signed : format.signed with
  | false => simpa [wrap, signed] using Int.mod_modEq value format.modulus
  | true => simp [wrap, signed, Int.ModEq]

theorem eq_of_modEq {left right : Int} (congruent : left ≡ right [ZMOD format.modulus])
    (leftFits : format.Represents left) (rightFits : format.Represents right) : left = right := by
  rcases congruent.dvd with ⟨quotient, difference⟩
  rcases leftFits with ⟨leftLower, leftUpper⟩
  rcases rightFits with ⟨rightLower, rightUpper⟩
  rw [maxValue_eq] at leftUpper rightUpper
  have pos : (0 : Int) < format.modulus := by exact_mod_cast format.modulus_pos
  have above : -1 < quotient := by
    by_contra low
    nlinarith
  have below : quotient < 1 := by
    by_contra high
    nlinarith
  have zero : quotient = 0 := by omega
  simp only [zero, mul_zero] at difference
  omega

@[simp] theorem wrap_of_represents {value : Int} (fits : format.Represents value) :
    format.wrap value = value :=
  format.eq_of_modEq (format.wrap_modEq value) (format.wrap_represents value) fits

theorem wrap_eq_of_modEq {left right : Int} (congruent : left ≡ right [ZMOD format.modulus])
    (fits : format.Represents right) : format.wrap left = right :=
  format.eq_of_modEq ((format.wrap_modEq left).trans congruent)
    (format.wrap_represents left) fits

@[simp] theorem checked_eq_some_iff {value result : Int} :
    format.checked value = some result ↔
      format.Represents value ∧ value = result := by
  unfold checked
  split <;> simp_all

@[simp] theorem saturate_of_represents {value : Int} (fits : format.Represents value) :
    format.saturate value = value := by
  rcases fits with ⟨lower, upper⟩
  unfold saturate
  omega

theorem saturate_mono {left right : Int} (le : left ≤ right) :
    format.saturate left ≤ format.saturate right := by
  unfold saturate
  omega

/-- A saturated value strictly inside the range was not saturated at all. -/
theorem le_of_saturate_le {value bound : Int} (below : format.saturate value ≤ bound)
    (inside : bound < format.maxValue) : value ≤ bound := by
  unfold saturate at below
  omega

theorem le_of_le_saturate {value bound : Int} (above : bound ≤ format.saturate value)
    (inside : format.minValue < bound) : bound ≤ value := by
  have ordered := format.minValue_le_maxValue
  unfold saturate at above
  omega

end

theorem wrap_i32 {value : Int} (fits : -2147483648 ≤ value ∧ value ≤ 2147483647) :
    i32.wrap value = value :=
  wrap_of_represents _ fits

end IntegerFormat

/-! ## Host sizes -/

namespace Usize

/-- `usize` and `u64` arithmetic of a 64-bit host. -/
def wrap (value : Nat) : Nat := value % 2 ^ 64

/-- A cast from `i32` extends the sign. -/
def ofI32 (value : Int) : Nat := (value % 2 ^ 64).toNat

theorem two_pow_dvd_wrap_iff {exponent : Nat} (small : exponent ≤ 64) (value : Nat) :
    2 ^ exponent ∣ wrap value ↔ 2 ^ exponent ∣ value :=
  Nat.dvd_mod_iff (Nat.pow_dvd_pow 2 small)

def checkedMul (left right : Nat) : Option Nat :=
  if left * right < 2 ^ 64 then some (left * right) else none

end Usize

end CuTile
