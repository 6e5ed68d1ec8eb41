import CuTile.Foundation.MachineInteger

/-! # Arithmetic that can panic

The operators of a build with overflow checks: each computes the exact result or panics.
-/

namespace CuTile

inductive Panic where
  | overflow
  | divisionByZero
  | outOfRange
  | assertion
  | expectFailed
  | unreachable
deriving DecidableEq, Repr

namespace IntegerFormat

/-- The result of an operator, which panics when it does not fit. -/
def strict (format : IntegerFormat) (value : Int) : Except Panic Int :=
  if format.Represents value then .ok value else .error .overflow

theorem strict_of_represents {format : IntegerFormat} {value : Int}
    (fits : format.Represents value) : format.strict value = .ok value :=
  if_pos fits

def saturatingDiv (format : IntegerFormat) (left right : Int) : Except Panic Int :=
  if right = 0 then .error .divisionByZero else .ok (format.saturate (left.tdiv right))

theorem saturatingDiv_of_ne {format : IntegerFormat} {right : Int} (nonzero : right ≠ 0)
    (left : Int) : format.saturatingDiv left right = .ok (format.saturate (left.tdiv right)) :=
  if_neg nonzero

/-- `checked_rem`: nothing for a zero divisor, and where the quotient overflows. -/
def checkedRem (format : IntegerFormat) (left right : Int) : Option Int :=
  if right = 0 ∨ left = format.minValue ∧ right = -1 then none else some (left.tmod right)

theorem checkedRem_getD (format : IntegerFormat) (left : Int) {right : Int} (nonzero : right ≠ 0) :
    (format.checkedRem left right).getD 0 = left.tmod right := by
  unfold checkedRem
  split_ifs with overflows
  · rcases overflows with isZero | ⟨-, rfl⟩
    · exact absurd isZero nonzero
    · simp
  · rfl

/-- `1 << bits`; only the number of bits is checked. -/
def shiftedOne (format : IntegerFormat) (bits : Nat) : Except Panic Int :=
  if format.width ≤ bits then .error .overflow else .ok (format.wrap (2 ^ bits))

theorem shiftedOne_of_represents {format : IntegerFormat} {bits : Nat}
    (inWidth : bits < format.width) (fits : format.Represents (2 ^ bits)) :
    format.shiftedOne bits = .ok (2 ^ bits) := by
  rw [shiftedOne, if_neg (Nat.not_le.mpr inWidth), format.wrap_of_represents fits]

end IntegerFormat

end CuTile
