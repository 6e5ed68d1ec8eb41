import CuTile.Foundation.Division
import CuTile.Foundation.Interval
import CuTile.Foundation.MachineInteger

/-! # Interval arithmetic

The compiler's interval lattice. Endpoints are `i64` and saturate, so that an
overflowing endpoint widens the interval instead of wrapping it.
-/

namespace CuTile

inductive TileBinaryOp where
  | ceilDiv
  | div
  | trueDiv
  | rem
  | add
  | sub
  | mul
  | eq
  | ne
  | lt
  | le
  | gt
  | ge
  | min
  | max
  | bitAnd
  | bitOr
  | bitXor
  | shl
  | shr
deriving DecidableEq, Repr

/-- An interval, both ends inclusive. -/
@[ext] structure Bounds (α : Type) where
  start : α
  last : α
deriving DecidableEq, Repr

namespace Bounds

instance [LE α] : Membership α (Bounds α) where
  mem bounds value := bounds.start ≤ value ∧ value ≤ bounds.last

@[simp] theorem mem_iff [LE α] {bounds : Bounds α} {value : α} :
    value ∈ bounds ↔ bounds.start ≤ value ∧ value ≤ bounds.last := Iff.rfl

instance (value : Int) (bounds : Bounds Int) : Decidable (value ∈ bounds) :=
  inferInstanceAs (Decidable (_ ∧ _))

def exact (value : α) : Bounds α := ⟨value, value⟩

def isExact [DecidableEq α] (bounds : Bounds α) : Bool := bounds.last = bounds.start

theorem eq_start_of_mem {bounds : Bounds Int} {value : Int} (exact : bounds.isExact)
    (member : value ∈ bounds) : value = bounds.start := by
  simp only [isExact, decide_eq_true_eq] at exact
  simp only [mem_iff] at member
  omega

/-- Least and greatest value of an operation over the four corners. -/
def corners (operation : Int → Int → Int) (left right : Bounds Int) : Bounds Int where
  start := min
    (min (operation left.start right.start) (operation left.start right.last))
    (min (operation left.last right.start) (operation left.last right.last))
  last := max
    (max (operation left.start right.start) (operation left.start right.last))
    (max (operation left.last right.start) (operation left.last right.last))

def saturating (operation : Int → Int → Int) (left right : Int) : Int :=
  IntegerFormat.i64.saturate (operation left right)

def add : Bounds Int → Bounds Int → Bounds Int := corners (saturating (· + ·))

def sub : Bounds Int → Bounds Int → Bounds Int := corners (saturating (· - ·))

def mul : Bounds Int → Bounds Int → Bounds Int := corners (saturating (· * ·))

/-- Division. The only caller has excluded zero from the divisor, so the panics
on a zero endpoint are out of reach. -/
def div : Bounds Int → Bounds Int → Bounds Int := corners (saturating Int.tdiv)

/-- Remainder. Extrema are not at the corners, so the interval comes from the
sign and size of a truncated remainder. -/
def rem (left right : Bounds Int) : Bounds Int :=
  if left.isExact && right.isExact then exact (left.start.tmod right.start)
  else
    let most : Int := max right.start.natAbs right.last.natAbs - 1
    { start := if 0 ≤ left.start then 0 else max left.start (-most)
      last := if left.last ≤ 0 then 0 else min left.last most }

end Bounds

def divCeilI64 (left right : Int) : Int :=
  let quotient := IntegerFormat.i64.saturate (left.tdiv right)
  let remainder := left.tmod right
  if remainder = 0 then quotient
  else if (0 < left) = (0 < right) then IntegerFormat.i64.saturate (quotient + 1)
  else quotient

def bopBounds (left right : Bounds Int) (operation : Int → Int → Int) : Bounds Int :=
  if left.isExact && right.isExact then .exact (operation left.start right.start)
  else .corners operation left right

/-- Bits of the two's-complement number `value`, sign included. -/
def signedBits (value : Int) : Nat :=
  IntegerInterval.bitLength (IntegerInterval.magnitudeBits value) + 1

/-- All ones over the highest set bit of a nonnegative number. -/
def onesOver (value : Int) : Int :=
  if 63 ≤ IntegerInterval.bitLength value.toNat then IntegerFormat.i64.maxValue
  else IntegerInterval.onesOver value.toNat

def TileBinaryOp.bitwise : TileBinaryOp → Int → Int → Int
  | .bitAnd => Int.land
  | .bitOr => Int.lor
  | _ => Int.xor

/-- The range of a bitwise operation on operands that are not negative. -/
def nonnegBitwiseBounds (op : TileBinaryOp) (left right : Bounds Int) : Bounds Int :=
  match op with
  | .bitAnd => ⟨0, min left.last right.last⟩
  | .bitOr => ⟨max left.start right.start, onesOver (Int.lor left.last right.last)⟩
  | _ => ⟨0, onesOver (Int.lor left.last right.last)⟩

/-- The width that holds every endpoint in two's complement. -/
def envelopeBits (left right : Bounds Int) : Nat :=
  max (max (signedBits left.start) (signedBits left.last))
    (max (signedBits right.start) (signedBits right.last))

/-- The range of `&`, `|` and `^`. Corner sampling is wrong here; what holds is
the two's-complement envelope of both operands, with tighter ends when neither
operand is negative. -/
def bitwiseBounds (op : TileBinaryOp) (left right : Bounds Int) : Bounds Int :=
  if left.isExact && right.isExact then .exact (op.bitwise left.start right.start)
  else if 0 ≤ left.start ∧ 0 ≤ right.start then nonnegBitwiseBounds op left right
  else if 64 ≤ envelopeBits left right then
    ⟨IntegerFormat.i64.minValue, IntegerFormat.i64.maxValue⟩
  else ⟨-(2 ^ (envelopeBits left right - 1)), 2 ^ (envelopeBits left right - 1) - 1⟩

def indicator (condition : Prop) [Decidable condition] : Int :=
  if condition then 1 else 0

/-- Equality is not monotone: an overlap leaves both answers open. -/
def overlapBounds (left right : Bounds Int) (whenEqual whenDifferent : Int) : Bounds Int :=
  if left.isExact && right.isExact then
    .exact (if left.start = right.start then whenEqual else whenDifferent)
  else if left.last < right.start ∨ right.last < left.start then .exact whenDifferent
  else ⟨0, 1⟩

/-- The interval of a binary operation, or nothing when none is known: shifts,
and divisions whose divisor may be zero. -/
def boundsFromBop (op : TileBinaryOp) (left right : Bounds Int) : Option (Bounds Int) :=
  let mayBeZero : Bool := right.start ≤ 0 ∧ 0 ≤ right.last
  match op with
  | .shl | .shr => none
  | .div | .trueDiv => if mayBeZero then none else some (left.div right)
  | .ceilDiv => if mayBeZero then none else some (bopBounds left right divCeilI64)
  | .rem => if mayBeZero then none else some (left.rem right)
  | .add => some (left.add right)
  | .sub => some (left.sub right)
  | .mul => some (left.mul right)
  | .eq => some (overlapBounds left right 1 0)
  | .ne => some (overlapBounds left right 0 1)
  | .lt => some (bopBounds left right fun x y => indicator (x < y))
  | .le => some (bopBounds left right fun x y => indicator (x ≤ y))
  | .gt => some (bopBounds left right fun x y => indicator (y < x))
  | .ge => some (bopBounds left right fun x y => indicator (y ≤ x))
  | .min => some (bopBounds left right min)
  | .max => some (bopBounds left right max)
  | .bitAnd | .bitOr | .bitXor => some (bitwiseBounds op left right)

example : boundsFromBop .rem ⟨0, 3⟩ ⟨3, 3⟩ = some ⟨0, 2⟩ := by decide
example : boundsFromBop .bitXor ⟨0, 2⟩ ⟨0, 2⟩ = some ⟨0, 3⟩ := by decide

end CuTile
