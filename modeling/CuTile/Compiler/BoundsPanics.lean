import CuTile.Compiler.BoundsSoundness
import CuTile.Foundation.Fallible
import CuTile.Foundation.Panic

/-! # Interval arithmetic on machine integers

`bounds_from_bop` with everything that can panic: checked operators, division, shifts,
assertions and `expect`. On intervals of `i64` none of them does, and the result is that
of the arithmetic on integers.
-/

namespace CuTile

open IntegerFormat Fallible

namespace MachineBounds

open IntegerInterval

def leadingZeros (value : Int) : Nat :=
  if value < 0 then 0 else 64 - bitLength value.toNat

/-- `leading_ones` of an `i64`: the leading zeros of the complement. -/
def leadingOnes (value : Int) : Nat :=
  leadingZeros (-value - 1)

/-- The least and the greatest of the possible bounds. -/
def spanned (possibleBounds : List Int) : Except Panic (Bounds Int) :=
  match possibleBounds.min?, possibleBounds.max? with
  | some start, some last => .ok ⟨start, last⟩
  | _, _ => .error .expectFailed

def corners (operation : Int → Int → Except Panic Int) (a b : Bounds Int) :
    Except Panic (Bounds Int) := do
  let first ← operation a.start b.start
  let second ← operation a.start b.last
  let third ← operation a.last b.start
  let fourth ← operation a.last b.last
  spanned [first, second, third, fourth]

def add (a b : Bounds Int) : Except Panic (Bounds Int) :=
  corners (fun x y => .ok (IntegerFormat.i64.saturate (x + y))) a b

def sub (a b : Bounds Int) : Except Panic (Bounds Int) :=
  corners (fun x y => .ok (IntegerFormat.i64.saturate (x - y))) a b

def mul (a b : Bounds Int) : Except Panic (Bounds Int) :=
  corners (fun x y => .ok (IntegerFormat.i64.saturate (x * y))) a b

def div (a b : Bounds Int) : Except Panic (Bounds Int) :=
  if b.start = 0 ∨ b.last = 0 then .error .divisionByZero
  else corners IntegerFormat.i64.saturatingDiv a b

def rem (a b : Bounds Int) : Except Panic (Bounds Int) := do
  if b.start ≤ 0 ∧ 0 ≤ b.last then throw .assertion
  if a.isExact && b.isExact then
    return .exact ((IntegerFormat.i64.checkedRem a.start b.start).getD 0)
  let most ← IntegerFormat.u64.strict (max b.start.natAbs b.last.natAbs - 1)
  let m := IntegerFormat.i64.wrap most
  let negated ← IntegerFormat.i64.strict (-m)
  return ⟨if 0 ≤ a.start then 0 else max a.start negated, if a.last ≤ 0 then 0 else min a.last m⟩

def divCeilI64 (lhs rhs : Int) : Except Panic Int := do
  let quotient ← IntegerFormat.i64.saturatingDiv lhs rhs
  let remainder := (IntegerFormat.i64.checkedRem lhs rhs).getD 0
  if remainder = 0 then return quotient
  else if (0 < lhs) = (0 < rhs) then return IntegerFormat.i64.saturate (quotient + 1)
  else return quotient

def bopBounds (a b : Bounds Int) (operation : Int → Int → Except Panic Int) :
    Except Panic (Bounds Int) :=
  if a.isExact && b.isExact then do
    let value ← operation a.start b.start
    return .exact value
  else corners operation a b

def bitwise : TileBinaryOp → Int → Int → Except Panic Int
  | .bitAnd, x, y => .ok (Int.land x y)
  | .bitOr, x, y => .ok (Int.lor x y)
  | .bitXor, x, y => .ok (Int.xor x y)
  | _, _, _ => .error .unreachable

def onesOver (value : Int) : Except Panic Int := do
  let bits ← IntegerFormat.u32.strict (64 - leadingZeros value)
  if bits = 0 then return 0
  else if 63 ≤ bits then return IntegerFormat.i64.maxValue
  else
    let shifted ← IntegerFormat.i64.shiftedOne bits.toNat
    IntegerFormat.i64.strict (shifted - 1)

def signedBits (value : Int) : Except Panic Int :=
  IntegerFormat.u32.strict (65 - if 0 ≤ value then leadingZeros value else leadingOnes value)

def bitwiseBounds (op : TileBinaryOp) (a b : Bounds Int) : Except Panic (Bounds Int) := do
  if a.isExact && b.isExact then
    let value ← bitwise op a.start b.start
    return .exact value
  if 0 ≤ a.start ∧ 0 ≤ b.start then
    match op with
    | .bitAnd => return ⟨0, min a.last b.last⟩
    | .bitOr =>
      let last ← onesOver (Int.lor a.last b.last)
      return ⟨max a.start b.start, last⟩
    | .bitXor =>
      let last ← onesOver (Int.lor a.last b.last)
      return ⟨0, last⟩
    | _ => throw .unreachable
  let widths ← [a.start, a.last, b.start, b.last].mapM signedBits
  match widths.max? with
  | none => throw .expectFailed
  | some k =>
    if 64 ≤ k then return ⟨IntegerFormat.i64.minValue, IntegerFormat.i64.maxValue⟩
    let bits ← IntegerFormat.u32.strict (k - 1)
    let shifted ← IntegerFormat.i64.shiftedOne bits.toNat
    let start ← IntegerFormat.i64.strict (-shifted)
    let last ← IntegerFormat.i64.strict (shifted - 1)
    return ⟨start, last⟩

def always (operation : Int → Int → Int) (x y : Int) : Except Panic Int :=
  .ok (operation x y)

def boundsFromBop (op : TileBinaryOp) (a b : Bounds Int) : Except Panic (Option (Bounds Int)) :=
  match op with
  | .shl | .shr => .ok none
  | .ceilDiv | .div | .trueDiv | .rem =>
    if b.start ≤ 0 ∧ 0 ≤ b.last then .ok none
    else some <$> match op with
      | .div | .trueDiv => div a b
      | .ceilDiv => bopBounds a b divCeilI64
      | .rem => rem a b
      | _ => .error .unreachable
  | _ => some <$> match op with
    | .add => add a b
    | .sub => sub a b
    | .mul => mul a b
    | .eq => .ok (overlapBounds a b 1 0)
    | .ne => .ok (overlapBounds a b 0 1)
    | .lt => bopBounds a b (always fun x y => indicator (x < y))
    | .le => bopBounds a b (always fun x y => indicator (x ≤ y))
    | .gt => bopBounds a b (always fun x y => indicator (y < x))
    | .ge => bopBounds a b (always fun x y => indicator (y ≤ x))
    | .min => bopBounds a b (always min)
    | .max => bopBounds a b (always max)
    | .bitAnd | .bitOr | .bitXor => bitwiseBounds op a b
    | _ => .error .unreachable

/-! ## Nothing panics -/

theorem spanned_corners (first second third fourth : Int) :
    spanned [first, second, third, fourth] =
      .ok ⟨min (min first second) (min third fourth),
        max (max first second) (max third fourth)⟩ := by
  simp [spanned, List.min?, List.max?, min_assoc, max_assoc]

section Corners

variable {a b : Bounds Int} {operation : Int → Int → Except Panic Int} {value : Int → Int → Int}
  (computes : ∀ x, x = a.start ∨ x = a.last → ∀ y, y = b.start ∨ y = b.last →
    operation x y = .ok (value x y))

include computes

theorem corners_eq : corners operation a b = .ok (.corners value a b) := by
  simp only [corners, computes _ (.inl rfl) _ (.inl rfl), computes _ (.inl rfl) _ (.inr rfl),
    computes _ (.inr rfl) _ (.inl rfl), computes _ (.inr rfl) _ (.inr rfl), ok_bind,
    spanned_corners]
  rfl

theorem bopBounds_eq : bopBounds a b operation = .ok (CuTile.bopBounds a b value) := by
  unfold bopBounds CuTile.bopBounds
  split_ifs
  · rw [computes _ (.inl rfl) _ (.inl rfl)]
    rfl
  · exact corners_eq computes

end Corners

section Divisor

variable {a b : Bounds Int} (excludes : ¬(b.start ≤ 0 ∧ 0 ≤ b.last)) (ordered : b.start ≤ b.last)

include excludes ordered

theorem endpoint_ne_zero {y : Int} (isEndpoint : y = b.start ∨ y = b.last) : y ≠ 0 := by
  omega

theorem div_eq : div a b = .ok (a.div b) := by
  have startNonzero := endpoint_ne_zero excludes ordered (.inl rfl)
  have lastNonzero := endpoint_ne_zero excludes ordered (.inr rfl)
  rw [div, if_neg (not_or.mpr ⟨startNonzero, lastNonzero⟩)]
  exact corners_eq fun x _ y isEndpoint =>
    saturatingDiv_of_ne (endpoint_ne_zero excludes ordered isEndpoint) x

theorem ceilDiv_eq : bopBounds a b divCeilI64 = .ok (CuTile.bopBounds a b CuTile.divCeilI64) := by
  apply bopBounds_eq
  intro _ _ _ isEndpoint
  have nonzero := endpoint_ne_zero excludes ordered isEndpoint
  simp only [divCeilI64, CuTile.divCeilI64, saturatingDiv_of_ne nonzero,
    checkedRem_getD _ _ nonzero, ok_bind]
  split_ifs <;> rfl

/-- `|MIN| - 1` is the greatest `i64`, so neither the cast nor the negation overflows. -/
theorem rem_eq (fits : b.Fits) : rem a b = .ok (a.rem b) := by
  have startNonzero := endpoint_ne_zero excludes ordered (.inl rfl)
  obtain ⟨startFits, lastFits⟩ := fits
  rw [represents_i64] at startFits lastFits
  obtain ⟨most, isMost⟩ : ∃ most : Int, (max b.start.natAbs b.last.natAbs : Nat) - 1 = most :=
    ⟨_, rfl⟩
  have subtracts : u64.strict most = .ok most :=
    strict_of_represents (by rw [represents_u64]; omega)
  have casts : i64.wrap most = most :=
    wrap_of_represents _ (by rw [represents_i64]; omega)
  have negates : i64.strict (-most) = .ok (-most) :=
    strict_of_represents (by rw [represents_i64]; omega)
  unfold rem Bounds.rem
  rw [if_neg excludes]
  by_cases exactly : (a.isExact && b.isExact) = true
  · rw [if_pos exactly, if_pos exactly, checkedRem_getD _ _ startNonzero]
    rfl
  · rw [if_neg exactly, if_neg exactly]
    simp only [isMost, subtracts, ok_bind, casts, negates]
    rfl

end Divisor

/-! ## Bitwise operations -/

section Bitwise

variable {a b : Bounds Int} {value : Int}

theorem bitLength_le {bits value : Nat} (small : value < 2 ^ bits) : bitLength value ≤ bits := by
  unfold bitLength
  split_ifs with isZero
  · exact Nat.zero_le bits
  · exact (Nat.log2_lt isZero).mpr small

theorem bitLength_magnitudeBits_le (fits : i64.Represents value) :
    bitLength (magnitudeBits value) ≤ 63 := by
  apply bitLength_le
  rw [magnitudeBits_lt_iff]
  rw [represents_i64] at fits
  omega

theorem magnitudeBits_of_nonneg (nonneg : 0 ≤ value) : magnitudeBits value = value.toNat := by
  obtain ⟨_, rfl⟩ := Int.eq_ofNat_of_zero_le nonneg
  rfl

theorem magnitudeBits_of_neg (negative : value < 0) :
    magnitudeBits value = (-value - 1).toNat := by
  obtain ⟨_, rfl⟩ := Int.eq_negSucc_of_lt_zero negative
  simp [magnitudeBits, Int.negSucc_eq]

/-- The leading bits that repeat the sign are those above the magnitude. -/
theorem signBits_eq (value : Int) :
    (if 0 ≤ value then leadingZeros value else leadingOnes value) =
      64 - bitLength (magnitudeBits value) := by
  split_ifs with nonneg
  · rw [leadingZeros, if_neg (by omega), magnitudeBits_of_nonneg nonneg]
  · rw [leadingOnes, leadingZeros, if_neg (by omega), magnitudeBits_of_neg (by omega)]

theorem signedBits_eq (fits : i64.Represents value) :
    signedBits value = .ok (CuTile.signedBits value : Int) := by
  have small := bitLength_magnitudeBits_le fits
  rw [signedBits, signBits_eq, strict_of_represents]
  · rw [CuTile.signedBits]
    congr 1
    omega
  · rw [represents_u32]
    omega

/-- Shifts by less than the sign's position, and the number of ones below. -/
theorem shiftedOne_pred {bits : Nat} (inside : bits < 63) :
    i64.shiftedOne bits = .ok (2 ^ bits) ∧
      i64.strict (2 ^ bits - 1) = .ok (2 ^ bits - 1) := by
  have positive : (0 : Int) < 2 ^ bits := by positivity
  have bounded : (2 : Int) ^ bits ≤ 2 ^ 62 := pow_le_pow_right₀ (by decide) (by omega)
  constructor
  · apply shiftedOne_of_represents
    · exact inside.trans (by decide)
    · rw [represents_i64]
      omega
  · apply strict_of_represents
    rw [represents_i64]
    omega

theorem onesOver_eq (nonneg : 0 ≤ value) (fits : i64.Represents value) :
    onesOver value = .ok (CuTile.onesOver value) := by
  have small := bitLength_magnitudeBits_le fits
  rw [magnitudeBits_of_nonneg nonneg] at small
  have isBits : (64 - leadingZeros value : Int) = bitLength value.toNat := by
    rw [leadingZeros, if_neg (by omega)]
    omega
  have strict : u32.strict (bitLength value.toNat) = .ok ↑(bitLength value.toNat) :=
    strict_of_represents (by rw [represents_u32]; omega)
  simp only [onesOver, CuTile.onesOver, isBits, strict, ok_bind, Nat.cast_eq_zero,
    Nat.ofNat_le_cast]
  split_ifs with isZero zeroWide wide
  · omega
  · simp [IntegerInterval.onesOver, isZero, pure, Except.pure]
  · rfl
  · rw [Int.toNat_natCast]
    obtain ⟨shifts, decrements⟩ := shiftedOne_pred (Nat.lt_of_not_le wide)
    rw [shifts, ok_bind, decrements, IntegerInterval.onesOver]
    push_cast [Nat.one_le_two_pow]
    rfl

theorem widths_max (aFits : a.Fits) (bFits : b.Fits) :
    ∃ widths, [a.start, a.last, b.start, b.last].mapM signedBits = .ok widths ∧
      widths.max? = some (envelopeBits a b : Int) := by
  refine ⟨_, by simp only [List.mapM_cons, List.mapM_nil, signedBits_eq aFits.1,
    signedBits_eq aFits.2, signedBits_eq bFits.1, signedBits_eq bFits.2, ok_bind,
    pure_bind]; rfl, ?_⟩
  simp [List.max?, envelopeBits, max_assoc]

theorem bitwise_eq {op : TileBinaryOp} (isBitwise : op = .bitAnd ∨ op = .bitOr ∨ op = .bitXor)
    (x y : Int) : bitwise op x y = .ok (op.bitwise x y) := by
  rcases isBitwise with rfl | rfl | rfl <;> rfl

theorem envelope_eq {bits : Nat} (positive : 0 < bits) (narrow : bits < 64) :
    u32.strict (bits - 1) = .ok ↑(bits - 1) ∧
      i64.shiftedOne (bits - 1) = .ok (2 ^ (bits - 1)) ∧
      i64.strict (-2 ^ (bits - 1)) = .ok (-2 ^ (bits - 1)) ∧
      i64.strict (2 ^ (bits - 1) - 1) = .ok (2 ^ (bits - 1) - 1) := by
  obtain ⟨shifts, decrements⟩ := shiftedOne_pred (show bits - 1 < 63 by omega)
  refine ⟨?_, shifts, ?_, decrements⟩
  · rw [strict_of_represents]
    · congr 1
      omega
    · rw [represents_u32]
      omega
  · have bounded : (2 : Int) ^ (bits - 1) ≤ 2 ^ 62 := pow_le_pow_right₀ (by decide) (by omega)
    have nonneg : (0 : Int) < 2 ^ (bits - 1) := by positivity
    apply strict_of_represents
    rw [represents_i64]
    omega

theorem nonneg_lor {x y : Int} (xNonneg : 0 ≤ x) (yNonneg : 0 ≤ y) : 0 ≤ Int.lor x y := by
  obtain ⟨m, rfl⟩ := Int.eq_ofNat_of_zero_le xNonneg
  obtain ⟨n, rfl⟩ := Int.eq_ofNat_of_zero_le yNonneg
  exact Int.natCast_nonneg (m ||| n)

theorem bitwiseBounds_eq {op : TileBinaryOp}
    (isBitwise : op = .bitAnd ∨ op = .bitOr ∨ op = .bitXor) (aFits : a.Fits) (bFits : b.Fits)
    (aOrdered : a.start ≤ a.last) (bOrdered : b.start ≤ b.last) :
    bitwiseBounds op a b = .ok (CuTile.bitwiseBounds op a b) := by
  unfold bitwiseBounds CuTile.bitwiseBounds
  by_cases exactly : (a.isExact && b.isExact) = true
  · rw [if_pos exactly, if_pos exactly, bitwise_eq isBitwise]
    rfl
  rw [if_neg exactly, if_neg exactly]
  by_cases nonneg : 0 ≤ a.start ∧ 0 ≤ b.start
  · have ones := onesOver_eq (nonneg_lor (nonneg.1.trans aOrdered) (nonneg.2.trans bOrdered))
      (bitwise_represents .bitOr aFits.2 bFits.2)
    rw [if_pos nonneg, if_pos nonneg]
    rcases isBitwise with rfl | rfl | rfl
    · rfl
    · simp only [ones, ok_bind]
      rfl
    · simp only [ones, ok_bind]
      rfl
  · obtain ⟨widths, computed, isMax⟩ := widths_max aFits bFits
    rw [if_neg nonneg, if_neg nonneg]
    simp only [computed, ok_bind, isMax, Nat.ofNat_le_cast]
    split_ifs with wide
    · rfl
    · have positive : 0 < envelopeBits a b := by
        simp only [envelopeBits, CuTile.signedBits]
        omega
      obtain ⟨subtracts, shifts, negates, decrements⟩ :=
        envelope_eq positive (Nat.lt_of_not_le wide)
      simp only [subtracts, ok_bind, Int.toNat_natCast, shifts, negates, decrements]
      rfl

end Bitwise

/-- On intervals of `i64` the machine computes the interval of the integer arithmetic. -/
theorem boundsFromBop_eq (op : TileBinaryOp) {a b : Bounds Int} (aFits : a.Fits) (bFits : b.Fits)
    (aOrdered : a.start ≤ a.last) (bOrdered : b.start ≤ b.last) :
    boundsFromBop op a b = .ok (CuTile.boundsFromBop op a b) := by
  have sampled : ∀ operation : Int → Int → Int,
      bopBounds a b (always operation) = .ok (CuTile.bopBounds a b operation) :=
    fun _ => bopBounds_eq fun _ _ _ _ => rfl
  have saturated : ∀ operation : Int → Int → Int,
      corners (always (Bounds.saturating operation)) a b =
        .ok (.corners (Bounds.saturating operation) a b) :=
    fun _ => corners_eq fun _ _ _ _ => rfl
  cases op with
  | shl | shr => rfl
  | div | trueDiv | ceilDiv | rem =>
    simp only [boundsFromBop, CuTile.boundsFromBop, decide_eq_true_eq]
    split_ifs with mayBeZero
    · rfl
    · simp only [div_eq mayBeZero bOrdered, ceilDiv_eq mayBeZero bOrdered,
        rem_eq mayBeZero bOrdered bFits]
      rfl
  | add => exact congrArg (some <$> ·) (saturated (· + ·))
  | sub => exact congrArg (some <$> ·) (saturated (· - ·))
  | mul => exact congrArg (some <$> ·) (saturated (· * ·))
  | eq | ne => rfl
  | lt | le | gt | ge | min | max => exact congrArg (some <$> ·) (sampled _)
  | bitAnd | bitOr | bitXor =>
    exact congrArg (some <$> ·) (bitwiseBounds_eq (by decide) aFits bFits aOrdered bOrdered)

end MachineBounds

def TileBinaryOp.divides : TileBinaryOp → Bool
  | .ceilDiv | .div | .trueDiv | .rem => true
  | _ => false

/-- The exact result: none for a zero divisor or a negative shift. -/
def TileBinaryOp.result (op : TileBinaryOp) (x y : Int) : Option Int :=
  match op with
  | .shl => if y < 0 then none else some (x * 2 ^ y.toNat)
  | .shr => if y < 0 then none else some (x / 2 ^ y.toNat)
  | _ => if op.divides ∧ y = 0 then none else op.mathematical x y

theorem TileBinaryOp.result_of_mathematical {op : TileBinaryOp} {x y value r : Int}
    (isValue : op.mathematical x y = some value) (isResult : op.result x y = some r) :
    value = r := by
  cases op with
  | shl | shr => cases isValue
  | _ =>
    simp only [TileBinaryOp.result, Option.ite_none_left_eq_some] at isResult
    exact Option.some_inj.mp (isValue.symm.trans isResult.2)

/-- On all of `i64` no operator panics, the interval is well formed and contains every
exact result clamped to `i64`, and a divisor is rejected exactly when it may be zero. -/
theorem boundsFromBop_total_sound (op : TileBinaryOp) (a b : Bounds Int) (aFits : a.Fits)
    (bFits : b.Fits) (aOrdered : a.start ≤ a.last) (bOrdered : b.start ≤ b.last) :
    ∃ computed, MachineBounds.boundsFromBop op a b = .ok computed ∧
      (∀ c, computed = some c → c.start ≤ c.last ∧ ∀ x ∈ a, ∀ y ∈ b, ∀ r,
        op.result x y = some r → IntegerFormat.i64.saturate r ∈ c) ∧
      (op.divides = true → (computed = none ↔ 0 ∈ b)) := by
  refine ⟨_, MachineBounds.boundsFromBop_eq op aFits bFits aOrdered bOrdered, ?_, ?_⟩
  · intro c computed
    refine ⟨?_, fun x xInside y yInside r isResult => ?_⟩
    · -- The result on the two starts lies between the ends.
      obtain ⟨value, -, inside⟩ := boundsFromBop_sound aFits bFits computed
        (show a.start ∈ a from ⟨le_rfl, aOrdered⟩) (show b.start ∈ b from ⟨le_rfl, bOrdered⟩)
      exact inside.1.trans inside.2
    · obtain ⟨value, isValue, inside⟩ := boundsFromBop_sound aFits bFits computed xInside yInside
      rw [← TileBinaryOp.result_of_mathematical isValue isResult]
      exact inside
  · intro divides
    cases op with
    | ceilDiv | div | trueDiv | rem => simp [boundsFromBop]
    | _ => cases divides

theorem boundsFromBop_total_sound_extreme :
    let all : Bounds Int := ⟨-9223372036854775808, 9223372036854775807⟩
    let minusOne : Bounds Int := ⟨-1, -1⟩
    ∃ c, MachineBounds.boundsFromBop .div all minusOne = .ok (some c) ∧
      9223372036854775807 ∈ c := by
  intro all minusOne
  obtain ⟨computed, computes, sound, rejects⟩ := boundsFromBop_total_sound .div all minusOne
    ⟨by decide, by decide⟩ ⟨by decide, by decide⟩ (by decide) (by decide)
  obtain ⟨c, rfl⟩ : ∃ c, computed = some c :=
    Option.ne_none_iff_exists'.mp fun rejected => by
      have contains : 0 ≤ (-1 : Int) := ((rejects rfl).mp rejected).2
      omega
  refine ⟨c, computes, ?_⟩
  exact (sound c rfl).2 (-9223372036854775808) ⟨by decide, by decide⟩ (-1)
    ⟨by decide, by decide⟩ 9223372036854775808 rfl

end CuTile
