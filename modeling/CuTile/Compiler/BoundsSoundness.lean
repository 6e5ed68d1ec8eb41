import CuTile.Compiler.Bounds

/-! # Soundness of interval arithmetic

Every interval the compiler computes contains the saturated result of the
operation on any operands inside the operand intervals.
-/

namespace CuTile

open IntegerInterval IntegerFormat Division

/-- What an operation computes over the integers. Shifts have no reading that is
independent of the operand type, and intervals never rely on one. -/
def TileBinaryOp.mathematical (op : TileBinaryOp) (left right : Int) : Option Int :=
  match op with
  | .add => some (left + right)
  | .sub => some (left - right)
  | .mul => some (left * right)
  | .div | .trueDiv => some (left.tdiv right)
  | .ceilDiv => some (ceilQuotient left right)
  | .rem => some (left.tmod right)
  | .eq => some (indicator (left = right))
  | .ne => some (indicator (left ≠ right))
  | .lt => some (indicator (left < right))
  | .le => some (indicator (left ≤ right))
  | .gt => some (indicator (right < left))
  | .ge => some (indicator (right ≤ left))
  | .min => some (Min.min left right)
  | .max => some (Max.max left right)
  | .bitAnd | .bitOr | .bitXor => some (op.bitwise left right)
  | .shl | .shr => none

namespace Bounds

variable {left right : Bounds Int} {x y : Int}

theorem mem_corners {operation : Int → Int → Int}
    (alongFirst : ∀ fixed ∈ right,
      OneWay (fun moving => operation moving fixed) left.start left.last)
    (alongSecond : ∀ fixed ∈ left, OneWay (operation fixed) right.start right.last)
    (xInside : x ∈ left) (yInside : y ∈ right) :
    operation x y ∈ corners operation left right :=
  corner_hull alongFirst alongSecond xInside yInside

theorem oneWay_saturate {operation : Int → Int} {first last : Int}
    (oneWay : OneWay operation first last) :
    OneWay (fun point => i64.saturate (operation point)) first last := by
  rcases oneWay with up | down
  · exact .inl fun _ hx _ hy le => i64.saturate_mono (up hx hy le)
  · exact .inr fun _ hx _ hy le => i64.saturate_mono (down hx hy le)

/-- Saturation is monotone, so sampling saturated corners is sound for the
saturated result. -/
theorem mem_corners_saturating {operation : Int → Int → Int}
    (alongFirst : ∀ fixed ∈ right,
      OneWay (fun moving => operation moving fixed) left.start left.last)
    (alongSecond : ∀ fixed ∈ left, OneWay (operation fixed) right.start right.last)
    (xInside : x ∈ left) (yInside : y ∈ right) :
    i64.saturate (operation x y) ∈
      corners (saturating operation) left right :=
  mem_corners (fun fixed inside => oneWay_saturate (alongFirst fixed inside))
    (fun fixed inside => oneWay_saturate (alongSecond fixed inside)) xInside yInside

section

variable (xInside : x ∈ left) (yInside : y ∈ right)

include xInside yInside

theorem mem_add : i64.saturate (x + y) ∈ left.add right := by
  apply mem_corners_saturating _ _ xInside yInside
  · intro fixed _
    exact .inl fun _ _ _ _ le => Int.add_le_add_right le fixed
  · intro fixed _
    exact .inl fun _ _ _ _ le => Int.add_le_add_left le fixed

theorem mem_sub : i64.saturate (x - y) ∈ left.sub right := by
  apply mem_corners_saturating _ _ xInside yInside
  · intro fixed _
    exact .inl fun _ _ _ _ le => Int.sub_le_sub_right le fixed
  · intro fixed _
    exact .inr fun _ _ _ _ le => Int.sub_le_sub_left le fixed

theorem mem_mul : i64.saturate (x * y) ∈ left.mul right := by
  apply mem_corners_saturating _ _ xInside yInside
  · intro fixed _
    rcases le_total 0 fixed with nonneg | nonpos
    · exact .inl fun _ _ _ _ le => Int.mul_le_mul_of_nonneg_right le nonneg
    · exact .inr fun _ _ _ _ le => Int.mul_le_mul_of_nonpos_right le nonpos
  · intro fixed _
    rcases le_total 0 fixed with nonneg | nonpos
    · exact .inl fun _ _ _ _ le => Int.mul_le_mul_of_nonneg_left le nonneg
    · exact .inr fun _ _ _ _ le => Int.mul_le_mul_of_nonpos_left nonpos le

end

section Quotients

variable {quotient : Int → Int → Int}

/-- Corner sampling is sound for any rounding of the quotient that is monotone
in the dividend and, on one side of zero, goes one way in the divisor. -/
theorem mem_corners_quotient
    (upInDividend : ∀ {a b c : Int}, 0 < c → a ≤ b → quotient a c ≤ quotient b c)
    (downInDividend : ∀ {a b c : Int}, c < 0 → a ≤ b → quotient b c ≤ quotient a c)
    (downInDivisor : ∀ {a b c : Int}, 0 ≤ a → 0 < b ∨ c < 0 → b ≤ c →
      quotient a c ≤ quotient a b)
    (upInDivisor : ∀ {a b c : Int}, a ≤ 0 → 0 < b ∨ c < 0 → b ≤ c →
      quotient a b ≤ quotient a c)
    (excludes : ¬(right.start ≤ 0 ∧ 0 ≤ right.last))
    (xInside : x ∈ left) (yInside : y ∈ right) :
    i64.saturate (quotient x y) ∈
      corners (saturating quotient) left right := by
  have oneSide : 0 < right.start ∨ right.last < 0 := by omega
  apply mem_corners_saturating _ _ xInside yInside
  · intro fixed inside
    simp only [mem_iff] at inside
    rcases oneSide with positive | negative
    · exact .inl fun _ _ _ _ le => upInDividend (by omega) le
    · exact .inr fun _ _ _ _ le => downInDividend (by omega) le
  · intro fixed _
    have between : ∀ {b c : Int}, b ∈ Set.Icc right.start right.last →
        c ∈ Set.Icc right.start right.last → 0 < b ∨ c < 0 := by
      intro _ _ bInside cInside
      exact oneSide.imp (fun positive => positive.trans_le bInside.1)
        fun negative => cInside.2.trans_lt negative
    rcases le_total 0 fixed with nonneg | nonpos
    · exact .inr fun _ hb _ hc le => downInDivisor nonneg (between hb hc) le
    · exact .inl fun _ hb _ hc le => upInDivisor nonpos (between hb hc) le

end Quotients

section

variable (excludes : ¬(right.start ≤ 0 ∧ 0 ≤ right.last)) (xInside : x ∈ left) (yInside : y ∈ right)

include excludes xInside yInside

theorem mem_div : i64.saturate (x.tdiv y) ∈ left.div right :=
  mem_corners_quotient Int.tdiv_le_tdiv tdiv_le_tdiv_of_neg
    tdiv_le_tdiv_right_of_nonneg tdiv_le_tdiv_right_of_nonpos
    excludes xInside yInside

/-- The remainder interval needs no saturation: a remainder is no larger than
its dividend. -/
theorem mem_rem : x.tmod y ∈ left.rem right := by
  by_cases exact : (left.isExact && right.isExact) = true
  · rw [rem, if_pos exact]
    rw [Bool.and_eq_true] at exact
    rw [eq_start_of_mem exact.1 xInside, eq_start_of_mem exact.2 yInside]
    exact ⟨le_rfl, le_rfl⟩
  · rw [rem, if_neg exact]
    simp only [mem_iff] at xInside yInside ⊢
    have small : (y.natAbs : Int) ≤ max right.start.natAbs right.last.natAbs := by omega
    have range := tmod_range x small (by omega)
    constructor <;> split_ifs <;> omega

end

/-- Both ends are `i64` values, as the compiler's type says. -/
def Fits (bounds : Bounds Int) : Prop :=
  IntegerFormat.i64.Represents bounds.start ∧ IntegerFormat.i64.Represents bounds.last

theorem Fits.represents {bounds : Bounds Int} (fits : bounds.Fits) {value : Int}
    (member : value ∈ bounds) : i64.Represents value :=
  ⟨fits.1.1.trans member.1, member.2.trans fits.2.2⟩

end Bounds

/-! ## Sampled operations -/

theorem bopBounds_eq_corners (left right : Bounds Int) (operation : Int → Int → Int) :
    bopBounds left right operation = .corners operation left right := by
  unfold bopBounds
  split_ifs with exact
  · simp only [Bool.and_eq_true, Bounds.isExact, decide_eq_true_eq] at exact
    simp [Bounds.corners, Bounds.exact, exact.1, exact.2]
  · rfl

theorem divCeilI64_eq {x y : Int} (fits : i64.Represents x)
    (nonzero : y ≠ 0) :
    divCeilI64 x y = i64.saturate (ceilQuotient x y) := by
  have size : (x.tdiv y).natAbs ≤ x.natAbs := Int.natAbs_tdiv_le_natAbs x y
  rw [divCeilI64, ceilQuotient_eq_tdiv nonzero]
  simp only [eq_iff_iff]
  rw [represents_i64] at fits
  by_cases divides : x.tmod y = 0
  · simp [divides]
  · by_cases sameSign : 0 < x ↔ 0 < y
    · simp only [divides, sameSign, if_false, if_true, ne_eq, not_false_eq_true, and_self,
        saturate]
      change max (-9223372036854775808)
        (min 9223372036854775807 (max (-9223372036854775808)
          (min 9223372036854775807 (x.tdiv y)) + 1)) =
        max (-9223372036854775808) (min 9223372036854775807 (x.tdiv y + 1))
      omega
    · simp [divides, sameSign]

section Sampled

variable {left right : Bounds Int} {x y : Int}

theorem mem_bopBounds_ceilDiv (leftFits : left.Fits)
    (excludes : ¬(right.start ≤ 0 ∧ 0 ≤ right.last))
    (xInside : x ∈ left) (yInside : y ∈ right) :
    i64.saturate (ceilQuotient x y) ∈ bopBounds left right divCeilI64 := by
  have sampled : Bounds.corners divCeilI64 left right =
      Bounds.corners (Bounds.saturating ceilQuotient) left right := by
    simp only [Bounds.mem_iff] at yInside
    have startNonzero : right.start ≠ 0 := by omega
    have lastNonzero : right.last ≠ 0 := by omega
    simp only [Bounds.corners, Bounds.saturating, divCeilI64_eq leftFits.1 startNonzero,
      divCeilI64_eq leftFits.1 lastNonzero, divCeilI64_eq leftFits.2 startNonzero,
      divCeilI64_eq leftFits.2 lastNonzero]
  rw [bopBounds_eq_corners, sampled]
  exact Bounds.mem_corners_quotient ceilQuotient_mono
    ceilQuotient_anti_of_neg ceilQuotient_right_of_nonneg
    ceilQuotient_right_of_nonpos excludes xInside yInside

theorem mem_bopBounds {operation : Int → Int → Int}
    (alongFirst : ∀ fixed,
      OneWay (fun moving => operation moving fixed) left.start left.last)
    (alongSecond : ∀ fixed, OneWay (operation fixed) right.start right.last)
    (xInside : x ∈ left) (yInside : y ∈ right) :
    operation x y ∈ bopBounds left right operation := by
  rw [bopBounds_eq_corners]
  exact Bounds.mem_corners (fun fixed _ => alongFirst fixed) (fun fixed _ => alongSecond fixed)
    xInside yInside

theorem indicator_le {first second : Prop} [Decidable first] [Decidable second]
    (implies : first → second) : indicator first ≤ indicator second := by
  unfold indicator
  split_ifs <;> simp_all

theorem mem_overlapBounds {whenEqual whenDifferent : Int}
    (equalBit : whenEqual ∈ (⟨0, 1⟩ : Bounds Int))
    (differentBit : whenDifferent ∈ (⟨0, 1⟩ : Bounds Int))
    (xInside : x ∈ left) (yInside : y ∈ right) :
    (if x = y then whenEqual else whenDifferent) ∈
      overlapBounds left right whenEqual whenDifferent := by
  unfold overlapBounds
  by_cases exact : (left.isExact && right.isExact) = true
  · rw [if_pos exact]
    rw [Bool.and_eq_true] at exact
    rw [Bounds.eq_start_of_mem exact.1 xInside, Bounds.eq_start_of_mem exact.2 yInside]
    exact ⟨le_rfl, le_rfl⟩
  · rw [if_neg exact]
    by_cases disjoint : left.last < right.start ∨ right.last < left.start
    · have different : x ≠ y := by
        simp only [Bounds.mem_iff] at xInside yInside
        omega
      rw [if_pos disjoint, if_neg different]
      exact ⟨le_rfl, le_rfl⟩
    · rw [if_neg disjoint]
      split_ifs
      · exact equalBit
      · exact differentBit

end Sampled

/-! ## Bitwise operations -/

section Bitwise

variable {left right : Bounds Int}

theorem le_onesOver {value cover : Nat} (covered : value ≤ IntegerInterval.onesOver cover)
    (fits : (value : Int) ≤ i64.maxValue) :
    (value : Int) ≤ onesOver cover := by
  unfold onesOver
  split_ifs
  · exact fits
  · simpa using covered

/-- Two's-complement numbers of up to 64 bits are closed under `&`, `|`, `^`. -/
theorem bitwise_envelope (op : TileBinaryOp) {x y : Int} {bits : Nat}
    (xFits : -(2 ^ bits) ≤ x ∧ x < 2 ^ bits) (yFits : -(2 ^ bits) ≤ y ∧ y < 2 ^ bits) :
    -(2 ^ bits) ≤ op.bitwise x y ∧ op.bitwise x y < 2 ^ bits := by
  rw [← magnitudeBits_lt_iff] at xFits yFits ⊢
  rcases magnitudeBits_bitwise_lt xFits yFits with ⟨landFits, lorFits, xorFits⟩
  cases op with
  | bitAnd => exact landFits
  | bitOr => exact lorFits
  | _ => exact xorFits

theorem bitwise_represents (op : TileBinaryOp) {x y : Int}
    (xFits : i64.Represents x) (yFits : i64.Represents y) :
    i64.Represents (op.bitwise x y) := by
  rw [represents_i64] at xFits yFits ⊢
  have xBits : -(2 ^ 63) ≤ x ∧ x < 2 ^ 63 := by omega
  have yBits : -(2 ^ 63) ≤ y ∧ y < 2 ^ 63 := by omega
  have envelope := bitwise_envelope op xBits yBits
  omega

theorem within_signedBits (value : Int) {bits : Nat} (enough : signedBits value ≤ bits) :
    -(2 ^ (bits - 1)) ≤ value ∧ value < 2 ^ (bits - 1) := by
  rw [← magnitudeBits_lt_iff]
  apply (lt_two_pow_bitLength _).trans_le
  apply Nat.pow_le_pow_right (by decide)
  simp only [signedBits] at enough
  omega

theorem mem_nonnegBitwiseBounds {op : TileBinaryOp} {m n : Nat}
    (bitwise : op = .bitAnd ∨ op = .bitOr ∨ op = .bitXor)
    (leftFits : left.Fits) (rightFits : right.Fits)
    (mInside : (m : Int) ∈ left) (nInside : (n : Int) ∈ right) :
    op.bitwise m n ∈ nonnegBitwiseBounds op left right := by
  have result := bitwise_represents op (leftFits.represents mInside)
    (rightFits.represents nInside)
  obtain ⟨leftLast, leftEq⟩ :=
    Int.eq_ofNat_of_zero_le ((Int.natCast_nonneg m).trans mInside.2)
  obtain ⟨rightLast, rightEq⟩ :=
    Int.eq_ofNat_of_zero_le ((Int.natCast_nonneg n).trans nInside.2)
  have mBound : m ≤ leftLast := by exact_mod_cast leftEq ▸ mInside.2
  have nBound : n ≤ rightLast := by exact_mod_cast rightEq ▸ nInside.2
  have cover := or_xor_le_onesOver mBound nBound
  rcases bitwise with rfl | rfl | rfl
  · have belowLeft : ((m &&& n : Nat) : Int) ≤ m := by exact_mod_cast Nat.and_le_left
    have belowRight : ((m &&& n : Nat) : Int) ≤ n := by exact_mod_cast Nat.and_le_right
    exact ⟨Int.natCast_nonneg _,
      le_min (belowLeft.trans mInside.2) (belowRight.trans nInside.2)⟩
  · have aboveLeft : (m : Int) ≤ (m ||| n : Nat) := by exact_mod_cast Nat.left_le_or
    have aboveRight : (n : Int) ≤ (m ||| n : Nat) := by exact_mod_cast Nat.right_le_or
    rw [nonnegBitwiseBounds, leftEq, rightEq]
    exact ⟨max_le (mInside.1.trans aboveLeft) (nInside.1.trans aboveRight),
      le_onesOver cover.1 result.2⟩
  · simp only [nonnegBitwiseBounds, leftEq, rightEq]
    exact ⟨Int.natCast_nonneg _, le_onesOver cover.2 result.2⟩

theorem mem_bitwiseBounds {op : TileBinaryOp} {x y : Int}
    (bitwise : op = .bitAnd ∨ op = .bitOr ∨ op = .bitXor)
    (leftFits : left.Fits) (rightFits : right.Fits)
    (xInside : x ∈ left) (yInside : y ∈ right) :
    op.bitwise x y ∈ bitwiseBounds op left right := by
  unfold bitwiseBounds
  split_ifs with exact nonneg wide
  · rw [Bool.and_eq_true] at exact
    rw [Bounds.eq_start_of_mem exact.1 xInside, Bounds.eq_start_of_mem exact.2 yInside]
    exact ⟨le_rfl, le_rfl⟩
  · obtain ⟨m, rfl⟩ := Int.eq_ofNat_of_zero_le (nonneg.1.trans xInside.1)
    obtain ⟨n, rfl⟩ := Int.eq_ofNat_of_zero_le (nonneg.2.trans yInside.1)
    exact mem_nonnegBitwiseBounds bitwise leftFits rightFits xInside yInside
  · exact bitwise_represents op (leftFits.represents xInside) (rightFits.represents yInside)
  · -- every endpoint, hence every operand, fits the common width
    have leftStart : signedBits left.start ≤ envelopeBits left right := by
      simp [envelopeBits]
    have leftLast : signedBits left.last ≤ envelopeBits left right := by
      simp [envelopeBits]
    have rightStart : signedBits right.start ≤ envelopeBits left right := by
      simp [envelopeBits]
    have rightLast : signedBits right.last ≤ envelopeBits left right := by
      simp [envelopeBits]
    have result := bitwise_envelope op
      ⟨(within_signedBits _ leftStart).1.trans xInside.1,
        xInside.2.trans_lt (within_signedBits _ leftLast).2⟩
      ⟨(within_signedBits _ rightStart).1.trans yInside.1,
        yInside.2.trans_lt (within_signedBits _ rightLast).2⟩
    exact ⟨result.1, Int.le_sub_one_of_lt result.2⟩

end Bitwise

/-! ## All operations -/

section AllOperations

variable {left right result : Bounds Int} {x y : Int}

theorem indicator_represents (condition : Prop) [Decidable condition] :
    i64.Represents (indicator condition) := by
  unfold indicator
  split_ifs <;> simp

theorem tmod_represents (fits : i64.Represents x) (nonzero : y ≠ 0) :
    i64.Represents (x.tmod y) := by
  have range := tmod_range x le_rfl nonzero
  rw [represents_i64] at fits ⊢
  omega

/-- A result that is already an `i64` is not changed by saturation. -/
theorem saturate_mem {value : Int} (fits : i64.Represents value)
    (inside : value ∈ result) : i64.saturate value ∈ result := by
  rwa [saturate_of_represents _ fits]

theorem guarded_eq_some {bounds : Bounds Int}
    (computed : (if decide (right.start ≤ 0 ∧ 0 ≤ right.last) then none
      else some bounds) = some result) :
    ¬(right.start ≤ 0 ∧ 0 ≤ right.last) ∧ bounds = result := by
  split_ifs at computed with mayBeZero
  simp only [decide_eq_true_eq] at mayBeZero
  exact ⟨mayBeZero, Option.some.inj computed⟩

/-- The computed interval contains the result of the operation, saturated to
`i64`, for any operands inside the operand intervals. -/
theorem boundsFromBop_sound {op : TileBinaryOp}
    (leftFits : left.Fits) (rightFits : right.Fits)
    (computed : boundsFromBop op left right = some result)
    (xInside : x ∈ left) (yInside : y ∈ right) :
    ∃ value, op.mathematical x y = some value ∧
      i64.saturate value ∈ result := by
  have xFits := leftFits.represents xInside
  have yFits := rightFits.represents yInside
  cases op with
  | shl | shr => cases computed
  | div | trueDiv =>
    obtain ⟨excludes, rfl⟩ := guarded_eq_some computed
    exact ⟨_, rfl, Bounds.mem_div excludes xInside yInside⟩
  | ceilDiv =>
    obtain ⟨excludes, rfl⟩ := guarded_eq_some computed
    exact ⟨_, rfl, mem_bopBounds_ceilDiv leftFits excludes xInside yInside⟩
  | rem =>
    obtain ⟨excludes, rfl⟩ := guarded_eq_some computed
    have nonzero : y ≠ 0 := fun zero => excludes (zero ▸ yInside)
    exact ⟨_, rfl, saturate_mem (tmod_represents xFits nonzero)
      (Bounds.mem_rem excludes xInside yInside)⟩
  | add =>
    cases computed
    exact ⟨_, rfl, Bounds.mem_add xInside yInside⟩
  | sub =>
    cases computed
    exact ⟨_, rfl, Bounds.mem_sub xInside yInside⟩
  | mul =>
    cases computed
    exact ⟨_, rfl, Bounds.mem_mul xInside yInside⟩
  | eq =>
    cases computed
    exact ⟨_, rfl, saturate_mem (indicator_represents _)
      (mem_overlapBounds (by decide) (by decide) xInside yInside)⟩
  | ne =>
    cases computed
    have flipped : indicator (x ≠ y) = if x = y then 0 else 1 := by
      simp only [indicator, ne_eq, ite_not]
    refine ⟨_, rfl, saturate_mem (indicator_represents _) ?_⟩
    rw [flipped]
    exact mem_overlapBounds (by decide) (by decide) xInside yInside
  | lt | le =>
    cases computed
    refine ⟨_, rfl, saturate_mem (indicator_represents _) ?_⟩
    apply mem_bopBounds _ _ xInside yInside
    · exact fun fixed => .inr fun _ _ _ _ le => indicator_le (by omega)
    · exact fun fixed => .inl fun _ _ _ _ le => indicator_le (by omega)
  | gt | ge =>
    cases computed
    refine ⟨_, rfl, saturate_mem (indicator_represents _) ?_⟩
    apply mem_bopBounds _ _ xInside yInside
    · exact fun fixed => .inl fun _ _ _ _ le => indicator_le (by omega)
    · exact fun fixed => .inr fun _ _ _ _ le => indicator_le (by omega)
  | min =>
    cases computed
    refine ⟨_, rfl, saturate_mem ⟨le_min xFits.1 yFits.1, min_le_of_left_le xFits.2⟩ ?_⟩
    apply mem_bopBounds _ _ xInside yInside
    · exact fun fixed => .inl fun _ _ _ _ le => min_le_min_right fixed le
    · exact fun fixed => .inl fun _ _ _ _ le => min_le_min_left fixed le
  | max =>
    cases computed
    refine ⟨_, rfl, saturate_mem ⟨le_max_of_le_left xFits.1, max_le xFits.2 yFits.2⟩ ?_⟩
    apply mem_bopBounds _ _ xInside yInside
    · exact fun fixed => .inl fun _ _ _ _ le => max_le_max_right fixed le
    · exact fun fixed => .inl fun _ _ _ _ le => max_le_max_left fixed le
  | bitAnd | bitOr | bitXor =>
    cases computed
    exact ⟨_, rfl, saturate_mem (bitwise_represents _ xFits yFits)
      (mem_bitwiseBounds (by decide) leftFits rightFits xInside yInside)⟩

end AllOperations

end CuTile
