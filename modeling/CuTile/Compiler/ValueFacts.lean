import CuTile.Compiler.BoundsSoundness
import CuTile.Compiler.Value

/-! # Facts about scalar values

How the interval, the symbolic term and the division residue of an operand
become those of a result, and when an interval survives the machine's wrapping.
-/

namespace CuTile

open IntegerFormat Option

variable {Handle : Type}

structure ScalarFacts where
  bounds : Option (Bounds Int)
  term : Option Term
  floorDiv : Option FloorDiv

/-- The range of every machine value of a type, for the types whose intervals
can be trusted. -/
def intValueDomain : ElementType → Option (Bounds Int)
  | .bool => some ⟨0, 1⟩
  | .i32 => some ⟨IntegerFormat.i32.minValue, IntegerFormat.i32.maxValue⟩
  | .u32 => some ⟨0, IntegerFormat.u32.maxValue⟩
  | _ => none

def propagateBounds (op : TileBinaryOp) (lhs rhs : TileRustValue Handle) :
    Option (Bounds Int) := do
  boundsFromBop op (← lhs.bounds) (← rhs.bounds)

/-- A compile-time constant, read off an exact interval. -/
def exactValue (value : TileRustValue Handle) : Option Int :=
  (value.bounds.filter Bounds.isExact).map Bounds.start

def propagateFloorDiv (op : TileBinaryOp) (lhs rhs : TileRustValue Handle) :
    Option FloorDiv := do
  if op ≠ .div then none
  else
    let divisor ← exactValue rhs
    if divisor ≤ 0 then none
    else return ⟨← lhs.term, divisor⟩

/-- An operand's own term, or a constant one from an exact interval. -/
def termOf (value : TileRustValue Handle) : Option Term :=
  value.term.orElse fun _ => (exactValue value).map Term.constant

def propagateTerm (op : TileBinaryOp) (lhs rhs : TileRustValue Handle) : Option Term := do
  let left ← termOf lhs
  let right ← termOf rhs
  match op with
  | .add => left.add right
  | .sub => left.sub right
  | .mul =>
    -- a product stays linear only when one side is constant
    match right.asConstant, left.asConstant with
    | some factor, _ => left.mulConst factor
    | none, some factor => right.mulConst factor
    | none, none => none
  | _ => none

/-- Facts of a result. The interval is kept only inside the type's value domain,
where the mathematical and the machine operation agree. -/
def transfer (op : TileBinaryOp) (lhs rhs : TileRustValue Handle)
    (resultDomain : Option (Bounds Int)) : ScalarFacts where
  bounds := (propagateBounds op lhs rhs).filter fun bounds =>
    resultDomain.any fun domain =>
      domain.start ≤ bounds.start ∧ bounds.last ≤ domain.last
  term := propagateTerm op lhs rhs
  floorDiv := propagateFloorDiv op lhs rhs

/-- One round of the loop of `termRange`. -/
def termRangeStep (atomRange : Atom → Option (Bounds Int)) (range : Bounds Int)
    (entry : Atom × Int) : Option (Bounds Int) := do
  let bounds ← atomRange entry.1
  let first ← IntegerFormat.i64.checked (entry.2 * bounds.start)
  let second ← IntegerFormat.i64.checked (entry.2 * bounds.last)
  let start ← IntegerFormat.i64.checked (range.start + min first second)
  let last ← IntegerFormat.i64.checked (range.last + max first second)
  return ⟨start, last⟩

/-- The range of a term, given a range for each of its atoms. -/
def termRange (term : Term) (atomRange : Atom → Option (Bounds Int)) :
    Option (Bounds Int) :=
  term.coeffs.entries.foldlM (termRangeStep atomRange) ⟨term.constantPart, term.constantPart⟩

/-! ## Soundness of the interval -/

/-- A trusted value domain is the range of the type's machine format, and lies
strictly inside `i64`, so a saturated endpoint never falls into it. -/
theorem intValueDomain_spec {type : ElementType} {domain : Bounds Int}
    (known : intValueDomain type = some domain) :
    ∃ format, type.format = some format ∧
      domain = ⟨format.minValue, format.maxValue⟩ ∧
      i64.minValue < domain.start ∧
      domain.last < i64.maxValue := by
  cases type <;> cases known
  · exact ⟨_, rfl, rfl, by decide, by decide⟩
  · exact ⟨_, rfl, rfl, by decide, by decide⟩
  · exact ⟨_, rfl, rfl, by decide, by decide⟩

theorem propagateBounds_eq_some {op : TileBinaryOp} {lhs rhs : TileRustValue Handle}
    {bounds : Bounds Int} (computed : propagateBounds op lhs rhs = some bounds) :
    ∃ left right, lhs.bounds = some left ∧ rhs.bounds = some right ∧
      boundsFromBop op left right = some bounds := by
  rcases bind_eq_some_iff.mp computed with ⟨left, leftKnown, rest⟩
  rcases bind_eq_some_iff.mp rest with ⟨right, rightKnown, combined⟩
  exact ⟨left, right, leftKnown, rightKnown, combined⟩

/-- An interval that survives the transfer contains the result, and the result
fits the type: the machine operation did not wrap. -/
theorem transfer_bounds_sound {op : TileBinaryOp} {lhs rhs : TileRustValue Handle}
    {type : ElementType} {bounds : Bounds Int} {x y : Int}
    (kept : (transfer op lhs rhs (intValueDomain type)).bounds = some bounds)
    (left : ∀ interval, lhs.bounds = some interval → interval.Fits ∧ x ∈ interval)
    (right : ∀ interval, rhs.bounds = some interval → interval.Fits ∧ y ∈ interval) :
    bounds.Fits ∧ ∃ value format, op.mathematical x y = some value ∧ value ∈ bounds ∧
      type.format = some format ∧ format.Represents value := by
  rcases filter_eq_some_iff.mp kept with ⟨computed, inDomain⟩
  rcases propagateBounds_eq_some computed
    with ⟨leftBounds, rightBounds, leftKnown, rightKnown, combined⟩
  cases known : intValueDomain type with
  | none => simp [known] at inDomain
  | some domain =>
    simp only [known, any_some, decide_eq_true_eq] at inDomain
    rcases intValueDomain_spec known with ⟨format, isFormat, rfl, above, below⟩
    have ⟨leftFits, xInside⟩ := left leftBounds leftKnown
    have ⟨rightFits, yInside⟩ := right rightBounds rightKnown
    rcases boundsFromBop_sound leftFits rightFits combined xInside yInside
      with ⟨value, isValue, saturatedInside⟩
    have lower : bounds.start ≤ value :=
      i64.le_of_le_saturate saturatedInside.1 (above.trans_le inDomain.1)
    have upper : value ≤ bounds.last :=
      i64.le_of_saturate_le saturatedInside.2 (inDomain.2.trans_lt below)
    have ordered := lower.trans upper
    refine ⟨?_, value, format, isValue, ⟨lower, upper⟩, isFormat,
      inDomain.1.trans lower, upper.trans inDomain.2⟩
    exact ⟨⟨(above.trans_le inDomain.1).le, (ordered.trans inDomain.2).trans below.le⟩,
      (above.trans_le inDomain.1).le.trans ordered, inDomain.2.trans below.le⟩

/-! ## Soundness of term ranges -/

section TermRange

variable {atomRange : Atom → Option (Bounds Int)} {valuation : Atom → Int}

theorem mul_mem_scaled (coefficient : Int) {bounds : Bounds Int} {value : Int}
    (inside : value ∈ bounds) :
    min (coefficient * bounds.start) (coefficient * bounds.last) ≤ coefficient * value ∧
      coefficient * value ≤ max (coefficient * bounds.start) (coefficient * bounds.last) := by
  rcases le_total 0 coefficient with nonneg | nonpos
  · exact ⟨min_le_of_left_le (mul_le_mul_of_nonneg_left inside.1 nonneg),
      le_max_of_le_right (mul_le_mul_of_nonneg_left inside.2 nonneg)⟩
  · exact ⟨min_le_of_right_le (mul_le_mul_of_nonpos_left inside.2 nonpos),
      le_max_of_le_left (mul_le_mul_of_nonpos_left inside.1 nonpos)⟩

section

variable (contained : ∀ name bounds, atomRange name = some bounds → valuation name ∈ bounds)

include contained

theorem termRangeStep_sound {range next : Bounds Int} {entry : Atom × Int} {partialSum : Int}
    (inside : partialSum ∈ range) (stepped : termRangeStep atomRange range entry = some next) :
    partialSum + entry.2 * valuation entry.1 ∈ next := by
  simp only [termRangeStep, bind, bind_eq_some_iff, pure,
    checked_eq_some_iff, some.injEq] at stepped
  rcases stepped with ⟨bounds, known, _, ⟨_, rfl⟩, _, ⟨_, rfl⟩, _, ⟨_, rfl⟩, _, ⟨_, rfl⟩, rfl⟩
  have scaled := mul_mem_scaled entry.2 (contained entry.1 bounds known)
  exact ⟨add_le_add inside.1 scaled.1, add_le_add inside.2 scaled.2⟩

theorem foldlM_termRangeStep_sound {entries : List (Atom × Int)} {range final : Bounds Int}
    {partialSum : Int} (inside : partialSum ∈ range)
    (folded : entries.foldlM (termRangeStep atomRange) range = some final) :
    partialSum + (entries.map fun entry => entry.2 * valuation entry.1).sum ∈ final := by
  induction entries generalizing range partialSum with
  | nil =>
    cases folded
    simpa using inside
  | cons _ _ induction =>
    rw [List.foldlM_cons] at folded
    rcases bind_eq_some_iff.mp folded with ⟨_, stepped, folded⟩
    rw [List.map_cons, List.sum_cons, ← add_assoc]
    exact induction (termRangeStep_sound contained inside stepped) folded

end

/-- A term lies in its range when its atoms lie in theirs. -/
theorem termRange_sound {term : Term} {range : Bounds Int}
    (ranged : termRange term atomRange = some range)
    (contained : ∀ name bounds, atomRange name = some bounds → valuation name ∈ bounds) :
    term.value valuation ∈ range := by
  have start : term.constantPart ∈ (⟨term.constantPart, term.constantPart⟩ : Bounds Int) :=
    ⟨le_rfl, le_rfl⟩
  have total := foldlM_termRangeStep_sound contained start ranged
  rwa [add_comm] at total

end TermRange

end CuTile
