import CuTile.Checks.Placement

/-! # Reading generated code over the integers

Generated code has a machine value and, ignoring the width of the machine, an exact
one. This module relates the two: code none of whose operations wraps has both, and
the rules below keep track of when that is the case while code is emitted.
-/

namespace CuTile

open IntegerFormat Bounds

/-- The value of generated code over the integers. -/
def IrExpr.exact (environment : Environment) : IrExpr SsaValue → Option Int
  | leaf value => some (environment value)
  | constant _ data => some data
  | binary op _ left right => do
    op.mathematical (← left.exact environment) (← right.exact environment)

/-- Every value in the code is an `i32`, so that no operation wraps. -/
def IrExpr.NoWrap (environment : Environment) : IrExpr SsaValue → Prop
  | leaf value => IntegerFormat.i32.Represents (environment value)
  | constant type data => type = .i32 ∧ IntegerFormat.i32.Represents data
  | binary op operand left right =>
    left.NoWrap environment ∧ right.NoWrap environment ∧ operand = .i32 ∧
      op.resultType .i32 = .i32 ∧
      ∃ x y value, left.exact environment = some x ∧ right.exact environment = some y ∧
        op.mathematical x y = some value ∧ IntegerFormat.i32.Represents value

/-- Code that does not wrap computes its exact value, which is an `i32`. -/
theorem IrExpr.NoWrap.eval (shifts : ShiftSemantics) {environment : Environment}
    {code : IrExpr SsaValue} (noWrap : code.NoWrap environment) :
    ∃ value, code.exact environment = some value ∧ code.eval shifts environment = some value ∧
      i32.Represents value := by
  induction code with
  | leaf handle => exact ⟨environment handle, rfl, rfl, noWrap⟩
  | constant _ data =>
    rcases noWrap with ⟨rfl, represents⟩
    refine ⟨data, rfl, ?_, represents⟩
    exact congrArg some (wrap_of_represents _ represents)
  | binary op _ _ _ leftInduction rightInduction =>
    rcases noWrap
      with ⟨leftNoWrap, rightNoWrap, rfl, isType, x, y, value, isX, isY, isValue, represents⟩
    rcases leftInduction leftNoWrap with ⟨_, isX', leftEval, _⟩
    rcases rightInduction rightNoWrap with ⟨_, isY', rightEval, _⟩
    rw [isX] at isX'
    rw [isY] at isY'
    cases isX'
    cases isY'
    have isFormat : (op.resultType .i32).format = some .i32 := by
      rw [isType]
      rfl
    refine ⟨value, ?_, ?_, represents⟩
    · rw [IrExpr.exact, isX, isY]
      exact isValue
    · rw [IrExpr.eval, leftEval, rightEval]
      exact machineOp_of_represents isValue isFormat represents

/-! ## Emitted values -/

def Emitted.NoWrap (environment : Environment) (lowered : Emitted) : Prop :=
  ∀ code, lowered.value = some code → code.NoWrap environment

/-- An emitted scalar reads as `value`, and what is known about it is true of that. -/
structure Reads (environment : Environment) (lowered : Emitted) (value : Int) : Prop where
  kind : lowered.kind = .primitiveType
  typed : lowered.type = .i32
  code : ∃ code, lowered.value = some code ∧ code.exact environment = some value
  interval : ∀ bounds, lowered.bounds = some bounds → bounds.Fits ∧ value ∈ bounds

/-- The value wraps nowhere exactly under `condition`. An interval is kept only for
values that do not wrap. -/
structure Tracks (environment : Environment) (lowered : Emitted) (value : Int)
    (condition : Prop) : Prop extends Reads environment lowered value where
  noWrap_iff : lowered.NoWrap environment ↔ condition
  bounded : lowered.bounds.isSome → condition

variable {lowered : Emitted}

theorem Emitted.noWrap_iff {environment : Environment} {code : IrExpr SsaValue}
    (isCode : lowered.value = some code) :
    lowered.NoWrap environment ↔ code.NoWrap environment := by
  constructor
  · intro noWrap
    exact noWrap code isCode
  · intro noWrap other isOther
    rw [isCode] at isOther
    cases isOther
    exact noWrap

variable {environment : Environment}

def Emitted.Computes (shifts : ShiftSemantics) (environment : Environment) (lowered : Emitted)
    (value : Int) : Prop :=
  ∃ code, lowered.value = some code ∧ code.eval shifts environment = some value

/-- No operation of the code wraps, and its machine value is its exact one. -/
structure Emitted.Exact (shifts : ShiftSemantics) (environment : Environment)
    (lowered : Emitted) : Prop where
  noWrap : lowered.NoWrap environment
  value : ∃ code value, lowered.value = some code ∧ code.exact environment = some value ∧
    code.eval shifts environment = some value

variable {value : Int}

theorem Reads.exact_iff (reads : Reads environment lowered value) (shifts : ShiftSemantics) :
    lowered.Exact shifts environment ↔ lowered.NoWrap environment := by
  constructor
  · exact Emitted.Exact.noWrap
  · intro noWrap
    rcases reads.code with ⟨code, isCode, _⟩
    rcases (noWrap code isCode).eval shifts with ⟨result, isExact, isMachine, _⟩
    exact ⟨noWrap, code, result, isCode, isExact, isMachine⟩

theorem Emitted.Computes.unique {shifts : ShiftSemantics} {other : Int}
    (first : lowered.Computes shifts environment value)
    (second : lowered.Computes shifts environment other) : other = value := by
  rcases first with ⟨_, isCode, isValue⟩
  rcases second with ⟨_, isCode', isOther⟩
  rw [isCode] at isCode'
  cases isCode'
  rw [isValue] at isOther
  exact (Option.some.inj isOther).symm

section Machine

variable {lowered : Emitted} {value : Int} {condition : Prop}

section

variable (tracks : Tracks environment lowered value condition)

include tracks

/-- A value that does not wrap is an `i32`, and it is what the machine computes. -/
theorem Tracks.machine (shifts : ShiftSemantics) (holds : condition) :
    lowered.Computes shifts environment value ∧ i32.Represents value := by
  rcases tracks.code with ⟨code, isCode, isValue⟩
  have noWrap := tracks.noWrap_iff.mpr holds code isCode
  rcases noWrap.eval shifts with ⟨_, isValue', isMachine, represents⟩
  rw [isValue] at isValue'
  cases isValue'
  exact ⟨⟨code, isCode, isMachine⟩, represents⟩

theorem Tracks.represents (holds : condition) : i32.Represents value :=
  (tracks.machine (fun _ _ _ _ => 0) holds).2

theorem Tracks.represents_of_le {smaller : Int} (nonneg : 0 ≤ smaller) (below : smaller ≤ value)
    (holds : condition) : i32.Represents smaller :=
  represents_i32_of_le nonneg below (tracks.represents holds)

end

end Machine

theorem newPrimitive_tracks (handle : SsaValue) :
    Tracks environment (newPrimitive handle .i32) (environment handle)
      (i32.Represents (environment handle)) where
  kind := rfl
  typed := rfl
  code := ⟨.leaf handle, rfl, rfl⟩
  interval := nofun
  noWrap_iff := by
    have isCode : (newPrimitive handle .i32).value = some (.leaf handle) := rfl
    rw [Emitted.noWrap_iff isCode, IrExpr.NoWrap]
  bounded := nofun

/-- The generator succeeds, and what it emits tracks the value. -/
def Produces (environment : Environment) (generator : Except Failure Emitted) (value : Int)
    (condition : Prop) : Prop :=
  ∃ lowered, generator = .ok lowered ∧ Tracks environment lowered value condition

theorem constant_produces {bounds : Bounds Int} (exact : bounds.isExact) (fits : bounds.Fits)
    (inside : value ∈ bounds) (represents : i32.Represents value) :
    Produces environment (compileConstantFromExactBounds bounds .i32) value True := by
  have same : value = bounds.start := eq_start_of_mem exact inside
  have data : constantData .i32 bounds.start = value := by
    rw [← same]
    exact wrap_of_represents .i32 represents
  have compiled : compileConstantFromExactBounds bounds .i32 = .ok
      { kind := .primitiveType
        value := some (.constant .i32 (constantData .i32 bounds.start))
        type := .i32
        bounds := some bounds : Emitted } := by
    simp only [compileConstantFromExactBounds, exact]
    rfl
  refine ⟨_, compiled, ⟨rfl, rfl, ⟨_, rfl, ?_⟩, ?_⟩, ?_, fun _ => trivial⟩
  · exact congrArg some data
  · intro known isKnown
    cases isKnown
    exact ⟨fits, inside⟩
  · rw [Emitted.noWrap_iff rfl, IrExpr.NoWrap, data]
    exact iff_of_true ⟨rfl, represents⟩ trivial

theorem compileConstant_produces (represents : i32.Represents value) :
    Produces environment (compileConstant value) value True := by
  have wide : i64.Represents value := by
    rw [represents_i32] at represents
    rw [represents_i64]
    omega
  have isExact : (exact value).isExact := by simp [isExact, exact]
  exact constant_produces isExact ⟨wide, wide⟩ ⟨le_rfl, le_rfl⟩ represents

/-- An operation reads as the mathematical one. It adds to the condition that its
result is an `i32`; where the compiler keeps an interval or folds, all of this is
known already. -/
theorem emitOp_produces (op : TileBinaryOp) {lhs rhs : Emitted} {x y : Int}
    {first second condition : Prop} (left : Tracks environment lhs x first)
    (right : Tracks environment rhs y second) (supported : op ≠ .trueDiv)
    (isType : op.resultType .i32 = .i32) (isValue : op.mathematical x y = some value)
    (means : first ∧ second ∧ i32.Represents value ↔ condition) :
    Produces environment (emitOp op lhs rhs) value condition := by
  rcases left.code with ⟨_, leftValue, isX⟩
  rcases right.code with ⟨_, rightValue, isY⟩
  rcases binaryOpFacts_spec op .i32 left.kind right.kind left.interval
    right.interval with ⟨facts, computed, interval⟩
  have kept : ∀ bounds, facts.bounds = some bounds →
      condition ∧ bounds.Fits ∧ value ∈ bounds ∧ i32.Represents value := by
    intro bounds isBounds
    rcases interval bounds isBounds
      with ⟨leftKnown, rightKnown, fits, value', _, isValue', inside, isFormat, small⟩
    rw [isValue] at isValue'
    cases isValue'
    rw [isType] at isFormat
    cases isFormat
    exact ⟨means.mp ⟨left.bounded leftKnown, right.bounded rightKnown, small⟩, fits, inside,
      small⟩
  have annotated : (none : Option ElementType).getD (op.resultType .i32) =
      op.resultType .i32 := rfl
  rw [emitOp, compileBinaryOpFromValues_eq left.typed right.typed leftValue rightValue rfl
    supported annotated computed]
  cases folded : facts.bounds.filter isExact with
  | some bounds =>
    rcases Option.filter_eq_some_iff.mp folded with ⟨isBounds, exact⟩
    rcases kept bounds isBounds with ⟨holds, fits, inside, small⟩
    rw [isType, eq_true holds]
    exact constant_produces exact fits inside small
  | none =>
    refine ⟨_, rfl, ⟨left.kind, isType, ⟨_, rfl, ?_⟩, ?_⟩, ?_, ?_⟩
    · rw [IrExpr.exact, isX, isY]
      exact isValue
    · intro bounds isBounds
      exact (kept bounds isBounds).2 |>.imp_right And.left
    · rw [Emitted.noWrap_iff rfl, ← means, ← left.noWrap_iff, ← right.noWrap_iff,
        Emitted.noWrap_iff leftValue, Emitted.noWrap_iff rightValue, IrExpr.NoWrap]
      refine and_congr_right fun _ => and_congr_right fun _ => ⟨?_, ?_⟩
      · rintro ⟨_, _, _, _, value', isX', isY', isValue', small⟩
        rw [isX] at isX'
        rw [isY] at isY'
        cases isX'
        cases isY'
        rw [isValue] at isValue'
        cases isValue'
        exact small
      · intro small
        exact ⟨rfl, isType, x, y, value, isX, isY, isValue, small⟩
    · intro isKnown
      rcases Option.isSome_iff_exists.mp isKnown with ⟨bounds, isBounds⟩
      exact (kept bounds isBounds).1

/-- An operation that cannot wrap once its operands do not. -/
theorem emitOp_within (op : TileBinaryOp) {lhs rhs : Emitted} {x y : Int}
    {first second condition : Prop} (left : Tracks environment lhs x first)
    (right : Tracks environment rhs y second) (supported : op ≠ .trueDiv)
    (isType : op.resultType .i32 = .i32) (isValue : op.mathematical x y = some value)
    (means : first ∧ second ↔ condition) (small : condition → i32.Represents value) :
    Produces environment (emitOp op lhs rhs) value condition := by
  apply emitOp_produces op left right supported isType isValue
  rw [← and_assoc, means]
  exact and_iff_left_of_imp small

end CuTile
