import CuTile.Compiler.ValueFacts
import CuTile.Foundation.Fallible

/-! # Lowering of binary operations

Scalar expressions are lowered bottom-up. Each node gets generated code and
facts; a node whose interval is a single value is replaced by a constant.
-/

namespace CuTile

open Option Bounds

variable {Leaf : Type}

namespace TileBinaryOp

def isComparison : TileBinaryOp → Bool
  | eq | ne | lt | le | gt | ge => true
  | _ => false

def debugName : TileBinaryOp → String
  | add => "Add"
  | sub => "Sub"
  | mul => "Mul"
  | div => "Div"
  | ceilDiv => "CeilDiv"
  | trueDiv => "TrueDiv"
  | rem => "Rem"
  | eq => "Eq"
  | ne => "Ne"
  | lt => "Lt"
  | le => "Le"
  | gt => "Gt"
  | ge => "Ge"
  | min => "Min"
  | max => "Max"
  | bitAnd => "BitAnd"
  | bitOr => "BitOr"
  | bitXor => "BitXor"
  | shl => "Shl"
  | shr => "Shr"

def resultType (op : TileBinaryOp) (operand : ElementType) : ElementType :=
  if op.isComparison then .bool else operand

/-- Operations with no floating-point opcode. -/
def integerOnly : TileBinaryOp → Bool
  | ceilDiv | bitAnd | bitOr | bitXor | shl | shr => true
  | _ => false

end TileBinaryOp

/-! ## Generated code -/

/-- Generated scalar code: an operation's operands are themselves operations,
down to values that are defined elsewhere. -/
inductive IrExpr (Leaf : Type) where
  | leaf (value : Leaf)
  | constant (type : ElementType) (data : Int)
  | binary (op : TileBinaryOp) (operand : ElementType) (left right : IrExpr Leaf)
deriving DecidableEq

/-- What the device computes for a shift. The amount may be out of range, where
the operation has no agreed result. -/
abbrev ShiftSemantics := TileBinaryOp → ElementType → Int → Int → Int

/-- A machine operation: the mathematical result, wrapped to the width of the
result type and read with its signedness. -/
def machineOp (shifts : ShiftSemantics) (op : TileBinaryOp) (operand : ElementType)
    (left right : Int) : Option Int :=
  (op.resultType operand).format.map fun format =>
    format.wrap ((op.mathematical left right).getD (shifts op operand left right))

def IrExpr.eval (shifts : ShiftSemantics) (environment : Leaf → Int) :
    IrExpr Leaf → Option Int
  | leaf value => some (environment value)
  | constant type data => type.format.map fun format => format.wrap data
  | binary op operand left right => do
    machineOp shifts op operand (← left.eval shifts environment)
      (← right.eval shifts environment)

/-- The bit pattern stored for a constant, read as a signed number. A boolean
stores all ones for any nonzero value. -/
def constantData : ScalarType → Int → Int
  | .i1, value => if value ≠ 0 then 1 else 0
  | .i4, value => value % 16
  | .i8, value => value.bmod (2 ^ 8)
  | .i16, value => value.bmod (2 ^ 16)
  | .i32, value => value.bmod (2 ^ 32)
  | .i64, value | .f16, value | .bf16, value | .f32, value | .f64, value => value

def compileConstantFromExactBounds (bounds : Bounds Int) (type : ElementType) :
    Except Failure (TileRustValue (IrExpr Leaf)) :=
  if !bounds.isExact then
    .error (.jitError ("expected a compile-time constant, but got a value with bounds "
      ++ s!"[{bounds.start}, {bounds.last}]"))
  else
    match type.cudaTile with
    | none => .error (.jitError "failed to compile constant value")
    | some scalar =>
      .ok { kind := .primitiveType
            value := some (.constant type (constantData scalar bounds.start))
            type
            bounds := some bounds }

/-- Whether the operand type has an opcode for the operation. -/
def checkOpcode (op : TileBinaryOp) (operand : ElementType) : Except Failure Unit :=
  match operand.cudaTile with
  | none =>
    .error (.jitError s!"unable to determine compiled element type for `{op.debugName}`")
  | some .i1 | some .i4 | some .i8 | some .i32 | some .i64 =>
    if op = .trueDiv then
      .error (.jitError s!"Unimplemented binary op {op.debugName}")
    else .ok ()
  | some .bf16 | some .f16 | some .f32 | some .f64 =>
    if op.integerOnly then
      .error (.jitError s!"Unimplemented binary op {op.debugName}")
    else .ok ()
  | some .i16 =>
    .error (.jitError s!"Binary operation is not implemented for {operand.name}")

/-- Facts of a lowered operation. Intervals need scalar operands on both sides;
the symbolic facts also propagate when only one side has an interval. -/
def binaryOpFacts (op : TileBinaryOp) (lhs rhs : TileRustValue (IrExpr Leaf))
    (type : ElementType) : Except Failure ScalarFacts :=
  if lhs.bounds.isSome && rhs.bounds.isSome then
    if lhs.kind = .primitiveType ∧ rhs.kind = .primitiveType then
      .ok (transfer op lhs rhs (intValueDomain type))
    else
      .error (.jitError ("Expected PrimitiveType for binary op bounds, got "
        ++ s!"lhs={lhs.kind.debugName}, rhs={rhs.kind.debugName}"))
  else
    .ok ⟨none, propagateTerm op lhs rhs, propagateFloorDiv op lhs rhs⟩

def compileBinaryOpFromValues (lhs rhs : TileRustValue (IrExpr Leaf)) (op : TileBinaryOp)
    (returnType : Option ElementType) : Except Failure (TileRustValue (IrExpr Leaf)) :=
  if lhs.type ≠ rhs.type then
    .error (.jitError (s!"binary `{op.debugName}` requires operands of the same type, "
      ++ s!"but got `{lhs.type.name}` and `{rhs.type.name}`"))
  else
    match lhs.value, rhs.value with
    | none, _ =>
      .error (.jitError "left-hand side of binary operation did not produce a value")
    | some _, none =>
      .error (.jitError "right-hand side of binary operation did not produce a value")
    | some left, some right => do
      checkOpcode op lhs.type
      let type := returnType.getD (op.resultType lhs.type)
      let facts ← binaryOpFacts op lhs rhs type
      match facts.bounds.filter Bounds.isExact with
      | some bounds => compileConstantFromExactBounds bounds type
      | none =>
        return { kind := lhs.kind
                 value := some (.binary op lhs.type left right)
                 type
                 bounds := facts.bounds
                 term := facts.term
                 floorDiv := facts.floorDiv }

/-! ## Scalar expressions -/

/-- A source expression over scalar leaves. A node may carry the type its
context expects. -/
inductive ScalarExpr (Leaf : Type) where
  | leaf (value : Leaf)
  | binary (op : TileBinaryOp) (returnType : Option ElementType)
      (left right : ScalarExpr Leaf)

namespace ScalarExpr

def compile (leaves : Leaf → TileRustValue (IrExpr Leaf)) :
    ScalarExpr Leaf → Except Failure (TileRustValue (IrExpr Leaf))
  | leaf value => .ok (leaves value)
  | binary op returnType left right => do
    compileBinaryOpFromValues (← left.compile leaves) (← right.compile leaves) op returnType

/-- The type of a well-typed expression over `i32`, `u32` and `bool`. -/
def type? (leafType : Leaf → ElementType) : ScalarExpr Leaf → Option ElementType
  | leaf value =>
    if (intValueDomain (leafType value)).isSome then some (leafType value) else none
  | binary op returnType left right => do
    let leftType ← left.type? leafType
    let rightType ← right.type? leafType
    if leftType = rightType ∧ op ≠ .trueDiv ∧
        returnType.getD (op.resultType leftType) = op.resultType leftType then
      some (op.resultType leftType)
    else none

def machine (shifts : ShiftSemantics) (leafType : Leaf → ElementType)
    (environment : Leaf → Int) : ScalarExpr Leaf → Option Int
  | leaf value => some (environment value)
  | binary op _ left right => do
    machineOp shifts op (← left.type? leafType)
      (← left.machine shifts leafType environment)
      (← right.machine shifts leafType environment)

def subtrees : ScalarExpr Leaf → List (ScalarExpr Leaf)
  | leaf value => [leaf value]
  | binary op returnType left right =>
    binary op returnType left right :: (left.subtrees ++ right.subtrees)

end ScalarExpr

/-! ## Soundness of the lowering -/

section Soundness

variable {shifts : ShiftSemantics} {environment : Leaf → Int}

/-- What a lowered node owes to the machine value of the expression: its code
computes the value, its interval contains it, and the value fits the type. -/
structure NodeSound (shifts : ShiftSemantics) (environment : Leaf → Int)
    (lowered : TileRustValue (IrExpr Leaf)) (type : ElementType) (value : Int) : Prop where
  kind : lowered.kind = .primitiveType
  typed : lowered.type = type
  tracked : (intValueDomain type).isSome
  code : ∃ ir, lowered.value = some ir ∧ ir.eval shifts environment = some value
  interval : ∀ bounds, lowered.bounds = some bounds → bounds.Fits ∧ value ∈ bounds

variable {type : ElementType}

theorem tracked_cases (tracked : (intValueDomain type).isSome) :
    type = .bool ∨ type = .i32 ∨ type = .u32 := by
  cases type <;> simp_all [intValueDomain]

theorem tracked_resultType (tracked : (intValueDomain type).isSome) (op : TileBinaryOp) :
    (intValueDomain (op.resultType type)).isSome := by
  unfold TileBinaryOp.resultType
  split_ifs
  · rfl
  · exact tracked

variable {op : TileBinaryOp}

theorem checkOpcode_of_tracked (tracked : (intValueDomain type).isSome)
    (supported : op ≠ .trueDiv) : checkOpcode op type = .ok () := by
  rcases tracked_cases tracked with rfl | rfl | rfl <;>
    simp [checkOpcode, ElementType.cudaTile, supported]

variable {format : IntegerFormat}

theorem constantData_spec {value : Int} (tracked : (intValueDomain type).isSome)
    (isFormat : type.format = some format) (fits : format.Represents value) :
    ∃ scalar, type.cudaTile = some scalar ∧
      format.wrap (constantData scalar value) = value := by
  rcases tracked_cases tracked with rfl | rfl | rfl <;> cases isFormat <;>
    refine ⟨_, rfl, ?_⟩
  · have lower : 0 ≤ value := fits.1
    have upper : value ≤ 1 := fits.2
    have bit : value = 0 ∨ value = 1 := by omega
    rcases bit with rfl | rfl <;> rfl
  · exact IntegerFormat.wrap_eq_of_modEq _ Int.bmod_emod fits
  · exact IntegerFormat.wrap_eq_of_modEq _ Int.bmod_emod fits

theorem compileConstant_sound (shifts : ShiftSemantics) (environment : Leaf → Int)
    {bounds : Bounds Int} {value : Int} (exact : bounds.isExact)
    (tracked : (intValueDomain type).isSome) (isFormat : type.format = some format)
    (represents : format.Represents value) (fits : bounds.Fits) (inside : value ∈ bounds) :
    ∃ lowered, compileConstantFromExactBounds bounds type = .ok lowered ∧
      NodeSound shifts environment lowered type value := by
  rcases constantData_spec tracked isFormat represents with ⟨_, isScalar, reads⟩
  have same : value = bounds.start := eq_start_of_mem exact inside
  refine ⟨_, by simp only [compileConstantFromExactBounds, exact, isScalar]; rfl, ?_⟩
  refine ⟨rfl, rfl, tracked, ⟨_, rfl, ?_⟩, ?_⟩
  · rw [IrExpr.eval, isFormat, map_some, ← same, reads]
  · intro interval known
    cases known
    exact ⟨fits, inside⟩

theorem machineOp_of_represents {x y value : Int} (isValue : op.mathematical x y = some value)
    (isFormat : (op.resultType type).format = some format) (fits : format.Represents value) :
    machineOp shifts op type x y = some value := by
  rw [machineOp, isFormat, map_some, isValue, getD_some,
    format.wrap_of_represents fits]

theorem machineOp_exists (shifts : ShiftSemantics) (op : TileBinaryOp)
    (tracked : (intValueDomain type).isSome) (x y : Int) :
    ∃ value, machineOp shifts op type x y = some value := by
  rcases isSome_iff_exists.mp (tracked_resultType tracked op) with ⟨_, known⟩
  rcases intValueDomain_spec known with ⟨_, isFormat, _⟩
  exact ⟨_, by rw [machineOp, isFormat]; rfl⟩

variable {lhs rhs : TileRustValue (IrExpr Leaf)}

/-- The interval of a lowered operation, when there is one, contains the
mathematical result, which fits its type; both operands then have intervals. -/
theorem binaryOpFacts_spec (op : TileBinaryOp) (type : ElementType) {x y : Int}
    (leftKind : lhs.kind = .primitiveType) (rightKind : rhs.kind = .primitiveType)
    (left : ∀ bounds, lhs.bounds = some bounds → bounds.Fits ∧ x ∈ bounds)
    (right : ∀ bounds, rhs.bounds = some bounds → bounds.Fits ∧ y ∈ bounds) :
    ∃ facts, binaryOpFacts op lhs rhs (op.resultType type) = .ok facts ∧
      ∀ bounds, facts.bounds = some bounds → lhs.bounds.isSome ∧ rhs.bounds.isSome ∧
        bounds.Fits ∧ ∃ value format, op.mathematical x y = some value ∧ value ∈ bounds ∧
          (op.resultType type).format = some format ∧ format.Represents value := by
  unfold binaryOpFacts
  split_ifs with both kinds
  · rcases Bool.and_eq_true_iff.mp both with ⟨leftKnown, rightKnown⟩
    exact ⟨_, rfl, fun bounds kept =>
      ⟨leftKnown, rightKnown, transfer_bounds_sound kept left right⟩⟩
  · exact absurd ⟨leftKind, rightKind⟩ kinds
  · refine ⟨_, rfl, fun bounds impossible => ?_⟩
    cases impossible

/-- Lowering folds a node whose interval is a single value. -/
theorem compileBinaryOpFromValues_eq {returnType : Option ElementType} {left right : IrExpr Leaf}
    {facts : ScalarFacts} (leftTyped : lhs.type = type) (rightTyped : rhs.type = type)
    (leftValue : lhs.value = some left) (rightValue : rhs.value = some right)
    (tracked : (intValueDomain type).isSome) (supported : op ≠ .trueDiv)
    (annotated : returnType.getD (op.resultType type) = op.resultType type)
    (computed : binaryOpFacts op lhs rhs (op.resultType type) = .ok facts) :
    compileBinaryOpFromValues lhs rhs op returnType =
      match facts.bounds.filter isExact with
      | some bounds => compileConstantFromExactBounds bounds (op.resultType type)
      | none => .ok
          { kind := lhs.kind
            value := some (.binary op type left right)
            type := op.resultType type
            bounds := facts.bounds
            term := facts.term
            floorDiv := facts.floorDiv } := by
  simp only [compileBinaryOpFromValues, leftTyped, rightTyped, leftValue, rightValue,
    ne_eq, not_true_eq_false, if_false, checkOpcode_of_tracked tracked supported,
    annotated, computed, bind, Except.bind, pure, Except.pure]

theorem compileBinaryOpFromValues_sound {returnType : Option ElementType} {x y : Int}
    (left : NodeSound shifts environment lhs type x)
    (right : NodeSound shifts environment rhs type y) (supported : op ≠ .trueDiv)
    (annotated : returnType.getD (op.resultType type) = op.resultType type) :
    ∃ lowered value, compileBinaryOpFromValues lhs rhs op returnType = .ok lowered ∧
      machineOp shifts op type x y = some value ∧
      NodeSound shifts environment lowered (op.resultType type) value := by
  rcases left.code with ⟨_, leftValue, leftEval⟩
  rcases right.code with ⟨_, rightValue, rightEval⟩
  rcases binaryOpFacts_spec op type left.kind right.kind left.interval right.interval
    with ⟨facts, computed, interval⟩
  rw [compileBinaryOpFromValues_eq left.typed right.typed leftValue rightValue left.tracked
    supported annotated computed]
  cases folded : facts.bounds.filter isExact with
  | some bounds =>
    rcases filter_eq_some_iff.mp folded with ⟨kept, exact⟩
    rcases interval bounds kept
      with ⟨_, _, fits, value, format, isValue, inside, isFormat, small⟩
    rcases compileConstant_sound shifts environment exact
      (tracked_resultType left.tracked op) isFormat small fits inside
      with ⟨lowered, compiled, sound⟩
    exact ⟨lowered, value, compiled, machineOp_of_represents isValue isFormat small, sound⟩
  | none =>
    rcases machineOp_exists shifts op left.tracked x y
      with ⟨value, machine⟩
    refine ⟨_, value, rfl, machine, left.kind, rfl, tracked_resultType left.tracked op,
      ⟨_, rfl, ?_⟩, ?_⟩
    · simp only [IrExpr.eval, leftEval, rightEval, bind, bind_some, machine]
    · intro bounds kept
      rcases interval bounds kept
        with ⟨_, _, fits, exact, format, isValue, inside, isFormat, small⟩
      have same : exact = value := by
        rw [machineOp_of_represents isValue isFormat small] at machine
        exact some.inj machine
      exact ⟨fits, same ▸ inside⟩

namespace ScalarExpr

variable {leaves : Leaf → TileRustValue (IrExpr Leaf)} {leafType : Leaf → ElementType}

/-- The facts attached to a leaf are true of its machine value. -/
def LeafSound (leaves : Leaf → TileRustValue (IrExpr Leaf)) (leafType : Leaf → ElementType)
    (environment : Leaf → Int) (name : Leaf) : Prop :=
  (leaves name).kind = .primitiveType ∧ (leaves name).type = leafType name ∧
    (leaves name).value = some (.leaf name) ∧
    ∀ bounds, (leaves name).bounds = some bounds →
      bounds.Fits ∧ environment name ∈ bounds

variable {type : ElementType}

theorem type?_binary {op : TileBinaryOp} {returnType : Option ElementType}
    {left right : ScalarExpr Leaf}
    (typed : (binary op returnType left right).type? leafType = some type) :
    ∃ operand, left.type? leafType = some operand ∧ right.type? leafType = some operand ∧
      op ≠ .trueDiv ∧ returnType.getD (op.resultType operand) = op.resultType operand ∧
      type = op.resultType operand := by
  rcases bind_eq_some_iff.mp typed with ⟨leftType, leftTyped, rest⟩
  rcases bind_eq_some_iff.mp rest with ⟨_, rightTyped, result⟩
  split_ifs at result with agree
  rcases agree with ⟨rfl, supported, annotated⟩
  exact ⟨leftType, leftTyped, rightTyped, supported, annotated,
    (some.inj result).symm⟩

/-- Every well-typed expression is lowered, and soundly. -/
theorem compile_nodeSound (sound : ∀ name, LeafSound leaves leafType environment name)
    {expression : ScalarExpr Leaf} (typed : expression.type? leafType = some type) :
    ∃ lowered value, expression.compile leaves = .ok lowered ∧
      expression.machine shifts leafType environment = some value ∧
      NodeSound shifts environment lowered type value := by
  induction expression generalizing type with
  | leaf name =>
    simp only [type?] at typed
    split_ifs at typed with tracked
    cases typed
    rcases sound name with ⟨kind, leafTyped, code, interval⟩
    exact ⟨_, _, rfl, rfl, kind, leafTyped, tracked, ⟨_, code, rfl⟩, interval⟩
  | binary _ _ _ _ leftInduction rightInduction =>
    rcases type?_binary typed
      with ⟨_, leftTyped, rightTyped, supported, annotated, rfl⟩
    rcases leftInduction leftTyped with ⟨_, x, leftCompiled, leftMachine, leftSound⟩
    rcases rightInduction rightTyped with ⟨_, y, rightCompiled, rightMachine, rightSound⟩
    rcases compileBinaryOpFromValues_sound leftSound rightSound supported annotated
      with ⟨lowered, value, compiled, machine, nodeSound⟩
    refine ⟨lowered, value, ?_, ?_, nodeSound⟩
    · simp only [compile, leftCompiled, rightCompiled, bind, Except.bind, compiled]
    · simp only [ScalarExpr.machine, leftTyped, leftMachine, rightMachine, bind,
        bind_some, machine]

theorem forall_subtrees {Good : ScalarExpr Leaf → Prop}
    (operands : ∀ {op returnType left right}, Good (binary op returnType left right) →
      Good left ∧ Good right) {expression : ScalarExpr Leaf} (good : Good expression) :
    ∀ node ∈ expression.subtrees, Good node := by
  induction expression with
  | leaf => exact List.forall_mem_singleton.mpr good
  | binary _ _ _ _ leftInduction rightInduction =>
    rcases operands good with ⟨left, right⟩
    exact List.forall_mem_cons.mpr ⟨good,
      List.forall_mem_append.mpr ⟨leftInduction left, rightInduction right⟩⟩

/-- At every node of a well-typed expression, the interval kept for the node
contains its machine value, and the code generated for it, folded or not,
computes that value. -/
theorem compile_interval_sound (shifts : ShiftSemantics) (environment : Leaf → Int)
    (sound : ∀ name, LeafSound leaves leafType environment name)
    (expression : ScalarExpr Leaf) (type : ElementType)
    (typed : expression.type? leafType = some type) :
    ∀ node ∈ expression.subtrees, ∃ lowered value,
      node.compile leaves = .ok lowered ∧
      node.machine shifts leafType environment = some value ∧
      (∀ bounds, lowered.bounds = some bounds → value ∈ bounds) ∧
      ∃ ir, lowered.value = some ir ∧ ir.eval shifts environment = some value := by
  have subtrees : ∀ node ∈ expression.subtrees, ∃ type, node.type? leafType = some type := by
    refine forall_subtrees (fun ⟨_, typed⟩ => ?_) ⟨type, typed⟩
    rcases type?_binary typed with ⟨operand, leftTyped, rightTyped, _⟩
    exact ⟨⟨operand, leftTyped⟩, operand, rightTyped⟩
  intro node member
  rcases subtrees node member with ⟨_, nodeTyped⟩
  rcases compile_nodeSound sound nodeTyped with ⟨lowered, value, compiled, machine, nodeSound⟩
  exact ⟨lowered, value, compiled, machine,
    fun bounds kept => (nodeSound.interval bounds kept).2, nodeSound.code⟩

/-- The remainder of a bounded index by four, at index seven. -/
theorem compile_interval_sound_remainder :
    let index : TileRustValue (IrExpr Bool) :=
      { kind := .primitiveType, value := some (.leaf true), type := .i32
        bounds := some ⟨0, 10⟩ }
    let four : TileRustValue (IrExpr Bool) :=
      { kind := .primitiveType, value := some (.leaf false), type := .i32
        bounds := some (.exact 4) }
    let remainder := ScalarExpr.binary .rem none (.leaf true) (.leaf false)
    ∃ lowered value,
      remainder.compile (fun name => if name then index else four) = .ok lowered ∧
      remainder.machine (fun _ _ _ _ => 0) (fun _ => .i32)
        (fun name => if name then 7 else 4) = some value ∧
      (∀ bounds, lowered.bounds = some bounds → value ∈ bounds) ∧
      ∃ ir, lowered.value = some ir ∧
        ir.eval (fun _ _ _ _ => 0) (fun name => if name then 7 else 4) = some value := by
  intro index four remainder
  refine compile_interval_sound _ _ (fun name => ?_) remainder .i32 (by decide) remainder
    (by simp [remainder, subtrees])
  cases name <;> refine ⟨rfl, rfl, rfl, fun bounds known => ?_⟩ <;> cases known <;>
    simp [Fits, exact]

end ScalarExpr

end Soundness

end CuTile
