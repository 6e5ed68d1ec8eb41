import CuTile.Compiler.BinaryOp

/-! # Soundness of symbolic terms

A term is read over the integers while the machine wraps. Addition, subtraction and
multiplication respect residues, so the two agree up to a multiple of the modulus, also
where an intermediate result overflows.
-/

namespace CuTile

open Fallible Option Term

variable {Leaf Handle : Type}

/-! ## Values of one width -/

def ElementType.width? (type : ElementType) : Option Nat :=
  type.format.map IntegerFormat.width

theorem width?_eq_some {type : ElementType} {width : Nat} (hasWidth : type.width? = some width) :
    ∃ format, type.format = some format ∧ format.width = width :=
  map_eq_some_iff.mp hasWidth

/-- The width tells the types with a trusted value domain from the others. -/
theorem tracked_of_width {type other : ElementType} {width : Nat}
    (tracked : (intValueDomain type).isSome) (hasWidth : type.width? = some width)
    (otherWidth : other.width? = some width) : (intValueDomain other).isSome := by
  rcases tracked_cases tracked with rfl | rfl | rfl <;> cases hasWidth <;>
    cases other <;> first | rfl | cases otherWidth

namespace ScalarExpr

/-- The type of an expression all of whose values are integers of one width. A node may
be annotated with the other signedness. -/
def typeOfWidth? (width : Nat) (leafType : Leaf → ElementType) :
    ScalarExpr Leaf → Option ElementType
  | leaf name =>
    if (leafType name).width? = some width then some (leafType name) else none
  | binary op returnType left right => do
    let leftType ← left.typeOfWidth? width leafType
    let rightType ← right.typeOfWidth? width leafType
    let type := returnType.getD (op.resultType leftType)
    if leftType = rightType ∧ (op.resultType leftType).width? = some width ∧
        type.width? = some width then some type
    else none

/-- The machine value of an expression: every operation wraps in the type of its
operands, and its result is read in the type of the node. -/
def wrapped (shifts : ShiftSemantics) (width : Nat) (leafType : Leaf → ElementType)
    (environment : Leaf → Int) : ScalarExpr Leaf → Option Int
  | leaf name => some (environment name)
  | binary op returnType left right => do
    let operand ← left.typeOfWidth? width leafType
    let format ← (returnType.getD (op.resultType operand)).format
    let x ← left.wrapped shifts width leafType environment
    let y ← right.wrapped shifts width leafType environment
    let value ← machineOp shifts op operand x y
    return format.wrap value

/-- The term of a node: a leaf has its own, an operation propagates those of its lowered
operands. -/
def term? (leaves : Leaf → TileRustValue (IrExpr Leaf)) : ScalarExpr Leaf → Option Term
  | leaf name => (leaves name).term
  | binary op _ left right => do
    propagateTerm op (← (left.compile leaves).toOption) (← (right.compile leaves).toOption)

theorem typeOfWidth?_binary {width : Nat} {leafType : Leaf → ElementType} {op : TileBinaryOp}
    {returnType : Option ElementType} {left right : ScalarExpr Leaf} {type : ElementType}
    (typed : (binary op returnType left right).typeOfWidth? width leafType = some type) :
    ∃ operand, left.typeOfWidth? width leafType = some operand ∧
      right.typeOfWidth? width leafType = some operand ∧
      type = returnType.getD (op.resultType operand) ∧
      (op.resultType operand).width? = some width ∧ type.width? = some width := by
  rcases bind_eq_some_iff.mp typed with ⟨leftType, leftTyped, rest⟩
  rcases bind_eq_some_iff.mp rest with ⟨_, rightTyped, result⟩
  simp only at result
  split_ifs at result with agree
  cases result
  exact ⟨leftType, leftTyped, agree.1 ▸ rightTyped, rfl, agree.2⟩

theorem width_of_typed {width : Nat} {leafType : Leaf → ElementType}
    {expression : ScalarExpr Leaf} {type : ElementType}
    (typed : expression.typeOfWidth? width leafType = some type) : type.width? = some width := by
  cases expression with
  | leaf =>
    simp only [typeOfWidth?] at typed
    split_ifs at typed with hasWidth
    cases typed
    exact hasWidth
  | binary =>
    rcases typeOfWidth?_binary typed with ⟨_, _, _, _, _, hasWidth⟩
    exact hasWidth

end ScalarExpr

/-! ## One operation -/

/-- What is known about a lowered value of a given width is true of its machine value:
its term up to the modulus, its interval where the type has a trusted domain, and a
constant that stands for an absent term. -/
structure TermSound (valuation : Atom → Int) (width : Nat) (lowered : TileRustValue Handle)
    (type : ElementType) (value : Int) : Prop where
  typed : lowered.type = type
  represents : ∀ format, type.format = some format → format.Represents value
  term : ∀ term, lowered.term = some term → value ≡ term.value valuation [ZMOD 2 ^ width]
  interval : (intValueDomain type).isSome → ∀ bounds, lowered.bounds = some bounds →
    bounds.Fits ∧ value ∈ bounds
  exact : lowered.term = none → ∀ bounds, lowered.bounds = some bounds → bounds.isExact →
    value = bounds.start

section Operation

variable {valuation : Atom → Int} {width : Nat} {shifts : ShiftSemantics}

variable {type : ElementType}

theorem TermSound.termOf {lowered : TileRustValue Handle} {value : Int}
    (sound : TermSound valuation width lowered type value) {term : Term}
    (known : termOf lowered = some term) : value ≡ term.value valuation [ZMOD 2 ^ width] := by
  cases own : lowered.term with
  | some =>
    rw [CuTile.termOf, own] at known
    cases known
    exact sound.term term own
  | none =>
    rw [CuTile.termOf, own] at known
    rcases map_eq_some_iff.mp known with ⟨_, isConstant, rfl⟩
    rcases map_eq_some_iff.mp isConstant with ⟨bounds, filtered, rfl⟩
    rcases filter_eq_some_iff.mp filtered with ⟨isBounds, isExact⟩
    rw [value_constant, sound.exact own bounds isBounds isExact]

theorem modEq_of_width {format : IntegerFormat} (hasWidth : format.width = width) (value : Int) :
    format.wrap value ≡ value [ZMOD 2 ^ width] := by
  have congruent := format.wrap_modEq value
  rw [IntegerFormat.modulus, hasWidth] at congruent
  exact_mod_cast congruent

variable {op : TileBinaryOp}

/-- The machine result, read in any type of the width, is the mathematical one up to the
modulus. -/
theorem machineOp_modEq {operand : ElementType} {x y result value : Int}
    (isResult : op.mathematical x y = some result)
    (hasWidth : (op.resultType operand).width? = some width)
    (machine : machineOp shifts op operand x y = some value) : value ≡ result [ZMOD 2 ^ width] := by
  rcases width?_eq_some hasWidth with ⟨_, isFormat, sameWidth⟩
  rw [machineOp, isFormat, isResult] at machine
  cases machine
  exact modEq_of_width sameWidth result

/-- A propagated term is the mathematical result of the operation up to the modulus. -/
theorem propagateTerm_modEq {lhs rhs : TileRustValue Handle} {leftType rightType : ElementType}
    {x y : Int} {term : Term} (left : TermSound valuation width lhs leftType x)
    (right : TermSound valuation width rhs rightType y)
    (propagated : propagateTerm op lhs rhs = some term) :
    ∃ result, op.mathematical x y = some result ∧
      result ≡ term.value valuation [ZMOD 2 ^ width] := by
  rcases bind_eq_some_iff.mp propagated with ⟨_, isLeft, propagated⟩
  rcases bind_eq_some_iff.mp propagated with ⟨_, isRight, propagated⟩
  have leftModEq := left.termOf isLeft
  have rightModEq := right.termOf isRight
  cases op with
  | add =>
    refine ⟨x + y, rfl, ?_⟩
    rw [value_add valuation propagated]
    exact leftModEq.add rightModEq
  | sub =>
    refine ⟨x - y, rfl, ?_⟩
    rw [value_sub valuation propagated]
    exact leftModEq.sub rightModEq
  | mul =>
    refine ⟨x * y, rfl, ?_⟩
    have product := leftModEq.mul rightModEq
    simp only at propagated
    split at propagated
    · rename_i factor isFactor
      rw [value_of_asConstant valuation isFactor] at product
      rw [value_mulConst valuation propagated]
      exact product
    · rename_i factor _ isFactor
      rw [value_of_asConstant valuation isFactor, mul_comm factor] at product
      rw [value_mulConst valuation propagated]
      exact product
    · cases propagated
  | _ => cases propagated

variable {lhs rhs : TileRustValue (IrExpr Leaf)}

theorem binaryOpFacts_ok {facts : ScalarFacts}
    (computed : binaryOpFacts op lhs rhs type = .ok facts) :
    facts.term = propagateTerm op lhs rhs ∧ ∀ bounds, facts.bounds = some bounds →
      (transfer op lhs rhs (intValueDomain type)).bounds = some bounds := by
  unfold binaryOpFacts at computed
  split_ifs at computed with both kinds
  · cases computed
    exact ⟨rfl, fun bounds kept => kept⟩
  · cases computed
    refine ⟨rfl, fun bounds kept => ?_⟩
    cases kept

/-- A lowered operation is a constant, when its interval is a single value, or carries the
facts that were propagated to it. -/
theorem compileBinaryOpFromValues_cases {lowered : TileRustValue (IrExpr Leaf)}
    {returnType : Option ElementType}
    (compiled : compileBinaryOpFromValues lhs rhs op returnType = .ok lowered) :
    lowered.type = returnType.getD (op.resultType lhs.type) ∧
      (∀ bounds, lowered.bounds = some bounds →
        (transfer op lhs rhs (intValueDomain lowered.type)).bounds = some bounds) ∧
      ∀ term, lowered.term = some term → propagateTerm op lhs rhs = some term := by
  unfold compileBinaryOpFromValues at compiled
  split_ifs at compiled with types
  split at compiled
  · cases compiled
  · cases compiled
  · simp only [bind_eq_ok_iff] at compiled
    rcases compiled with ⟨_, _, facts, computed, compiled⟩
    rcases binaryOpFacts_ok computed with ⟨isTerm, kept⟩
    split at compiled
    · rename_i bounds exactly
      rcases filter_eq_some_iff.mp exactly with ⟨isBounds, isExact⟩
      unfold compileConstantFromExactBounds at compiled
      rw [isExact] at compiled
      simp only [Bool.not_true, Bool.false_eq_true, if_false] at compiled
      split at compiled
      · cases compiled
      · cases compiled
        refine ⟨rfl, fun known isKnown => ?_, by simp⟩
        cases isKnown
        exact kept bounds isBounds
    · cases compiled
      exact ⟨rfl, kept, fun term isTerm' => isTerm ▸ isTerm'⟩

/-- Intervals are kept only for types with a trusted value domain. -/
theorem tracked_of_transfer {lhs rhs : TileRustValue Handle} {bounds : Bounds Int}
    (kept : (transfer op lhs rhs (intValueDomain type)).bounds = some bounds) :
    (intValueDomain type).isSome := by
  rcases filter_eq_some_iff.mp kept with ⟨_, inDomain⟩
  cases known : intValueDomain type with
  | none => simp [known] at inDomain
  | some => rfl

/-- One node: what is known about the operands being true, so is what the lowering
concludes. -/
theorem compileBinaryOpFromValues_termSound {lowered : TileRustValue (IrExpr Leaf)}
    {operand : ElementType} {returnType : Option ElementType} {x y result : Int}
    {format : IntegerFormat} (left : TermSound valuation width lhs operand x)
    (right : TermSound valuation width rhs operand y) (operandWidth : operand.width? = some width)
    (isType : type = returnType.getD (op.resultType operand))
    (resultWidth : (op.resultType operand).width? = some width)
    (typeWidth : type.width? = some width) (isFormat : type.format = some format)
    (machine : machineOp shifts op operand x y = some result)
    (compiled : compileBinaryOpFromValues lhs rhs op returnType = .ok lowered) :
    TermSound valuation width lowered type (format.wrap result) := by
  rcases compileBinaryOpFromValues_cases compiled with ⟨typed, kept, terms⟩
  rw [left.typed, ← isType] at typed
  rw [typed] at kept
  have hasWidth : format.width = width := by
    rw [ElementType.width?, isFormat] at typeWidth
    exact some.inj typeWidth
  have interval (bounds : Bounds Int) (isBounds : lowered.bounds = some bounds) :
      bounds.Fits ∧ format.wrap result ∈ bounds := by
    have tracked := tracked_of_transfer (kept bounds isBounds)
    have operandTracked := tracked_of_width tracked typeWidth operandWidth
    rcases transfer_bounds_sound (kept bounds isBounds) (left.interval operandTracked)
      (right.interval operandTracked) with ⟨fits, exact, _, isExact, inside, isFormat', small⟩
    rw [isFormat] at isFormat'
    cases isFormat'
    have congruent := machineOp_modEq isExact resultWidth machine
    rw [← hasWidth] at congruent
    have unwrapped : format.wrap result = exact :=
      format.wrap_eq_of_modEq (by exact_mod_cast congruent) small
    exact ⟨fits, unwrapped ▸ inside⟩
  refine ⟨typed, ?_, ?_, fun _ => interval, ?_⟩
  · intro other isOther
    rw [isFormat] at isOther
    cases isOther
    exact format.wrap_represents result
  · intro term isTerm
    rcases propagateTerm_modEq left right (terms term isTerm) with ⟨exact, isExact, congruent⟩
    exact (modEq_of_width hasWidth result).trans
      ((machineOp_modEq isExact resultWidth machine).trans congruent)
  · intro _ bounds isBounds isExact
    exact Bounds.eq_start_of_mem isExact (interval bounds isBounds).2

end Operation

/-! ## Expressions -/

namespace ScalarExpr

variable {valuation : Atom → Int} {width : Nat} {shifts : ShiftSemantics}
  {leaves : Leaf → TileRustValue (IrExpr Leaf)} {leafType : Leaf → ElementType}
  {environment : Leaf → Int}

variable {type : ElementType}

theorem wrapped_binary (shifts : ShiftSemantics) {op : TileBinaryOp}
    {returnType : Option ElementType} {left right : ScalarExpr Leaf} {operand : ElementType}
    {x y : Int} (leftTyped : left.typeOfWidth? width leafType = some operand)
    (isType : type = returnType.getD (op.resultType operand))
    (resultWidth : (op.resultType operand).width? = some width)
    (typeWidth : type.width? = some width)
    (leftWrapped : left.wrapped shifts width leafType environment = some x)
    (rightWrapped : right.wrapped shifts width leafType environment = some y) :
    ∃ format result, type.format = some format ∧ format.width = width ∧
      machineOp shifts op operand x y = some result ∧
      (binary op returnType left right).wrapped shifts width leafType environment =
        some (format.wrap result) := by
  rcases width?_eq_some typeWidth with ⟨format, isFormat, hasWidth⟩
  rcases width?_eq_some resultWidth with ⟨_, isResultFormat, _⟩
  have machine : ∃ result, machineOp shifts op operand x y = some result := by
    rw [machineOp, isResultFormat]
    exact ⟨_, rfl⟩
  rcases machine with ⟨result, machine⟩
  refine ⟨format, result, isFormat, hasWidth, machine, ?_⟩
  simp only [wrapped, leftTyped, leftWrapped, rightWrapped, ← isType, isFormat, machine, bind,
    bind_some, pure]

/-- Every expression of one width has a machine value, and what its lowering knows is
true of that. -/
theorem compile_termSound (shifts : ShiftSemantics)
    (sound : ∀ name, TermSound valuation width (leaves name) (leafType name) (environment name))
    {expression : ScalarExpr Leaf} (typed : expression.typeOfWidth? width leafType = some type) :
    ∃ value, expression.wrapped shifts width leafType environment = some value ∧
      ∀ lowered, expression.compile leaves = .ok lowered →
        TermSound valuation width lowered type value := by
  induction expression generalizing type with
  | leaf name =>
    simp only [typeOfWidth?] at typed
    split_ifs at typed
    cases typed
    refine ⟨environment name, rfl, fun lowered compiled => ?_⟩
    cases compiled
    exact sound name
  | binary _ _ _ _ leftInduction rightInduction =>
    rcases typeOfWidth?_binary typed
      with ⟨_, leftTyped, rightTyped, isType, resultWidth, typeWidth⟩
    rcases leftInduction leftTyped with ⟨x, leftWrapped, leftSound⟩
    rcases rightInduction rightTyped with ⟨y, rightWrapped, rightSound⟩
    rcases wrapped_binary shifts leftTyped isType resultWidth typeWidth leftWrapped rightWrapped
      with ⟨format, result, isFormat, _, machine, isWrapped⟩
    refine ⟨format.wrap result, isWrapped, fun lowered compiled => ?_⟩
    rcases bind_eq_ok_iff.mp compiled with ⟨lhs, isLhs, compiled⟩
    rcases bind_eq_ok_iff.mp compiled with ⟨rhs, isRhs, compiled⟩
    exact compileBinaryOpFromValues_termSound (leftSound lhs isLhs) (rightSound rhs isRhs)
      (width_of_typed leftTyped) isType resultWidth typeWidth isFormat machine compiled

/-- The term of a node is its machine value up to the modulus, and the machine value is
one of the node's type. -/
theorem term?_modEq (shifts : ShiftSemantics)
    (sound : ∀ name, TermSound valuation width (leaves name) (leafType name) (environment name))
    {node : ScalarExpr Leaf} {term : Term} (typed : node.typeOfWidth? width leafType = some type)
    (known : node.term? leaves = some term) :
    ∃ format value, type.format = some format ∧ format.width = width ∧
      node.wrapped shifts width leafType environment = some value ∧
      format.Represents value ∧ value ≡ term.value valuation [ZMOD 2 ^ width] := by
  cases node with
  | leaf name =>
    rcases width?_eq_some (width_of_typed typed) with ⟨format, isFormat, hasWidth⟩
    simp only [typeOfWidth?] at typed
    split_ifs at typed
    cases typed
    exact ⟨format, environment name, isFormat, hasWidth, rfl,
      (sound name).represents format isFormat, (sound name).term term known⟩
  | binary =>
    rcases typeOfWidth?_binary typed
      with ⟨_, leftTyped, rightTyped, isType, resultWidth, typeWidth⟩
    rcases compile_termSound shifts sound leftTyped with ⟨x, leftWrapped, leftSound⟩
    rcases compile_termSound shifts sound rightTyped with ⟨y, rightWrapped, rightSound⟩
    rcases wrapped_binary shifts leftTyped isType resultWidth typeWidth leftWrapped rightWrapped
      with ⟨format, result, isFormat, hasWidth, machine, isWrapped⟩
    rcases bind_eq_some_iff.mp known with ⟨lhs, isLhs, known⟩
    rcases bind_eq_some_iff.mp known with ⟨rhs, isRhs, known⟩
    rcases propagateTerm_modEq (leftSound lhs (toOption_eq_some isLhs))
      (rightSound rhs (toOption_eq_some isRhs)) known with ⟨exact, isExact, congruent⟩
    refine ⟨format, format.wrap result, isFormat, hasWidth, isWrapped,
      format.wrap_represents result, ?_⟩
    exact (modEq_of_width hasWidth result).trans
      ((machineOp_modEq isExact resultWidth machine).trans congruent)

/-- At every node of an expression of one width, a propagated term is the machine value up
to the modulus; a node whose term is a bare atom has the atom's value, if the type of the
node can hold it. -/
theorem propagated_term_congruent (shifts : ShiftSemantics) (valuation : Atom → Int)
    (environment : Leaf → Int)
    (sound : ∀ name, TermSound valuation width (leaves name) (leafType name) (environment name))
    (expression : ScalarExpr Leaf) (type : ElementType)
    (typed : expression.typeOfWidth? width leafType = some type) :
    ∀ node ∈ expression.subtrees, ∀ term, node.term? leaves = some term →
      ∃ nodeType format value, node.typeOfWidth? width leafType = some nodeType ∧
        nodeType.format = some format ∧
        node.wrapped shifts width leafType environment = some value ∧
        value ≡ term.value valuation [ZMOD 2 ^ width] ∧
        ∀ name, term = Term.atom name → format.Represents (valuation name) →
          value = valuation name := by
  have subtrees : ∀ node ∈ expression.subtrees,
      ∃ type, node.typeOfWidth? width leafType = some type := by
    refine forall_subtrees (fun ⟨_, typed⟩ => ?_) ⟨type, typed⟩
    rcases typeOfWidth?_binary typed with ⟨operand, leftTyped, rightTyped, _⟩
    exact ⟨⟨operand, leftTyped⟩, operand, rightTyped⟩
  intro node member term known
  rcases subtrees node member with ⟨nodeType, nodeTyped⟩
  rcases term?_modEq shifts sound nodeTyped known
    with ⟨format, value, isFormat, hasWidth, isWrapped, represents, congruent⟩
  refine ⟨nodeType, format, value, nodeTyped, isFormat, isWrapped, congruent, ?_⟩
  intro _ isAtom fits
  rw [isAtom, value_atom, ← hasWidth] at congruent
  exact format.eq_of_modEq (by exact_mod_cast congruent) represents fits

def blockIdAndOne (name : Bool) : TileRustValue (IrExpr Bool) :=
  if name then
    { kind := .primitiveType, value := some (.leaf true), type := .i32
      term := some (.atom (.tileBlockId 0)) }
  else
    { kind := .primitiveType, value := some (.leaf false), type := .i32
      bounds := some (.exact 1) }

/-- `(b + 1) - 1` overflows on the way and still is `b`. -/
theorem propagated_term_congruent_cancelling :
    let sum : ScalarExpr Bool := .binary .add none (.leaf true) (.leaf false)
    let cancelled : ScalarExpr Bool := .binary .sub none sum (.leaf false)
    let environment (name : Bool) : Int := if name then 2147483647 else 1
    sum.wrapped (fun _ _ _ _ => 0) 32 (fun _ => .i32) environment = some (-2147483648) ∧
    cancelled.term? blockIdAndOne = some (.atom (.tileBlockId 0)) ∧
    cancelled.wrapped (fun _ _ _ _ => 0) 32 (fun _ => .i32) environment =
      some 2147483647 := by
  intro sum cancelled environment
  have known : cancelled.term? blockIdAndOne = some (.atom (.tileBlockId 0)) := by decide
  refine ⟨rfl, known, ?_⟩
  have sound (name : Bool) : TermSound (fun _ => 2147483647) 32 (blockIdAndOne name) .i32
      (environment name) := by
    cases name with
    | true =>
      refine ⟨rfl, ?_, ?_, fun _ => nofun, fun _ => nofun⟩
      · rintro _ ⟨⟩
        decide
      · rintro _ ⟨⟩
        exact Int.ModEq.refl _
    | false =>
      refine ⟨rfl, ?_, nofun, ?_, ?_⟩
      · rintro _ ⟨⟩
        decide
      · rintro _ _ ⟨⟩
        simp [Bounds.Fits, Bounds.exact, environment]
      · rintro _ _ ⟨⟩ _
        rfl
  rcases propagated_term_congruent (fun _ _ _ _ => 0) _ environment sound cancelled .i32 rfl
    cancelled List.mem_cons_self _ known with ⟨_, _, _, typed, isFormat, isWrapped, _, isAtom⟩
  cases typed
  cases isFormat
  rw [isWrapped, isAtom _ rfl (by decide)]

end ScalarExpr

end CuTile
