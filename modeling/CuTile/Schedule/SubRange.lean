import CuTile.Checks.Emission

/-! # Sub-range iteration

A mapped loop may traverse a part of each axis, given as pairs of a start tile and a
number of tiles. Each pair is tested against the grid, at compile time where the
operands are known and by asserts of the kernel elsewhere.
-/

namespace CuTile

open IntegerFormat Fallible

/-- An assert of the kernel: the code of its condition and its message. -/
structure RangeAssert where
  condition : IrExpr SsaValue
  message : String

/-- What validation leaves for one axis: the start that is added to its coordinates,
unless it is zero, the tiles to traverse and the asserts emitted. -/
structure AxisRange where
  start : Option Emitted
  len : Emitted
  coversFullGrid : Bool
  asserts : List RangeAssert

namespace FunctionCompiler

variable (compiler : FunctionCompiler)

def emitRangeAssert (axis : Nat) (op : TileBinaryOp) (lhs rhs : Emitted)
    (detail : String) : Except Failure RangeAssert := do
  let cmp ← emitOp op lhs rhs
  match cmp.value with
  | none => .error (.jitError "failed to compile sub-range bounds comparison")
  | some condition =>
    compiler.denyResidualCheck
      s!"the mapped-partition sub-range check for axis {axis} ({detail})"
      ("Use compile-time-constant sub-range bounds so the check discharges "
        ++ "at compile time")
    return ⟨condition,
      s!"mapped partition sub-range out of bounds: axis {axis}: {detail}"⟩

/-- An operand that is not known has to be tested against zero. -/
def assertNonnegative (axis : Nat) (operand : Emitted) (detail : String) :
    Except Failure (List RangeAssert) :=
  match exactValue operand with
  | some _ => .ok []
  | none => do
    let zero ← compileConstant 0
    return [← compiler.emitRangeAssert axis .ge operand zero detail]

/-- The rest of the axis is in range when its start is. -/
def assertRemainder (axis : Nat) (start grid : Emitted) :
    Except Failure (List RangeAssert) :=
  let emitted : Except Failure (List RangeAssert) := do
    return [← compiler.emitRangeAssert axis .le start grid "start exceeds the logical grid"]
  match exactValue start, exactValue grid with
  | some first, some tiles =>
    if tiles < first then
      .error (.jitError
        s!"sub-range axis {axis} start {first} exceeds the {tiles}-tile grid")
    else .ok []
  -- The whole axis is in range for any grid.
  | some first, none => if first = 0 then .ok [] else emitted
  | none, _ => emitted

/-- The end of an explicit range, tested without adding its start and its length. -/
def assertEnd (axis : Nat) (start len grid : Emitted) : Except Failure (List RangeAssert) :=
  match exactValue start, exactValue len, exactValue grid with
  | some first, some count, some tiles =>
    if tiles < first + count then
      .error (.jitError (s!"sub-range axis {axis} [{first}, {first + count}) "
        ++ s!"exceeds the {tiles}-tile grid"))
    else .ok []
  | _, _, _ => do
    let gridMinusLen ← emitOp .sub grid len
    return [← compiler.emitRangeAssert axis .le start gridMinusLen
      "range end exceeds the logical grid"]

/-- A known operand below the lowest value it may have. -/
def rejectBelow (lowest : Int) (operand : Emitted) (message : Int → String) :
    Except Failure Unit :=
  match exactValue operand with
  | some known => if known < lowest then .error (.jitError (message known)) else .ok ()
  | none => .ok ()

/-- Ranges that are wrong whatever the grid is. -/
def rejectNegative (axis : Nat) (start len : Emitted) : Except Failure Unit := do
  rejectBelow 0 start fun first => s!"sub-range axis {axis} start {first} is negative"
  rejectBelow (-1) len fun count =>
    s!"sub-range axis {axis} length {count} is negative (-1 means the rest of the axis)"

/-- An explicit length is nonnegative and ends inside the grid. -/
def assertExplicit (axis : Nat) (start len grid : Emitted) :
    Except Failure (List RangeAssert) := do
  return (← compiler.assertNonnegative axis len
      "length is negative (the -1 rest-of-axis spelling must be a literal)")
    ++ (← compiler.assertEnd axis start len grid)

/-- The literal length -1 stands for the rest of the axis. -/
def isRemainder (len : Emitted) : Bool := exactValue len = some (-1)

def emitLength (start len grid : Emitted) : Except Failure Emitted :=
  if isRemainder len then emitOp .sub grid start else .ok len

def coversFullGrid (start len grid : Emitted) : Bool :=
  exactValue start = some 0 &&
    (isRemainder len || ((exactValue len).isSome && exactValue len = exactValue grid))

/-- The asserts of one axis, in the order they are emitted. -/
def assertRange (axis : Nat) (start len grid : Emitted) :
    Except Failure (List RangeAssert) := do
  return (← compiler.assertNonnegative axis start "start is negative")
    ++ (← if isRemainder len then compiler.assertRemainder axis start grid
      else compiler.assertExplicit axis start len grid)

def validateSubRange (axis : Nat) (start len grid : Emitted) : Except Failure AxisRange := do
  rejectNegative axis start len
  let effective ← emitLength start len grid
  let asserts ← compiler.assertRange axis start len grid
  return {
    start := if exactValue start = some 0 then none else some start
    len := effective
    coversFullGrid := coversFullGrid start len grid
    asserts }

/-- The pairs of the axes from `axis` on, each against its own tile count. -/
def validateAxes : Nat → List (Option (List Emitted)) → List Emitted →
    Except Failure (List AxisRange)
  | axis, some [start, len] :: ranges, grid :: indexSpace => do
    let range ← compiler.validateSubRange axis start len grid
    return range :: (← validateAxes (axis + 1) ranges indexSpace)
  | axis, _ :: _, _ :: _ =>
    .error (.jitError
      s!"sub-range axis {axis} must be a (start_tile, num_tiles) pair")
  | _, _, _ => .ok []

/-- The array of pairs a mapped loop was given. A compound value holds its parts, any
other value holds none. -/
def validateSubRanges (indexSpace : List Emitted)
    (ranges : Option (List (Option (List Emitted)))) : Except Failure (List AxisRange) :=
  match ranges with
  | none =>
    .error (.jitError
      "sub-range iteration expects an array of (start_tile, num_tiles) pairs")
  | some ranges =>
    if ranges.length ≠ indexSpace.length then
      .error (.jitError (s!"sub-range iteration expects {indexSpace.length} "
        ++ s!"(start_tile, num_tiles) pairs, got {ranges.length}"))
    else compiler.validateAxes 0 ranges indexSpace

end FunctionCompiler

/-- A coordinate of the schedule counts from the start of the range. -/
def offsetCoordinate (start : Option Emitted) (bid : Emitted) : Except Failure Emitted :=
  match start with
  | none => .ok bid
  | some start => emitOp .add start bid

/-! ## What the asserts enforce -/

def Passes (shifts : ShiftSemantics) (environment : Environment)
    (asserts : List RangeAssert) : Prop :=
  ∀ assert ∈ asserts, assert.condition.eval shifts environment = some 1

/-- The generated asserts pass exactly where the condition holds, and nothing else
stands in its way once residual checks are allowed. -/
structure Enforces (compiler : FunctionCompiler) (shifts : ShiftSemantics)
    (environment : Environment) (generated : Except Failure (List RangeAssert))
    (condition : Prop) : Prop where
  exact : ∀ asserts, generated = .ok asserts →
    (Passes shifts environment asserts ↔ condition)
  accepts : compiler.denyInKernelChecks = false → condition →
    ∃ asserts, generated = .ok asserts

section Enforces

variable {compiler : FunctionCompiler} {shifts : ShiftSemantics} {environment : Environment}

theorem passes_append {first second : List RangeAssert} :
    Passes shifts environment (first ++ second) ↔
      Passes shifts environment first ∧ Passes shifts environment second :=
  List.forall_mem_append

theorem Enforces.of_true {condition : Prop} (holds : condition) :
    Enforces compiler shifts environment (.ok []) condition := by
  constructor
  · intro asserts isOk
    cases isOk
    exact ⟨fun _ => holds, nofun⟩
  · intro _ _
    exact ⟨[], rfl⟩

theorem Enforces.of_static {condition : Prop} {error : Failure} [Decidable condition] :
    Enforces compiler shifts environment
      (if ¬condition then .error error else .ok []) condition := by
  by_cases holds : condition
  · rw [if_neg (not_not_intro holds)]
    exact .of_true holds
  · rw [if_pos holds]
    exact ⟨nofun, fun _ isTrue => absurd isTrue holds⟩

theorem Enforces.congr {generated : Except Failure (List RangeAssert)} {first second : Prop}
    (enforces : Enforces compiler shifts environment generated first)
    (same : first ↔ second) : Enforces compiler shifts environment generated second :=
  propext same ▸ enforces

theorem Enforces.append {left right : Except Failure (List RangeAssert)} {first second : Prop}
    (enforcesLeft : Enforces compiler shifts environment left first)
    (enforcesRight : Enforces compiler shifts environment right second) :
    Enforces compiler shifts environment (do return (← left) ++ (← right))
      (first ∧ second) := by
  constructor
  · intro asserts isOk
    simp only [bind_eq_ok_iff] at isOk
    rcases isOk with ⟨early, isLeft, late, isRight, ⟨⟩⟩
    rw [passes_append, enforcesLeft.exact early isLeft, enforcesRight.exact late isRight]
  · intro allowed both
    rcases enforcesLeft.accepts allowed both.1 with ⟨early, isLeft⟩
    rcases enforcesRight.accepts allowed both.2 with ⟨late, isRight⟩
    exact ⟨early ++ late, by rw [isLeft, isRight]; rfl⟩

theorem eq_of_exactValue {lowered : Emitted} {type : ElementType} {value known : Int}
    (sound : NodeSound shifts environment lowered type value)
    (isExact : exactValue lowered = some known) : value = known := by
  rcases Option.map_eq_some_iff.mp isExact with ⟨bounds, kept, rfl⟩
  rcases Option.filter_eq_some_iff.mp kept with ⟨isBounds, exact⟩
  exact Bounds.eq_start_of_mem exact (sound.interval bounds isBounds).2

theorem enforces_emitRangeAssert (axis : Nat) (op : TileBinaryOp) {lhs rhs : Emitted}
    {x y : Int} {verdict : Prop} [Decidable verdict] (detail : String)
    (left : NodeSound shifts environment lhs .i32 x)
    (right : NodeSound shifts environment rhs .i32 y) (supported : op ≠ .trueDiv)
    (isBool : op.resultType .i32 = .bool)
    (isValue : op.mathematical x y = some (indicator verdict)) :
    Enforces compiler shifts environment
      (do return [← compiler.emitRangeAssert axis op lhs rhs detail]) verdict := by
  rcases emitOp_flag op left right supported isBool isValue with ⟨_, compiled, sound⟩
  rcases sound.code with ⟨condition, isCode, evaluates⟩
  have unfolded : compiler.emitRangeAssert axis op lhs rhs detail = (do
      compiler.denyResidualCheck
        s!"the mapped-partition sub-range check for axis {axis} ({detail})"
        ("Use compile-time-constant sub-range bounds so the check discharges "
          ++ "at compile time")
      return ⟨condition,
        s!"mapped partition sub-range out of bounds: axis {axis}: {detail}"⟩) := by
    rw [FunctionCompiler.emitRangeAssert, compiled, ok_bind, isCode]
  rw [unfolded]
  constructor
  · intro asserts isOk
    rcases bind_eq_ok_iff.mp isOk with ⟨_, isAssert, isOk⟩
    rcases bind_eq_ok_iff.mp isAssert with ⟨_, _, isAssert⟩
    cases isAssert
    cases isOk
    simp [Passes, evaluates, indicator]
  · intro allowed _
    simp [FunctionCompiler.denyResidualCheck, allowed]

end Enforces

/-! ## The range of one axis -/

/-- A range of tiles inside the grid, over the integers. -/
def InGrid (start len tiles : Int) : Prop := 0 ≤ start ∧ 0 ≤ len ∧ start + len ≤ tiles

/-- The tiles a pair asks for: the rest of the axis for the literal -1. -/
def effectiveLength (lenCode : Emitted) (start len tiles : Int) : Int :=
  if FunctionCompiler.isRemainder lenCode then tiles - start else len

/-- The operands of one axis where the kernel runs: machine values inside what the
compiler knows of them, and a tile count. -/
structure AxisOperands (shifts : ShiftSemantics) (environment : Environment)
    (startCode lenCode gridCode : Emitted) (start len tiles : Int) : Prop where
  startSound : NodeSound shifts environment startCode .i32 start
  lenSound : NodeSound shifts environment lenCode .i32 len
  gridSound : NodeSound shifts environment gridCode .i32 tiles
  startMachine : IntegerFormat.i32.Represents start
  lenMachine : IntegerFormat.i32.Represents len
  gridMachine : IntegerFormat.i32.Represents tiles
  gridNonneg : 0 ≤ tiles

section Axis

variable {compiler : FunctionCompiler} {shifts : ShiftSemantics} {environment : Environment}
  {startCode lenCode gridCode : Emitted} {start len tiles : Int}

theorem rejectBelow_eq_ok_iff {lowest : Int} {operand : Emitted} {message : Int → String} :
    FunctionCompiler.rejectBelow lowest operand message = .ok () ↔
      ∀ known, exactValue operand = some known → lowest ≤ known := by
  unfold FunctionCompiler.rejectBelow
  cases exactValue operand with
  | none => simp
  | some known =>
    by_cases below : known < lowest
    · simp [below]
    · simp [below, not_lt.mp below]

theorem rejectNegative_eq_ok_iff {axis : Nat} :
    FunctionCompiler.rejectNegative axis startCode lenCode = .ok () ↔
      (∀ first, exactValue startCode = some first → 0 ≤ first) ∧
        ∀ count, exactValue lenCode = some count → -1 ≤ count := by
  rw [FunctionCompiler.rejectNegative, bind_eq_ok_iff, ← rejectBelow_eq_ok_iff,
    ← rejectBelow_eq_ok_iff]
  exact ⟨fun ⟨_, first, second⟩ => ⟨first, second⟩,
    fun ⟨first, second⟩ => ⟨(), first, second⟩⟩

theorem enforces_assertNonnegative (axis : Nat) {code : Emitted} {value : Int}
    (detail : String) (sound : NodeSound shifts environment code .i32 value)
    (known : ∀ number, exactValue code = some number → 0 ≤ number) :
    Enforces compiler shifts environment (compiler.assertNonnegative axis code detail)
      (0 ≤ value) := by
  unfold FunctionCompiler.assertNonnegative
  cases isExact : exactValue code with
  | some number =>
    apply Enforces.of_true
    rw [eq_of_exactValue sound isExact]
    exact known number isExact
  | none =>
    have constant : Emits shifts environment (compileConstant 0) .i32 0 :=
      compileConstant_emits (by decide)
    rcases constant with ⟨_, compiled, isZero⟩
    simp only [compiled, ok_bind]
    exact enforces_emitRangeAssert axis .ge detail sound isZero nofun rfl rfl

theorem validateSubRange_eq_ok_iff {axis : Nat} {range : AxisRange} :
    compiler.validateSubRange axis startCode lenCode gridCode = .ok range ↔
      FunctionCompiler.rejectNegative axis startCode lenCode = .ok () ∧
      FunctionCompiler.emitLength startCode lenCode gridCode = .ok range.len ∧
      compiler.assertRange axis startCode lenCode gridCode = .ok range.asserts ∧
      range.start = (if exactValue startCode = some 0 then none else some startCode) ∧
      range.coversFullGrid =
        FunctionCompiler.coversFullGrid startCode lenCode gridCode := by
  unfold FunctionCompiler.validateSubRange
  simp only [bind_eq_ok_iff, pure_eq_ok_iff]
  constructor
  · rintro ⟨_, allowed, _, isEffective, asserts, isAsserts, rfl⟩
    exact ⟨allowed, isEffective, isAsserts, rfl, rfl⟩
  · rintro ⟨allowed, isEffective, isAsserts, isStart, covers⟩
    refine ⟨(), allowed, range.len, isEffective, range.asserts, isAsserts, ?_⟩
    rw [← isStart, ← covers]

/-- A coordinate of the schedule, moved by the start of its range. -/
theorem offsetCoordinate_emits {bid : Emitted} {coordinate : Int}
    (startSound : NodeSound shifts environment startCode .i32 start)
    (bidSound : NodeSound shifts environment bid .i32 coordinate)
    (fits : i32.Represents (start + coordinate)) :
    Emits shifts environment
      (offsetCoordinate (if exactValue startCode = some 0 then none else some startCode) bid)
      .i32 (start + coordinate) := by
  split_ifs with isZero
  · rw [eq_of_exactValue startSound isZero, zero_add]
    exact Emits.pure bidSound
  · exact emitOp_emits .add startSound bidSound nofun rfl rfl fits

variable (axis : Nat)
  (operands : AxisOperands shifts environment startCode lenCode gridCode start len tiles)

include operands

/-- The length is subtracted from the grid without wrapping. -/
theorem AxisOperands.wrap_sub_len (nonneg : 0 ≤ len) :
    i32.wrap (tiles - len) = tiles - len := by
  have gridFits := (represents_i32 _).mp operands.gridMachine
  have lenFits := (represents_i32 _).mp operands.lenMachine
  have gridNonneg := operands.gridNonneg
  exact wrap_i32 (by omega)

theorem enforces_assertRemainder :
    Enforces compiler shifts environment (compiler.assertRemainder axis startCode gridCode)
      (start ≤ tiles) := by
  have emitted : Enforces compiler shifts environment (do
      return [← compiler.emitRangeAssert axis .le startCode gridCode
        "start exceeds the logical grid"]) (start ≤ tiles) :=
    enforces_emitRangeAssert axis .le _ operands.startSound operands.gridSound nofun rfl rfl
  unfold FunctionCompiler.assertRemainder
  cases isStart : exactValue startCode with
  | none => exact emitted
  | some first =>
    have startEq := eq_of_exactValue operands.startSound isStart
    cases isGrid : exactValue gridCode with
    | none =>
      by_cases isZero : first = 0
      · simp only [isZero, if_true]
        apply Enforces.of_true
        have nonneg := operands.gridNonneg
        omega
      · simp only [isZero, if_false]
        exact emitted
    | some =>
      have gridEq := eq_of_exactValue operands.gridSound isGrid
      rw [startEq, gridEq]
      simp only [← not_le]
      exact Enforces.of_static

theorem enforces_assertEnd (known : ∀ number, exactValue lenCode = some number → 0 ≤ number) :
    Enforces compiler shifts environment
      (compiler.assertEnd axis startCode lenCode gridCode)
      (start ≤ i32.wrap (tiles - len)) := by
  have emitted : Enforces compiler shifts environment (do
      let gridMinusLen ← emitOp .sub gridCode lenCode
      return [← compiler.emitRangeAssert axis .le startCode gridMinusLen
        "range end exceeds the logical grid"])
      (start ≤ i32.wrap (tiles - len)) := by
    rcases emitOp_wraps .sub operands.gridSound operands.lenSound nofun rfl rfl
      with ⟨difference, compiled, sound⟩
    simp only [compiled, ok_bind]
    exact enforces_emitRangeAssert axis .le _ operands.startSound sound nofun rfl rfl
  unfold FunctionCompiler.assertEnd
  cases isStart : exactValue startCode with
  | none => exact emitted
  | some first =>
    cases isLen : exactValue lenCode with
    | none => exact emitted
    | some count =>
      cases isGrid : exactValue gridCode with
      | none => exact emitted
      | some whole =>
        have startEq := eq_of_exactValue operands.startSound isStart
        have lenEq := eq_of_exactValue operands.lenSound isLen
        have gridEq := eq_of_exactValue operands.gridSound isGrid
        have nonneg := known count isLen
        have fits := operands.wrap_sub_len (lenEq ▸ nonneg)
        rw [fits, startEq, lenEq, gridEq]
        simp only [← not_le]
        exact Enforces.of_static.congr (by omega)

theorem enforces_assertRange
    (allowed : FunctionCompiler.rejectNegative axis startCode lenCode = .ok ()) :
    Enforces compiler shifts environment
      (compiler.assertRange axis startCode lenCode gridCode)
      (InGrid start (effectiveLength lenCode start len tiles) tiles) := by
  rcases rejectNegative_eq_ok_iff.mp allowed with ⟨startKnown, lenKnown⟩
  have startAsserts : Enforces compiler shifts environment
      (compiler.assertNonnegative axis startCode "start is negative") (0 ≤ start) :=
    enforces_assertNonnegative axis _ operands.startSound startKnown
  unfold FunctionCompiler.assertRange effectiveLength
  by_cases remainder : FunctionCompiler.isRemainder lenCode
  · simp only [remainder, if_true]
    apply (startAsserts.append (enforces_assertRemainder axis operands)).congr
    unfold InGrid
    omega
  · have lenNonneg : ∀ number, exactValue lenCode = some number → 0 ≤ number := by
      intro number isExact
      have lower := lenKnown number isExact
      have notLiteral : number ≠ -1 := by
        intro isLiteral
        apply remainder
        simp [FunctionCompiler.isRemainder, isExact, isLiteral]
      omega
    simp only [remainder, Bool.false_eq_true, if_false]
    apply (startAsserts.append ((enforces_assertNonnegative axis _ operands.lenSound
      lenNonneg).append (enforces_assertEnd axis operands lenNonneg))).congr
    rw [InGrid]
    constructor <;> intro holds <;> have fits := operands.wrap_sub_len holds.2.1 <;> omega

/-- The code of the effective length, which does not wrap for a range of the grid. -/
theorem emitLength_emits (nonneg : 0 ≤ start) :
    Emits shifts environment (FunctionCompiler.emitLength startCode lenCode gridCode) .i32
      (effectiveLength lenCode start len tiles) := by
  unfold FunctionCompiler.emitLength effectiveLength
  split_ifs
  · have gridFits := (represents_i32 _).mp operands.gridMachine
    have startFits := (represents_i32 _).mp operands.startMachine
    have gridNonneg := operands.gridNonneg
    exact emitOp_emits .sub operands.gridSound operands.startSound nofun rfl rfl
      ((represents_i32 _).mpr (by omega))
  · exact Emits.pure operands.lenSound

/-- A range of the grid is not refused at compile time. -/
theorem validateSubRange_accepts (allowed : compiler.denyInKernelChecks = false)
    (inGrid : InGrid start (effectiveLength lenCode start len tiles) tiles) :
    ∃ range, compiler.validateSubRange axis startCode lenCode gridCode = .ok range := by
  have lenKnown : ∀ count, exactValue lenCode = some count → -1 ≤ count := by
    intro count isExact
    have isLen := eq_of_exactValue operands.lenSound isExact
    by_cases isLiteral : count = -1
    · omega
    · have explicit : FunctionCompiler.isRemainder lenCode = false := by
        simp [FunctionCompiler.isRemainder, isExact, isLiteral]
      have nonneg := inGrid.2.1
      simp only [effectiveLength, explicit, Bool.false_eq_true, if_false] at nonneg
      omega
  have startKnown : ∀ first, exactValue startCode = some first → 0 ≤ first := by
    intro _ isExact
    rw [← eq_of_exactValue operands.startSound isExact]
    exact inGrid.1
  have notRejected : FunctionCompiler.rejectNegative axis startCode lenCode = .ok () :=
    rejectNegative_eq_ok_iff.mpr ⟨startKnown, lenKnown⟩
  rcases (enforces_assertRange axis operands notRejected).accepts allowed inGrid
    with ⟨asserts, isAsserts⟩
  rcases emitLength_emits operands inGrid.1 with ⟨lowered, isLowered, _⟩
  exact ⟨⟨_, lowered, _, asserts⟩,
    validateSubRange_eq_ok_iff.mpr ⟨notRejected, isLowered, isAsserts, rfl, rfl⟩⟩

end Axis

/-! ## The whole array -/

section Arrays

variable {compiler : FunctionCompiler}

theorem validateAxes_spec {ranges : List (Option (List Emitted))} {indexSpace : List Emitted}
    {first : Nat} {axes : List AxisRange}
    (compiled : compiler.validateAxes first ranges indexSpace = .ok axes) {axis : Nat}
    {startCode lenCode gridCode : Emitted}
    (isPair : ranges[axis]? = some (some [startCode, lenCode]))
    (isGrid : indexSpace[axis]? = some gridCode) :
    ∃ range, axes[axis]? = some range ∧
      compiler.validateSubRange (first + axis) startCode lenCode gridCode = .ok range := by
  induction first, ranges, indexSpace using FunctionCompiler.validateAxes.induct
    generalizing axes axis with
  | case1 _ _ _ _ _ _ ih =>
    rw [FunctionCompiler.validateAxes] at compiled
    simp only [bind_eq_ok_iff] at compiled
    rcases compiled with ⟨range, isRange, rest, isRest, ⟨⟩⟩
    cases axis with
    | zero =>
      cases isPair
      cases isGrid
      exact ⟨range, rfl, isRange⟩
    | succ =>
      rcases ih isRest isPair isGrid with ⟨found, isFound, isValid⟩
      exact ⟨found, isFound, by rwa [Nat.add_right_comm] at isValid⟩
  | case2 _ _ _ _ _ notPair =>
    rw [FunctionCompiler.validateAxes] at compiled
    · cases compiled
    · exact notPair
  | case3 ranges _ indexSpace _ noAxis =>
    cases ranges with
    | nil => cases isPair
    | cons range ranges =>
      cases indexSpace with
      | nil => cases isGrid
      | cons grid indexSpace => exact (noAxis range ranges grid indexSpace rfl rfl).elim

end Arrays

/-- Sub-range iteration stays inside the grid. -/
theorem subRange_stays_in_grid (compiler : FunctionCompiler) {shifts : ShiftSemantics}
    {environment : Environment} {startCode lenCode gridCode : Emitted}
    {start len tiles : Int} (axis : Nat)
    (operands : AxisOperands shifts environment startCode lenCode gridCode start len tiles) :
    (compiler.denyInKernelChecks = false →
      InGrid start (effectiveLength lenCode start len tiles) tiles →
      ∃ range, compiler.validateSubRange axis startCode lenCode gridCode = .ok range) ∧
    ∀ indexSpace ranges axes,
      compiler.validateSubRanges indexSpace (some ranges) = .ok axes →
      ranges[axis]? = some (some [startCode, lenCode]) →
      indexSpace[axis]? = some gridCode →
      ∃ range, axes[axis]? = some range ∧
        (Passes shifts environment range.asserts ↔
          InGrid start (effectiveLength lenCode start len tiles) tiles) ∧
        (Passes shifts environment range.asserts →
          NodeSound shifts environment range.len .i32
            (effectiveLength lenCode start len tiles) ∧
          ∀ body bid j, NodeSound shifts body startCode .i32 start →
            NodeSound shifts body bid .i32 j → 0 ≤ j →
            j < effectiveLength lenCode start len tiles →
            Emits shifts body (offsetCoordinate range.start bid) .i32 (start + j) ∧
              0 ≤ start + j ∧ start + j < tiles) := by
  constructor
  · intro allowed inGrid
    exact validateSubRange_accepts axis operands allowed inGrid
  · intro indexSpace ranges axes compiled isPair isGrid
    rw [FunctionCompiler.validateSubRanges] at compiled
    split_ifs at compiled
    rcases validateAxes_spec compiled isPair isGrid with ⟨range, isRange, isValid⟩
    rw [zero_add] at isValid
    rcases validateSubRange_eq_ok_iff.mp isValid
      with ⟨allowed, isLen, isAsserts, isStart, _⟩
    have exact := (enforces_assertRange axis operands allowed).exact range.asserts isAsserts
    refine ⟨range, isRange, exact, ?_⟩
    intro passes
    rcases exact.mp passes with ⟨startNonneg, lenNonneg, inside⟩
    rcases emitLength_emits operands startNonneg with ⟨lowered, isLowered, sound⟩
    rw [isLen] at isLowered
    cases isLowered
    refine ⟨sound, ?_⟩
    intro body bid j startSound bidSound jNonneg below
    have gridFits := (represents_i32 _).mp operands.gridMachine
    have coordinate : i32.Represents (start + j) := by
      rw [represents_i32]
      omega
    rw [isStart]
    exact ⟨offsetCoordinate_emits startSound bidSound coordinate, by omega, by omega⟩

/-! The rest of an axis of ten tiles, from a tile the kernel computes. -/

def restCompiler : FunctionCompiler where
  paramIndex _ := none
  paramIsMutable := []
  validator := []
  preconditions := []
  checkOpts := .release
  denyInKernelChecks := false

def restLiteral : Emitted :=
  { newPrimitive 1 .i32 with bounds := some (.exact (-1)) }

def restEnvironment : Environment := fun value => ([4, -1, 10] : List Int).getD value 0

theorem restOperands (shifts : ShiftSemantics) :
    AxisOperands shifts restEnvironment (newPrimitive 0 .i32) restLiteral
      (newPrimitive 2 .i32) 4 (-1) 10 where
  startSound := newPrimitive_sound 0 rfl
  lenSound := ⟨rfl, rfl, rfl, ⟨_, rfl, rfl⟩,
    by rintro _ ⟨⟩; exact ⟨⟨by decide, by decide⟩, by decide, by decide⟩⟩
  gridSound := newPrimitive_sound 2 rfl
  startMachine := by decide
  lenMachine := by decide
  gridMachine := by decide
  gridNonneg := by decide

theorem subRange_stays_in_grid_rest :
    ∃ axes range shifts,
      restCompiler.validateSubRanges [newPrimitive 2 .i32]
        (some [some [newPrimitive 0 .i32, restLiteral]]) = .ok axes ∧
      axes[0]? = some range ∧ Passes shifts restEnvironment range.asserts ∧
      NodeSound shifts restEnvironment range.len .i32 6 := by
  have exact := subRange_stays_in_grid restCompiler 0 (restOperands fun _ _ _ _ => 0)
  have inGrid : InGrid 4 (effectiveLength restLiteral 4 (-1) 10) 10 :=
    ⟨by decide, by decide, by decide⟩
  rcases exact.1 rfl inGrid with ⟨range, isRange⟩
  have compiled : restCompiler.validateSubRanges [newPrimitive 2 .i32]
      (some [some [newPrimitive 0 .i32, restLiteral]]) = .ok [range] := by
    simp only [FunctionCompiler.validateSubRanges, FunctionCompiler.validateAxes, isRange]
    rfl
  rcases exact.2 _ _ _ compiled rfl rfl with ⟨found, isFound, passes, coordinates⟩
  exact ⟨[range], found, _, compiled, isFound, passes.mpr inGrid,
    (coordinates (passes.mpr inGrid)).1⟩

end CuTile
