import CuTile.Compiler.ValueFacts
import CuTile.Foundation.Fallible

/-! # Lowering of counted loops

A `for` loop over a range becomes a loop of the generated code. Its counter
carries what the bounds say about it, and a frame records the loop for the
checks inside its body.
-/

namespace CuTile

/-- A loop around the code being compiled. Values below the watermark were
defined before the loop body. -/
structure LoopFrame where
  preheaderBlock : Nat
  bodyBlock : Nat
  valueWatermark : Nat
  /-- The induction variable and its aliases. -/
  inductionValues : List SsaValue
  lower : SsaValue
  upper : SsaValue
  unitStep : Bool
  knownNonEmpty : Bool
  inductionRange : Option (Bounds Int)
  hasEarlyExit : Bool

/-- A source loop whose bounds have been compiled. -/
structure ForHeader where
  start : TileRustValue SsaValue
  finish : TileRustValue SsaValue
  /-- The argument of `step_by`. -/
  step : Option (TileRustValue SsaValue)
  /-- How many variables the body assigns. -/
  carried : Nat
  hasEarlyExit : Bool

structure ModuleSize where
  numValues : Nat
  numBlocks : Nat

namespace ForHeader

variable (header : ForHeader)

def stepConst : Option Int :=
  match header.step with
  | none => some 1
  | some step => exactValue step

/-- The last value a counter reaches from `start` in steps of `step` without
passing `last`. -/
def lastAttained (start step last : Int) : Int :=
  if start ≤ last then start + step * (last - start).tdiv step else start

/-- The interval of the counter over the loop's iterations. An unknown residue
class leaves no interval. -/
def attained : Option (Bounds Int) := do
  let lower ← header.start.bounds
  let upper ← header.finish.bounds
  match header.stepConst with
  | some step =>
    if step = 1 then return ⟨lower.start, upper.last - 1⟩
    else if lower.isExact then
      return ⟨lower.start, lastAttained lower.start step (upper.last - 1)⟩
    else none
  | none => none

def knownNonEmpty : Bool :=
  match header.start.bounds, header.finish.bounds with
  | some lower, some upper => lower.last < upper.start
  | _, _ => false

/-- The counter's range when both bounds are constants. -/
def inductionRange : Option (Bounds Int) := do
  if header.step.isSome then none
  else
    let lower ← exactValue header.start
    let upper ← exactValue header.finish
    return ⟨lower, upper - 1⟩

/-- A counter with an assumption about its range is a new value of the body. -/
def assumed : Bool := header.start.bounds.isSome || header.finish.bounds.isSome

/-- The counter counts the tiles of an axis when it starts at zero. -/
def startsAtZero : Bool := exactValue header.start = some 0

end ForHeader

/-- A lowered loop: its frame, its counter, and the module after its header. -/
structure LoweredLoop where
  frame : LoopFrame
  iterand : TileRustValue SsaValue
  size : ModuleSize

/-- The counter of a loop whose body block starts at value `argument`. -/
def ForHeader.iterand (header : ForHeader) (argument : SsaValue) :
    TileRustValue SsaValue where
  kind := header.start.kind
  value := some (if header.assumed then argument + 1 + header.carried else argument)
  type := header.start.type
  bounds := header.attained
  term := some (.atom (.iv (if header.assumed then argument + 1 + header.carried
    else argument)))
  partitionAxisOrigin :=
    if header.startsAtZero then header.finish.partitionAxisOrigin else none
  indexOrigin := if header.startsAtZero then header.finish.dimOrigin else none

/-- The step operand: a new constant unless the source names one. -/
def ForHeader.stepOperand (header : ForHeader) (size : ModuleSize) :
    Except Failure (SsaValue × ModuleSize) :=
  match header.step with
  | none => .ok (size.numValues, { size with numValues := size.numValues + 1 })
  | some step =>
    match step.value with
    | some value => .ok (value, size)
    | none =>
      .error (.jitError "internal: failed to produce step value for for-loop")

/-- A step that is known not to advance is rejected. -/
def ForHeader.checkStep (header : ForHeader) : Except Failure Unit :=
  match header.stepConst with
  | some step =>
    if step ≤ 0 then
      .error (.jitError ("`step_by` requires a positive step, got " ++ toString step))
    else .ok ()
  | none => .ok ()

/-- Lower a loop with a named counter in block `block`. -/
def lowerFor (header : ForHeader) (block : Nat) (size : ModuleSize) :
    Except Failure LoweredLoop :=
  match header.start.value, header.finish.value with
  | some lower, some upper => do
    let (_, before) ← header.stepOperand size
    header.checkStep
    let iterand := header.iterand before.numValues
    return {
      frame := {
        preheaderBlock := block
        bodyBlock := before.numBlocks
        valueWatermark := before.numValues
        inductionValues := before.numValues :: iterand.value.toList
        lower, upper
        unitStep := header.step.isNone
        knownNonEmpty := header.knownNonEmpty
        inductionRange := header.inductionRange
        hasEarlyExit := header.hasEarlyExit }
      iterand
      size := {
        numValues := before.numValues + 1 + header.carried + header.assumed.toNat
        numBlocks := before.numBlocks + 1 } }
  | _, _ => .error (.panic "called `Option::unwrap()` on a `None` value")

structure LoweredLoop.From (loop : LoweredLoop) (header : ForHeader) (block : Nat)
    (size : ModuleSize) : Prop where
  lower : header.start.value = some loop.frame.lower
  upper : header.finish.value = some loop.frame.upper
  preheaderBlock : loop.frame.preheaderBlock = block
  bodyBlock : loop.frame.bodyBlock = size.numBlocks
  watermark : size.numValues ≤ loop.frame.valueWatermark
  unitStep : loop.frame.unitStep = header.step.isNone
  range : loop.frame.inductionRange = header.inductionRange
  nonEmpty : loop.frame.knownNonEmpty = header.knownNonEmpty
  interval : loop.iterand.bounds = header.attained
  counter : ∃ handle ∈ loop.frame.inductionValues, loop.iterand.value = some handle ∧
    loop.iterand.term = some (.atom (.iv handle))
  valid : header.checkStep = .ok ()
  blocks : loop.size.numBlocks = size.numBlocks + 1
  values : loop.frame.valueWatermark ≤ loop.size.numValues

theorem lowerFor_spec {header : ForHeader} {block : Nat} {size : ModuleSize}
    {loop : LoweredLoop} (ok : lowerFor header block size = .ok loop) :
    loop.From header block size := by
  unfold lowerFor at ok
  split at ok
  · rename_i lower upper isLower isUpper
    simp only [Fallible.bind_eq_ok_iff] at ok
    rcases ok with ⟨⟨step, before⟩, isStep, _, valid, ok⟩
    have sizes : before.numBlocks = size.numBlocks ∧ size.numValues ≤ before.numValues := by
      unfold ForHeader.stepOperand at isStep
      split at isStep
      · cases isStep
        exact ⟨rfl, Nat.le_succ _⟩
      · split at isStep
        · cases isStep
          exact ⟨rfl, le_rfl⟩
        · cases isStep
    cases ok
    exact ⟨isLower, isUpper, rfl, sizes.1, sizes.2, rfl, rfl, rfl, rfl,
      ⟨_, List.mem_cons_of_mem _ (List.mem_singleton_self _), rfl, rfl⟩, valid,
      congrArg (· + 1) sizes.1, by dsimp only; omega⟩
  · cases ok

/-! ## Iterations -/

/-- Machine values of the generated code at one point of an execution. -/
abbrev Environment := SsaValue → Int

/-- What is known about a compiled scalar is true of its machine value. -/
structure TileRustValue.TrueIn (value : TileRustValue SsaValue) (environment : Environment) :
    Prop where
  machine : ∀ handle, value.value = some handle →
    IntegerFormat.i32.Represents (environment handle)
  interval : ∀ handle, value.value = some handle → ∀ bounds, value.bounds = some bounds →
    environment handle ∈ bounds

theorem TileRustValue.TrueIn.eq_of_exactValue {value : TileRustValue SsaValue}
    {environment : Environment} (facts : value.TrueIn environment) {number : Int}
    {handle : SsaValue} (known : exactValue value = some number)
    (isHandle : value.value = some handle) : environment handle = number := by
  rcases Option.map_eq_some_iff.mp known with ⟨bounds, kept, rfl⟩
  rcases Option.filter_eq_some_iff.mp kept with ⟨isBounds, exact⟩
  exact Bounds.eq_start_of_mem exact (facts.interval handle isHandle bounds isBounds)

namespace ForHeader

variable (header : ForHeader)

def stepAt (environment : Environment) : Int :=
  match header.step with
  | none => 1
  | some step => (step.value.map environment).getD 1

/-- The loop can start here: its bounds are what the compiler took them for, and
its step advances. -/
structure Starts (environment : Environment) : Prop where
  start : header.start.TrueIn environment
  finish : header.finish.TrueIn environment
  step : ∀ step, header.step = some step →
    step.TrueIn environment ∧ step.value.isSome = true
  advances : 0 < header.stepAt environment

end ForHeader

def LoopFrame.counterAt (frame : LoopFrame) (header : ForHeader) (preheader : Environment)
    (iteration : Nat) : Int :=
  preheader frame.lower + iteration * header.stepAt preheader

theorem LoopFrame.counterAt_zero (frame : LoopFrame) (header : ForHeader)
    (preheader : Environment) :
    frame.counterAt header preheader 0 = preheader frame.lower := by
  simp [counterAt]

/-- A point inside an iteration of the loop. Values from before the loop are
unchanged there, and the counter is where the iteration put it. -/
structure Iteration (header : ForHeader) (frame : LoopFrame) (preheader body : Environment)
    (iteration : Nat) : Prop where
  starts : header.Starts preheader
  runs : frame.counterAt header preheader iteration < preheader frame.upper
  dominated : ∀ value < frame.valueWatermark, body value = preheader value
  counter : ∀ value ∈ frame.inductionValues,
    body value = frame.counterAt header preheader iteration

section Counter

variable {header : ForHeader} {block : Nat} {size : ModuleSize} {loop : LoweredLoop}
  {preheader body : Environment} {iteration : Nat}

theorem Iteration.lower_le {frame : LoopFrame}
    (point : Iteration header frame preheader body iteration) :
    preheader frame.lower ≤ frame.counterAt header preheader iteration := by
  have advances := point.starts.advances
  have travelled : 0 ≤ iteration * header.stepAt preheader := by positivity
  unfold LoopFrame.counterAt
  omega

/-- From `start` in steps of `step`, a counter up to `last` is at most the last
one attained. -/
theorem ForHeader.le_lastAttained {start step last : Int} (count : Nat) (positive : 0 < step)
    (below : start + count * step ≤ last) :
    start + count * step ≤ lastAttained start step last := by
  have travelled : 0 ≤ count * step := by positivity
  have ordered : start ≤ last := by omega
  unfold lastAttained
  rw [if_pos ordered, Int.tdiv_eq_ediv_of_nonneg (sub_nonneg.mpr ordered)]
  have steps : (count : Int) ≤ (last - start) / step :=
    (Int.le_ediv_iff_mul_le positive).mpr (by omega)
  nlinarith

/-- The range kept for constant bounds contains the counter in every iteration. -/
theorem Iteration.counter_mem_inductionRange (lowered : loop.From header block size)
    (point : Iteration header loop.frame preheader body iteration) {range : Bounds Int}
    (known : loop.frame.inductionRange = some range) :
    loop.frame.counterAt header preheader iteration ∈ range := by
  rw [lowered.range, ForHeader.inductionRange] at known
  split_ifs at known
  rcases Option.bind_eq_some_iff.mp known with ⟨lower, isLower, known⟩
  rcases Option.bind_eq_some_iff.mp known with ⟨upper, isUpper, known⟩
  cases known
  have start := point.starts.start.eq_of_exactValue isLower lowered.lower
  have finish := point.starts.finish.eq_of_exactValue isUpper lowered.upper
  have runs := point.runs
  rw [finish] at runs
  exact ⟨start ▸ point.lower_le, Int.le_sub_one_of_lt runs⟩

end Counter

end CuTile
