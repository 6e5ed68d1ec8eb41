import CuTile.Checks.Emission
import CuTile.Checks.LoopNest

/-! # Hoisted checks

What a check tests once it has left its loop, and why passing it in the
preheader keeps every access inside the loop in bounds.
-/

namespace CuTile

open IntegerFormat Fallible List Option

/-- The facts attached to an index are true of its machine value. -/
structure IndexFacts (index : TileRustValue SsaValue) (environment : Environment)
    (value : Int) : Prop where
  kind : index.kind = .primitiveType
  typed : index.type = .i32
  machine : IntegerFormat.i32.Represents value
  reads : ∀ handle, index.value = some handle → environment handle = value
  interval : ∀ bounds, index.bounds = some bounds → bounds.Fits ∧ value ∈ bounds
  term : ∀ term, index.term = some term → ∃ valuation : Atom → Int,
    (∀ id, valuation (.iv id) = environment id) ∧
      term.value valuation ≡ value [ZMOD IntegerFormat.i32.modulus]

/-- The values of the loop counters; no other atom has one. -/
def counterValues (environment : Environment) : Atom → Int
  | .iv id => environment id
  | _ => 0

/-! ## Classification -/

/-- The ways an index can leave its innermost loop, with the values the check
then refers to. -/
inductive Classified (index : TileRustValue SsaValue) (innermost : LoopFrame) :
    HoistIndex → List SsaValue → Prop where
  | interval {bounds : Bounds Int} (known : index.bounds.filter fitsI32 = some bounds) :
      Classified index innermost (.ofRange bounds) []
  | affineRange {value id : SsaValue} {scale offset : Int} {range : Bounds Int}
      (unknown : index.bounds.filter fitsI32 = none)
      (affine : innermostAffine index value innermost = some (id, scale, offset))
      (isValue : index.value = some value) (unit : innermost.unitStep = true)
      (ranged : (affineRange innermost id scale offset).filter fitsI32 = some range) :
      Classified index innermost (.ofRange range) []
  | identity {value id : SsaValue} (unknown : index.bounds.filter fitsI32 = none)
      (affine : innermostAffine index value innermost = some (id, 1, 0))
      (isValue : index.value = some value) (unit : innermost.unitStep = true) :
      Classified index innermost (.inductionAffine 1 0 innermost.lower innermost.upper)
        [innermost.upper, innermost.lower]
  | invariant {value : SsaValue} (unknown : index.bounds.filter fitsI32 = none)
      (isValue : index.value = some value) (defined : value < innermost.valueWatermark) :
      Classified index innermost .invariant [value]

theorem classified_of_classifyIndex {index : TileRustValue SsaValue} {innermost : LoopFrame}
    {kind : HoistIndex} {used : List SsaValue}
    (ok : classifyIndex index innermost = .ok (kind, used)) :
    Classified index innermost kind used := by
  unfold classifyIndex at ok
  split at ok
  · rename_i bounds _ known
    cases ok
    exact .interval known
  · cases ok
  · rename_i value unknown isValue
    split at ok
    · rename_i id scale offset affine
      unfold classifyAffine at ok
      by_cases unit : innermost.unitStep = true
      · rw [if_neg (by simp [unit])] at ok
        by_cases degenerate : scale = 0
        · rw [if_pos degenerate] at ok
          cases ok
        · rw [if_neg degenerate] at ok
          split at ok
          · rename_i range ranged
            cases ok
            exact .affineRange unknown affine isValue unit ranged
          · split_ifs at ok with identity
            rcases identity with ⟨rfl, rfl⟩
            cases ok
            exact .identity unknown affine isValue unit
      · rw [if_pos (by simp [unit])] at ok
        cases ok
    · split_ifs at ok with defined
      cases ok
      exact .invariant unknown isValue defined

/-- The index is affine in the loop counter, up to the machine's wrapping. -/
theorem innermostAffine_spec {index : TileRustValue SsaValue} {value id : SsaValue}
    {innermost : LoopFrame} {scale offset : Int} {access : Environment} {number : Int}
    (affine : innermostAffine index value innermost = some (id, scale, offset))
    (isValue : index.value = some value) (facts : IndexFacts index access number) :
    id ∈ innermost.inductionValues ∧
      scale * access id + offset ≡ number [ZMOD i32.modulus] := by
  unfold innermostAffine at affine
  split_ifs at affine with direct
  · cases affine
    rw [one_mul, add_zero, facts.reads value isValue]
    exact ⟨contains_iff_mem.mp direct, Int.ModEq.refl _⟩
  · split at affine
    · rename_i iv affineScale affineOffset single
      split_ifs at affine with isInduction
      cases affine
      rcases bind_eq_some_iff.mp single with ⟨term, isTerm, isAffine⟩
      rcases facts.term term isTerm with ⟨valuation, registers, congruent⟩
      rw [Term.value_of_asSingleAffine valuation isAffine, registers] at congruent
      exact ⟨contains_iff_mem.mp isInduction, congruent⟩
    · cases affine

/-! ## Placement -/

/-- A check that `placeResidualCheck` moved to the preheader of a loop. -/
structure Hoisted (compiler : FunctionCompiler) (goals : AxisGoals)
    (dynamicExtent : Option (TileRustValue SsaValue)) (block : Nat)
    (innermost : CompiledLoop) (outer : List CompiledLoop) (target : LoopFrame)
    (kind : HoistIndex) (used : List SsaValue) (check : ResidualCheck) : Prop where
  atBody : block = innermost.frame.bodyBlock
  everyIteration : innermost.frame.hasEarlyExit = false
  discharges : compiler.checkOpts.dischargeProofs = true
  classified : Classified goals.index innermost.frame kind used
  walked : ∃ extentValues, target =
    walkOutward (extentValues ++ used) innermost.frame (outer.map CompiledLoop.frame)
  placed : check.block = target.preheaderBlock
  nonnegative : rejectNegative goals.axis
    (lowerStatic compiler.checkOpts goals.index (some kind)) = .ok ()
  emitted : ∃ lowered, emitCondition goals dynamicExtent (some kind)
    (lowerStatic compiler.checkOpts goals.index (some kind)).isNone
    (if target.knownNonEmpty then none else some (target.lower, target.upper)) =
      .ok lowered ∧ lowered.value = some check.condition

theorem mapError_eq_ok {α ε δ : Type} {transform : ε → δ} {result : Except ε α} {value : α} :
    result.mapError transform = .ok value ↔ result = .ok value := by
  cases result with
  | error => exact ⟨nofun, nofun⟩
  | ok =>
    rw [Except.mapError, Except.ok.injEq, Except.ok.injEq]

section Placed

variable {compiler : FunctionCompiler} {goals : AxisGoals}
  {dynamicExtent : Option (TileRustValue SsaValue)} {block : Nat}
  {nest : List CompiledLoop} {check : ResidualCheck}

theorem classifyHoist_spec {policy : CheckOptimizations} {index : TileRustValue SsaValue}
    {target : LoopFrame} {kind : HoistIndex}
    (ok : classifyHoist policy index dynamicExtent block (nest.map CompiledLoop.frame) =
      .ok (target, kind)) :
    policy.hoistToPreheaders = true ∧ ∃ innermost outer used,
      nest = innermost :: outer ∧ block = innermost.frame.bodyBlock ∧
      innermost.frame.hasEarlyExit = false ∧ Classified index innermost.frame kind used ∧
      ∃ extentValues, target = walkOutward (extentValues ++ used) innermost.frame
        (outer.map CompiledLoop.frame) := by
  unfold classifyHoist at ok
  by_cases enabled : policy.hoistToPreheaders = true
  case neg =>
    rw [if_pos (by simp [enabled])] at ok
    cases ok
  rw [if_neg (by simp [enabled])] at ok
  cases nest with
  | nil => cases ok
  | cons innermost outer =>
    replace ok : hoistFrom index dynamicExtent block innermost.frame
      (outer.map CompiledLoop.frame) = .ok (target, kind) := ok
    unfold hoistFrom at ok
    split_ifs at ok with elsewhere exits
    simp only [bind_eq_ok_iff] at ok
    rcases ok with ⟨extentValues, _, ⟨found, used⟩, isKind, ⟨⟩⟩
    exact ⟨enabled, innermost, outer, used, rfl, not_not.mp elsewhere,
      by simpa using exits, classified_of_classifyIndex (mapError_eq_ok.mp isKind),
      extentValues, rfl⟩

theorem hoisted_of_placeResidualCheck
    (ok : compiler.placeResidualCheck goals dynamicExtent block
      (nest.map CompiledLoop.frame) = .ok check)
    (hoisted : check.hoisted = true) :
    ∃ innermost outer target kind used, nest = innermost :: outer ∧
      Hoisted compiler goals dynamicExtent block innermost outer target kind used check := by
  rcases bind_eq_ok_iff.mp ok with ⟨_, nonnegative, ok⟩
  rcases bind_eq_ok_iff.mp ok with ⟨_, _, ok⟩
  rcases bind_eq_ok_iff.mp ok with ⟨lowered, emitted, ok⟩
  split at ok
  · rename_i condition isCondition
    cases ok
    cases classified : classifyHoist compiler.checkOpts goals.index dynamicExtent block
      (nest.map CompiledLoop.frame) with
    | error => simp [choosePlacement, classified] at hoisted
    | ok chosen =>
      rcases chosen with ⟨target, kind⟩
      rcases classifyHoist_spec classified with ⟨enabled, innermost, outer, used, isNest,
        atBody, everyIteration, isClassified, walked⟩
      simp only [choosePlacement, classified] at nonnegative emitted isCondition
      exact ⟨innermost, outer, target, kind, used, isNest, atBody, everyIteration,
        compiler.checkOpts.hoistNeedsProofs enabled, isClassified, walked,
        by simp [choosePlacement, classified], nonnegative, lowered, emitted, isCondition⟩
  · cases ok

end Placed

/-! ## What a hoisted check tests -/

/-- The instance of the index that the upper comparison tests. -/
def strongestInstance (index : TileRustValue SsaValue) (preheader : Environment) :
    HoistIndex → Int
  | .const _ max => max
  | .invariant => (index.value.map preheader).getD 0
  | .inductionAffine _ _ _ upper => IntegerFormat.i32.wrap (preheader upper - 1)

/-- The instance of the index that the lower comparison tests, if there is one. -/
def weakestInstance (index : TileRustValue SsaValue) (preheader : Environment) :
    HoistIndex → Int
  | .const min _ => min
  | .invariant => (index.value.map preheader).getD 0
  | .inductionAffine _ _ lower _ => preheader lower

/-- An index that the check itself refers to keeps its interval in the
preheader. -/
def KnownBefore (index : TileRustValue SsaValue) (used : List SsaValue)
    (preheader : Environment) : Prop :=
  ∀ handle ∈ used, index.value = some handle → index.kind = .primitiveType ∧
    ∀ bounds, index.bounds = some bounds → bounds.Fits ∧ preheader handle ∈ bounds

section Tested

variable {shifts : ShiftSemantics} {preheader : Environment} {policy : CheckOptimizations}
  {index : TileRustValue SsaValue} {innermost : LoopFrame} {kind : HoistIndex}
  {used : List SsaValue}

/-- The counter just below the upper bound, as the machine computes it. -/
theorem extremeBound_last (lower upper : SsaValue) :
    Emits shifts preheader (extremeBound lower upper .i32 true) .i32
      (i32.wrap (preheader upper - 1)) := by
  unfold extremeBound
  apply Emits.bind (compileConstant_emits (by decide : i32.Represents 1))
  intro _ isOne
  exact emitOp_wraps .sub (newPrimitive_sound upper rfl) isOne nofun rfl rfl

section

variable (classified : Classified index innermost kind used)
  (typed : index.type = .i32)
  (known : KnownBefore index used preheader)

include classified typed known

theorem upperOperand_emits :
    Emits shifts preheader (upperOperand index (some kind)) .i32
      (strongestInstance index preheader kind) := by
  cases classified with
  | interval => exact compileConstant_emits (wrap_represents _ _)
  | affineRange =>
    exact compileConstant_emits (wrap_represents _ _)
  | identity =>
    rw [upperOperand, typed]
    apply Emits.bind (extremeBound_last innermost.lower innermost.upper)
    intro _ isBound
    exact Emits.pure isBound
  | invariant _ isValue =>
    rcases known _ mem_cons_self isValue with ⟨primitive, interval⟩
    rw [strongestInstance, isValue, map_some, getD_some]
    exact Emits.pure (mapHandle_sound primitive typed isValue rfl interval)

theorem lowerOperand_emits (needed : (lowerStatic policy index (some kind)).isNone = true)
    (discharges : policy.dischargeProofs = true) :
    Emits shifts preheader (lowerOperand index (some kind)) .i32
      (weakestInstance index preheader kind) := by
  cases classified with
  | interval isBounds => simp [lowerStatic, discharges, isBounds] at needed
  | affineRange unknown =>
    simp [lowerStatic, discharges, unknown, HoistIndex.ofRange] at needed
  | identity =>
    rw [lowerOperand, typed]
    exact Emits.pure (newPrimitive_sound innermost.lower rfl)
  | invariant _ isValue =>
    rcases known _ mem_cons_self isValue with ⟨primitive, interval⟩
    rw [weakestInstance, isValue, map_some, getD_some]
    exact Emits.pure (mapHandle_sound primitive typed isValue rfl interval)

end

end Tested

theorem Hoisted.eval {shifts : ShiftSemantics} {compiler : FunctionCompiler}
    {goals : AxisGoals} {dynamicExtent : Option (TileRustValue SsaValue)} {block : Nat}
    {innermost : CompiledLoop} {outer : List CompiledLoop} {target : LoopFrame}
    {kind : HoistIndex} {used : List SsaValue} {check : ResidualCheck}
    (hoisted : Hoisted compiler goals dynamicExtent block innermost outer target kind used
      check) {preheader : Environment} {extent : Int}
    (extents : ExtentFacts goals dynamicExtent preheader extent)
    (positive : 1 ≤ goals.tile) (machine : i32.Represents goals.tile)
    (typed : goals.index.type = .i32)
    (known : KnownBefore goals.index used preheader) :
    check.condition.eval shifts preheader =
      some (indicator
        ((target.knownNonEmpty = false ∧ preheader target.upper ≤ preheader target.lower) ∨
        (((lowerStatic compiler.checkOpts goals.index (some kind)).isNone = true →
            0 ≤ weakestInstance goals.index preheader kind) ∧
          strongestInstance goals.index preheader kind < ceilQuotient extent goals.tile))) := by
  rcases hoisted.emitted with ⟨_, compiled, isCondition⟩
  have emits : Emits shifts preheader _ .bool _ := emitCondition_emits extents positive machine
    (upperOperand_emits hoisted.classified typed known)
    (fun needed => lowerOperand_emits hoisted.classified typed known needed
      hoisted.discharges)
    (if target.knownNonEmpty then none else some (target.lower, target.upper))
  rcases emits with ⟨_, isFound, sound⟩
  rw [compiled] at isFound
  cases isFound
  rcases sound.code with ⟨code, isCode, evaluates⟩
  rw [isCondition] at isCode
  cases isCode
  rw [evaluates]
  cases target.knownNonEmpty <;> simp

/-! ## Soundness -/

section Soundness

variable {index : TileRustValue SsaValue} {loop : CompiledLoop} {kind : HoistIndex}
  {used : List SsaValue} {preheader middle access : Environment} {iteration : Nat}
  {value : Int}

theorem wrap_of_fitsI32 {bounds : Bounds Int} (fits : fitsI32 bounds = true)
    (inside : value ∈ bounds) :
    i32.wrap bounds.start = bounds.start ∧
      i32.wrap bounds.last = bounds.last := by
  rcases of_decide_eq_true fits with ⟨above, below⟩
  have ordered : bounds.start ≤ bounds.last := inside.1.trans inside.2
  exact ⟨wrap_of_represents _ ⟨above, ordered.trans below⟩,
    wrap_of_represents _ ⟨above.trans ordered, below⟩⟩

section

variable (point : Iteration loop.header loop.frame middle access iteration)

include point

theorem Iteration.counter_represents :
    i32.Represents (loop.frame.counterAt loop.header middle iteration) := by
  have lower := point.starts.start.machine _ loop.lower_spec
  have upper := point.starts.finish.machine _ loop.upper_spec
  exact ⟨lower.1.trans point.lower_le, point.runs.le.trans upper.2⟩

theorem value_eq_affine (facts : IndexFacts index access value) {handle id : SsaValue}
    {scale offset : Int} {range : Bounds Int}
    (affine : innermostAffine index handle loop.frame = some (id, scale, offset))
    (isValue : index.value = some handle)
    (ranged : affineRange loop.frame id scale offset = some range) (fits : fitsI32 range = true) :
    scale * loop.frame.counterAt loop.header middle iteration + offset = value ∧
      value ∈ range := by
  rcases innermostAffine_spec affine isValue facts with ⟨isCounter, congruent⟩
  rw [point.counter id isCounter] at congruent
  rcases bind_eq_some_iff.mp ranged with ⟨_, known, ranged⟩
  have inside := point.counter_mem_inductionRange loop.lowered_from known
  have image : (Term.affine (.iv id) scale offset).value
      (fun _ => loop.frame.counterAt loop.header middle iteration) ∈ range := by
    apply termRange_sound ranged
    intro name bounds isAtom
    split_ifs at isAtom
    cases isAtom
    exact inside
  rw [Term.value_affine] at image
  rcases of_decide_eq_true fits with ⟨above, below⟩
  have same := eq_of_modEq _ congruent
    ⟨above.trans image.1, image.2.trans below⟩ facts.machine
  exact ⟨same, same ▸ image⟩

theorem value_eq_counter (facts : IndexFacts index access value) {handle id : SsaValue}
    (affine : innermostAffine index handle loop.frame = some (id, 1, 0))
    (isValue : index.value = some handle) :
    loop.frame.counterAt loop.header middle iteration = value := by
  rcases innermostAffine_spec affine isValue facts with ⟨isCounter, congruent⟩
  rw [point.counter _ isCounter, one_mul, add_zero] at congruent
  exact eq_of_modEq _ congruent point.counter_represents facts.machine

theorem Iteration.wrap_upper :
    i32.wrap (middle loop.frame.upper - 1) = middle loop.frame.upper - 1 := by
  have lower := point.starts.start.machine _ loop.lower_spec
  have upper := point.starts.finish.machine _ loop.upper_spec
  have runs := point.lower_le.trans_lt point.runs
  apply wrap_of_represents
  rw [represents_i32] at *
  omega

end

section

variable (classified : Classified index loop.frame kind used)
  (point : Iteration loop.header loop.frame middle access iteration)
  (facts : IndexFacts index access value)

include classified point facts

/-- Every access of an iteration lies between the instances the check tests. -/
theorem Classified.value_between (agree : ∀ handle ∈ used, middle handle = preheader handle) :
    weakestInstance index preheader kind ≤ value ∧
      value ≤ strongestInstance index preheader kind := by
  cases classified with
  | interval known =>
    rcases filter_eq_some_iff.mp known with ⟨isBounds, fits⟩
    have inside := (facts.interval _ isBounds).2
    rw [HoistIndex.ofRange, weakestInstance, strongestInstance, (wrap_of_fitsI32 fits inside).1,
      (wrap_of_fitsI32 fits inside).2]
    exact inside
  | affineRange _ affine isValue _ ranged =>
    rcases filter_eq_some_iff.mp ranged with ⟨isRange, fits⟩
    have inside := (value_eq_affine point facts affine isValue isRange fits).2
    rw [HoistIndex.ofRange, weakestInstance, strongestInstance, (wrap_of_fitsI32 fits inside).1,
      (wrap_of_fitsI32 fits inside).2]
    exact inside
  | identity _ affine isValue =>
    rw [weakestInstance, strongestInstance, ← agree _ mem_cons_self,
      ← agree _ (mem_cons_of_mem _ mem_cons_self), point.wrap_upper,
      ← value_eq_counter point facts affine isValue]
    exact ⟨point.lower_le, Int.le_sub_one_of_lt point.runs⟩
  | invariant _ isValue defined =>
    rw [weakestInstance, strongestInstance, isValue, map_some, getD_some,
      ← agree _ mem_cons_self, ← point.dominated _ defined, facts.reads _ isValue]
    exact ⟨le_rfl, le_rfl⟩

theorem Classified.lowerStatic_le {policy : CheckOptimizations} {minimum : Int}
    (known : lowerStatic policy index (some kind) = some minimum)
    (discharges : policy.dischargeProofs = true) : minimum ≤ value := by
  simp only [lowerStatic, discharges, Bool.not_true] at known
  cases classified with
  | interval isKnown =>
    rcases filter_eq_some_iff.mp isKnown with ⟨isBounds, _⟩
    rw [isKnown] at known
    cases known
    exact (facts.interval _ isBounds).2.1
  | affineRange unknown affine isValue _ ranged =>
    rcases filter_eq_some_iff.mp ranged with ⟨isRange, fits⟩
    have inside := (value_eq_affine point facts affine isValue isRange fits).2
    rw [unknown] at known
    cases known
    rw [(wrap_of_fitsI32 fits inside).1]
    exact inside.1
  | identity unknown =>
    rw [unknown] at known
    cases known
  | invariant unknown =>
    rw [unknown] at known
    cases known

end

theorem nonneg_of_rejectNegative {axis : Nat} {minimum : Int}
    (accepted : rejectNegative axis (some minimum) = .ok ()) : 0 ≤ minimum := by
  by_contra negative
  rw [rejectNegative, if_pos (not_le.mp negative)] at accepted
  cases accepted

/-- A lower goal that needs no guard was decided while compiling. -/
theorem Hoisted.nonneg_of_settled {compiler : FunctionCompiler} {goals : AxisGoals}
    {dynamicExtent : Option (TileRustValue SsaValue)} {block : Nat}
    {outer : List CompiledLoop} {target : LoopFrame} {check : ResidualCheck}
    (hoisted : Hoisted compiler goals dynamicExtent block loop outer target kind used check)
    (point : Iteration loop.header loop.frame middle access iteration)
    (facts : IndexFacts goals.index access value)
    (settled : ¬(lowerStatic compiler.checkOpts goals.index (some kind)).isNone = true) :
    0 ≤ value := by
  cases static : lowerStatic compiler.checkOpts goals.index (some kind) with
  | none => exact absurd (by rw [static]; rfl) settled
  | some =>
    have accepted := hoisted.nonnegative
    rw [static] at accepted
    exact (nonneg_of_rejectNegative accepted).trans
      (hoisted.classified.lowerStatic_le point facts static hoisted.discharges)

theorem indicator_eq_zero_iff (verdict : Prop) [Decidable verdict] :
    some (indicator verdict) = some 0 ↔ ¬verdict := by
  unfold indicator
  split_ifs with passes
  · exact ⟨nofun, fun fails => absurd passes fails⟩
  · exact ⟨fun _ => passes, fun _ => rfl⟩

/-- What the check refers to is defined before the innermost loop. -/
theorem Classified.used_lt (classified : Classified index loop.frame kind used) :
    ∀ handle ∈ used, handle < loop.frame.valueWatermark := by
  cases classified with
  | interval => exact fun handle member => absurd member not_mem_nil
  | affineRange =>
    exact fun handle member => absurd member not_mem_nil
  | identity =>
    intro _ member
    rcases mem_cons.mp member with rfl | member
    · exact loop.upper_lt_watermark
    · rw [mem_singleton.mp member]
      exact loop.lower_lt_watermark
  | invariant _ _ defined =>
    intro _ member
    rw [mem_singleton.mp member]
    exact defined

/-- The loop in whose preheader a check stands is found by the walk outward: the loops
inside it are those that were crossed, and what the check refers to is defined before
them. -/
theorem Hoisted.crosses {compiler : FunctionCompiler} {goals : AxisGoals}
    {dynamicExtent : Option (TileRustValue SsaValue)} {block : Nat}
    {outer inside outside : List CompiledLoop} {target : CompiledLoop} {frame : LoopFrame}
    {check : ResidualCheck}
    (hoisted : Hoisted compiler goals dynamicExtent block loop outer frame kind used check)
    (nested : (loop :: outer).IsChain CompiledLoop.NestedIn)
    (isNest : loop :: outer = inside ++ target :: outside)
    (isTarget : check.block = target.frame.preheaderBlock) :
    frame = target.frame ∧ ∃ crossed, loop :: crossed = inside ++ [target] ∧
      ∀ other ∈ crossed, ∀ handle ∈ used, handle < other.frame.valueWatermark := by
  rcases hoisted.walked with ⟨extentValues, walked⟩
  rcases walkOutward_spec (extentValues ++ used) loop outer
    with ⟨inside', target', crossed, outside', isOuter, isCrossed, stops, before⟩
  have isFrame : frame = target'.frame := walked.trans stops
  -- the check's block names one loop of the nest, so the two splits agree
  have isNest' : loop :: outer = inside' ++ target' :: outside' := by
    rw [isOuter, ← cons_append, isCrossed, append_assoc]
    rfl
  have sameBlock : target.block = target'.block := by
    rw [← target.preheaderBlock_eq, ← target'.preheaderBlock_eq, ← isTarget, ← isFrame]
    exact hoisted.placed
  rcases split_unique (nodup_blocks nested) isNest isNest' sameBlock with ⟨rfl, rfl⟩
  exact ⟨isFrame, crossed, isCrossed, fun other isCrossedLoop handle member =>
    before other isCrossedLoop handle (mem_append_right _ member)⟩

end Soundness

/-- A check that left its loops for the preheader of `target` covers them: when
it passes there, no iteration of the loops inside performs the access out of
bounds. -/
theorem placeResidualCheck_hoisted_sound (compiler : FunctionCompiler)
    (shifts : ShiftSemantics) (goals : AxisGoals)
    (dynamicExtent : Option (TileRustValue SsaValue)) (block : Nat)
    (nest : List CompiledLoop) (nested : nest.IsChain CompiledLoop.NestedIn)
    (check : ResidualCheck)
    (placed : compiler.placeResidualCheck goals dynamicExtent block
      (nest.map CompiledLoop.frame) = .ok check)
    (isHoisted : check.hoisted = true)
    (inside outside : List CompiledLoop) (target : CompiledLoop)
    (isNest : nest = inside ++ target :: outside)
    (isTarget : check.block = target.frame.preheaderBlock)
    (preheader access : Environment) (run : Inside (inside ++ [target]) preheader access)
    (value : Int) (index : IndexFacts goals.index access value)
    (extent : Int) (extents : ExtentFacts goals dynamicExtent preheader extent)
    (positive : 1 ≤ goals.tile) (machine : IntegerFormat.i32.Represents goals.tile)
    (passes : check.condition.eval shifts preheader ≠ some 0) :
    0 ≤ value ∧ value < ceilQuotient extent goals.tile := by
  rcases hoisted_of_placeResidualCheck placed isHoisted
    with ⟨_, _, frame, kind, used, isStack, hoisted⟩
  rcases hoisted.crosses (isStack ▸ nested) (isStack ▸ isNest) isTarget
    with ⟨isFrame, _, isCrossed, before⟩
  have covered := run.outermost_runs
  rw [← isCrossed] at run
  cases run with
  | iterate entered runs =>
    have agree : ∀ handle ∈ used, _ = preheader handle := fun handle member =>
      entered.dominated fun loop isCrossedLoop => before loop isCrossedLoop handle member
    have between := hoisted.classified.value_between runs index agree
    have known : KnownBefore goals.index used preheader := by
      intro handle member isHandle
      have same : preheader handle = value := by
        rw [← agree handle member,
          ← runs.dominated handle (hoisted.classified.used_lt handle member)]
        exact index.reads handle isHandle
      exact ⟨index.kind, same ▸ index.interval⟩
    rw [hoisted.eval extents positive machine index.typed known] at passes
    rcases not_not.mp ((indicator_eq_zero_iff _).not.mp passes)
      with ⟨_, vacuous⟩ | ⟨nonneg, below⟩
    · -- the target loop is running, so its guard cannot be what passed
      rcases covered with ⟨_, _, point⟩
      rw [isFrame] at vacuous
      exact absurd vacuous (not_le.mpr (point.lower_le.trans_lt point.runs))
    · refine ⟨?_, between.2.trans_lt below⟩
      by_cases needed :
        (lowerStatic compiler.checkOpts goals.index (some kind)).isNone = true
      · exact (nonneg needed).trans between.1
      · exact hoisted.nonneg_of_settled runs index needed

/-! A load in a loop over four tiles inside a loop over rows: the check leaves
both loops. Value 0 is the extent, 1 the number of rows, 2 to 4 are constants. -/

def scalar (handle : SsaValue) (bounds : Option (Bounds Int)) : TileRustValue SsaValue :=
  { kind := .primitiveType, value := some handle, type := .i32, bounds }

def rowHeader : ForHeader where
  start := scalar 2 (some (.exact 0))
  finish := scalar 1 none
  step := none
  carried := 0
  hasEarlyExit := false

def columnHeader : ForHeader where
  start := scalar 3 (some (.exact 0))
  finish := scalar 4 (some (.exact 4))
  step := none
  carried := 0
  hasEarlyExit := false

def rowLoop : CompiledLoop where
  header := rowHeader
  block := 0
  size := ⟨5, 1⟩
  lowered := (lowerFor rowHeader 0 ⟨5, 1⟩).toOption.get rfl
  lowers := rfl
  blockExists := by decide
  startDefined handle isHandle := by cases isHandle; decide
  finishDefined handle isHandle := by cases isHandle; decide

def columnLoop : CompiledLoop where
  header := columnHeader
  block := 1
  size := ⟨8, 2⟩
  lowered := (lowerFor columnHeader 1 ⟨8, 2⟩).toOption.get rfl
  lowers := rfl
  blockExists := by decide
  startDefined handle isHandle := by cases isHandle; decide
  finishDefined handle isHandle := by cases isHandle; decide

def columnGoals : AxisGoals where
  axis := 0
  extentAxis := 0
  tile := 16
  staticExtent := none
  index := columnLoop.lowered.iterand

def hoistingCompiler : FunctionCompiler where
  paramIndex _ := none
  paramIsMutable := []
  validator := []
  preconditions := []
  checkOpts := .release
  denyInKernelChecks := false

def beforeRows : Environment := fun value => ([100, 3, 0, 0, 4, 1] : List Int).getD value 0

def secondRow : Environment := fun value =>
  ([100, 3, 0, 0, 4, 1, 1, 1, 1] : List Int).getD value 0

def thirdColumn : Environment := fun value =>
  ([100, 3, 0, 0, 4, 1, 1, 1, 1, 2, 2] : List Int).getD value 0

theorem scalar_trueIn {handle : SsaValue} {bounds : Option (Bounds Int)}
    {environment : Environment}
    (machine : i32.Represents (environment handle))
    (interval : ∀ known, bounds = some known → environment handle ∈ known) :
    (scalar handle bounds).TrueIn environment := by
  constructor
  · intro found isFound
    cases isFound
    exact machine
  · intro found isFound
    cases isFound
    exact interval

theorem secondRow_runs : Iteration rowHeader rowLoop.frame beforeRows secondRow 1 where
  starts := ⟨scalar_trueIn (by decide) (by rintro _ ⟨⟩; decide),
    scalar_trueIn (by decide) (by rintro _ ⟨⟩), by rintro _ ⟨⟩, by decide⟩
  runs := by decide
  dominated := by decide
  counter := by decide

theorem thirdColumn_runs :
    Iteration columnHeader columnLoop.frame secondRow thirdColumn 2 where
  starts := ⟨scalar_trueIn (by decide) (by rintro _ ⟨⟩; decide),
    scalar_trueIn (by decide) (by rintro _ ⟨⟩; decide), by rintro _ ⟨⟩, by decide⟩
  runs := by decide
  dominated := by decide
  counter := by decide

theorem thirdColumn_facts : IndexFacts columnGoals.index thirdColumn 2 where
  kind := rfl
  typed := rfl
  machine := by decide
  reads := by rintro _ ⟨⟩; decide
  interval := by
    rintro _ ⟨⟩
    exact ⟨⟨by decide, by decide⟩, by decide, by decide⟩
  term := by
    rintro _ ⟨⟩
    exact ⟨counterValues thirdColumn, fun _ => rfl, Int.ModEq.refl 2⟩

theorem placeResidualCheck_hoisted_sound_columns :
    ∃ check, hoistingCompiler.placeResidualCheck columnGoals (some (scalar 0 none)) 2
        [columnLoop.frame, rowLoop.frame] = .ok check ∧
      check.hoisted = true ∧ check.block = 0 ∧
      check.condition.eval (fun _ _ _ _ => 0) beforeRows ≠ some 0 ∧
      (0 : Int) ≤ 2 ∧ 2 < ceilQuotient 100 16 := by
  refine ⟨_, rfl, rfl, rfl, by decide, ?_⟩
  have extents : ExtentFacts columnGoals (some (scalar 0 none)) beforeRows 100 :=
    ⟨by decide, by decide, nofun, by rintro _ ⟨⟩; decide,
      by rintro _ ⟨⟩; exact ⟨0, rfl, rfl⟩, by rintro _ ⟨⟩; exact nofun⟩
  have nested : [columnLoop, rowLoop].IsChain CompiledLoop.NestedIn := by
    rw [isChain_pair]
    exact le_refl 1
  exact placeResidualCheck_hoisted_sound hoistingCompiler (fun _ _ _ _ => 0) columnGoals
    (some (scalar 0 none)) 2 [columnLoop, rowLoop] nested _ rfl rfl [columnLoop] [] rowLoop
    rfl rfl beforeRows thirdColumn
    (.iterate (.iterate (.here beforeRows) secondRow_runs) thirdColumn_runs)
    2 thirdColumn_facts 100 extents (by decide) (by decide) (by decide)

end CuTile
