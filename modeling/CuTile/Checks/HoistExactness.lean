import CuTile.Checks.Hoisting

/-! # When a hoisted check is exact

A hoisted check tests an extreme of the index before the loop runs. It agrees
with the accesses of the loop exactly when that extreme is one of the indices
the loop uses.
-/

namespace CuTile

open IntegerFormat Option Division

/-- A run of a loop, as an access in its body sees it. The un-hoisted program
reaches the access in the first `reached` iterations: it may stop or hang before
the access, but an iteration cannot be left early. -/
structure LoopRun (loop : CompiledLoop) (preheader : Environment) where
  trips : Nat
  reached : Nat
  body : Nat → Environment
  starts : loop.header.Starts preheader
  runs : ∀ iteration < trips,
    Iteration loop.header loop.frame preheader (body iteration) iteration
  stops : preheader loop.frame.upper ≤ loop.frame.counterAt loop.header preheader trips
  reached_le : reached ≤ trips

namespace LoopRun

variable {loop : CompiledLoop} {preheader : Environment} (run : LoopRun loop preheader)

theorem upper_le_of_empty (empty : run.trips = 0) :
    preheader loop.frame.upper ≤ preheader loop.frame.lower := by
  have stops := run.stops
  rwa [empty, LoopFrame.counterAt_zero] at stops

theorem trips_pos_of_knownNonEmpty (known : loop.frame.knownNonEmpty = true) :
    0 < run.trips := by
  have isKnown : loop.header.knownNonEmpty = true := loop.lowered_from.nonEmpty ▸ known
  unfold ForHeader.knownNonEmpty at isKnown
  split at isKnown
  · rename_i lower upper isLower isUpper
    have start := run.starts.start.interval _ loop.lower_spec lower isLower
    have finish := run.starts.finish.interval _ loop.upper_spec upper isUpper
    have nonEmpty : lower.last < upper.start := of_decide_eq_true isKnown
    apply Nat.pos_of_ne_zero
    intro empty
    have stops := run.upper_le_of_empty empty
    exact absurd (start.2.trans_lt (nonEmpty.trans_le finish.1)) (not_lt.mpr stops)
  · cases isKnown

theorem last_counter (unit : loop.frame.unitStep = true) (positive : 0 < run.trips) :
    loop.frame.counterAt loop.header preheader (run.trips - 1) =
      preheader loop.frame.upper - 1 := by
  have noStep : loop.header.step = none := by
    have isNone : loop.header.step.isNone = true := loop.lowered_from.unitStep ▸ unit
    simpa using isNone
  have step : loop.header.stepAt preheader = 1 := by rw [ForHeader.stepAt, noStep]
  have last := (run.runs (run.trips - 1) (Nat.sub_lt positive one_pos)).runs
  have stops := run.stops
  have cast : ((run.trips - 1 : Nat) : Int) = run.trips - 1 := by omega
  rw [LoopFrame.counterAt, step, cast] at last ⊢
  rw [LoopFrame.counterAt, step] at stops
  omega

/-- The range kept for constant bounds goes from the first counter to the last. -/
theorem inductionRange_ends (starts : loop.header.Starts preheader) {counters : Bounds Int}
    (known : loop.frame.inductionRange = some counters) :
    counters.start = preheader loop.frame.lower ∧
      counters.last = preheader loop.frame.upper - 1 := by
  have isRange : loop.header.inductionRange = some counters :=
    loop.lowered_from.range ▸ known
  unfold ForHeader.inductionRange at isRange
  split_ifs at isRange
  rcases bind_eq_some_iff.mp isRange with ⟨lower, isLower, isRange⟩
  rcases bind_eq_some_iff.mp isRange with ⟨upper, isUpper, isRange⟩
  cases isRange
  exact ⟨(starts.start.eq_of_exactValue isLower loop.lower_spec).symm,
    congrArg (· - 1) (starts.finish.eq_of_exactValue isUpper loop.upper_spec).symm⟩

end LoopRun

/-- The largest index that is taken into account for a loop: the end of the
interval recorded for the index, or else the largest one used in an iteration. -/
structure IsExtreme (index : TileRustValue SsaValue) (indexAt : Nat → Int) (trips : Nat)
    (extreme : Int) : Prop where
  recorded : ∀ bounds, index.bounds.filter fitsI32 = some bounds → extreme = bounds.last
  attained : index.bounds.filter fitsI32 = none → ∃ iteration < trips,
    indexAt iteration = extreme ∧ ∀ other < trips, indexAt other ≤ extreme

theorem IsExtreme.unique {index : TileRustValue SsaValue} {indexAt : Nat → Int}
    {trips : Nat} {first second : Int} (isFirst : IsExtreme index indexAt trips first)
    (isSecond : IsExtreme index indexAt trips second) : first = second := by
  cases known : index.bounds.filter fitsI32 with
  | some bounds => rw [isFirst.recorded bounds known, isSecond.recorded bounds known]
  | none =>
    rcases isFirst.attained known with ⟨i, iInside, rfl, iLargest⟩
    rcases isSecond.attained known with ⟨j, jInside, rfl, jLargest⟩
    exact le_antisymm (jLargest i iInside) (iLargest j jInside)

theorem affineRange_last {frame : LoopFrame} {id : SsaValue} {scale offset : Int}
    {counters range : Bounds Int} (known : frame.inductionRange = some counters)
    (ranged : affineRange frame id scale offset = some range) :
    range.last = scale * counters.start + offset ∨
      range.last = scale * counters.last + offset := by
  rw [affineRange, known, bind_some] at ranged
  by_cases degenerate : scale = 0
  · subst degenerate
    rw [Term.affine, dif_pos rfl] at ranged
    cases ranged
    exact .inl (by simp [Term.constant])
  · rw [Term.affine, dif_neg degenerate] at ranged
    simp only [termRange, OrderedMap.singleton, List.foldlM_cons, List.foldlM_nil,
      termRangeStep, if_true, bind, bind_some, bind_eq_some_iff, pure,
      checked_eq_some_iff, some.injEq] at ranged
    rcases ranged with ⟨stepped, ⟨_, ⟨_, rfl⟩, _, ⟨_, rfl⟩, _, ⟨_, rfl⟩, _, ⟨_, rfl⟩, rfl⟩, rfl⟩
    rcases max_choice (scale * counters.start) (scale * counters.last) with first | last
    · exact .inl ((congrArg (offset + ·) first).trans (add_comm _ _))
    · exact .inr ((congrArg (offset + ·) last).trans (add_comm _ _))

section Exactness

variable {index : TileRustValue SsaValue} {loop : CompiledLoop} {kind : HoistIndex}
  {used : List SsaValue} {preheader : Environment} (run : LoopRun loop preheader)
  {indexAt : Nat → Int}

section

variable (classified : Classified index loop.frame kind used)
  (facts : ∀ iteration < run.trips, IndexFacts index (run.body iteration) (indexAt iteration))
  (positive : 0 < run.trips)

include classified facts positive

/-- In a loop that runs, the strongest instance is the extreme of the index. -/
theorem Classified.strongest_isExtreme :
    IsExtreme index indexAt run.trips (strongestInstance index preheader kind) := by
  have between : ∀ iteration < run.trips,
      indexAt iteration ≤ strongestInstance index preheader kind := fun iteration inside =>
    (classified.value_between (run.runs iteration inside) (facts iteration inside)
      fun _ _ => rfl).2
  have last : run.trips - 1 < run.trips := Nat.sub_lt positive one_pos
  cases classified with
  | interval known =>
    rcases filter_eq_some_iff.mp known with ⟨isBounds, fits⟩
    have inside := ((facts 0 positive).interval _ isBounds).2
    constructor
    · intro bounds isKnown
      rw [known] at isKnown
      cases isKnown
      exact (wrap_of_fitsI32 fits inside).2
    · intro unknown
      rw [known] at unknown
      cases unknown
  | affineRange unknown affine isValue unit ranged =>
    rcases filter_eq_some_iff.mp ranged with ⟨isRange, fits⟩
    have valueAt := fun iteration inside => value_eq_affine (run.runs iteration inside)
      (facts iteration inside) affine isValue isRange fits
    have isLast := (wrap_of_fitsI32 fits (valueAt 0 positive).2).2
    rcases bind_eq_some_iff.mp isRange with ⟨_, known, _⟩
    have final := run.last_counter unit positive
    have ends := LoopRun.inductionRange_ends run.starts known
    refine ⟨fun bounds isKnown => ?_, fun _ => ?_⟩
    · rw [unknown] at isKnown
      cases isKnown
    · rcases affineRange_last known isRange with atFirst | atLast
      · refine ⟨0, positive, ?_, between⟩
        rw [← (valueAt 0 positive).1, LoopFrame.counterAt_zero, ← ends.1, ← atFirst]
        exact isLast.symm
      · refine ⟨run.trips - 1, last, ?_, between⟩
        rw [← (valueAt _ last).1, final, ← ends.2, ← atLast]
        exact isLast.symm
  | identity unknown affine isValue unit =>
    refine ⟨fun bounds isKnown => ?_, fun _ => ⟨run.trips - 1, last, ?_, between⟩⟩
    · rw [unknown] at isKnown
      cases isKnown
    · rw [← value_eq_counter (run.runs _ last) (facts _ last) affine isValue,
        run.last_counter unit positive]
      exact (run.runs 0 positive).wrap_upper.symm
  | invariant unknown isValue defined =>
    refine ⟨fun bounds isKnown => ?_, fun _ => ⟨0, positive, ?_, between⟩⟩
    · rw [unknown] at isKnown
      cases isKnown
    · rw [strongestInstance, isValue, map_some, getD_some,
        ← (run.runs 0 positive).dominated _ defined, (facts 0 positive).reads _ isValue]

/-- The lower goal is decided by the first index, or was decided while compiling. -/
theorem Classified.weakest_spec {policy : CheckOptimizations}
    (discharges : policy.dischargeProofs = true)
    (needed : (lowerStatic policy index (some kind)).isNone = true) :
    weakestInstance index preheader kind = indexAt 0 := by
  cases classified with
  | interval known => simp [lowerStatic, discharges, known] at needed
  | affineRange unknown =>
    simp [lowerStatic, discharges, unknown, HoistIndex.ofRange] at needed
  | identity _ affine isValue =>
    rw [← value_eq_counter (run.runs 0 positive) (facts 0 positive) affine isValue,
      LoopFrame.counterAt_zero]
    rfl
  | invariant _ isValue defined =>
    rw [weakestInstance, isValue, map_some, getD_some,
      ← (run.runs 0 positive).dominated _ defined, (facts 0 positive).reads _ isValue]

end

end Exactness

/-- The same run under different extents: from `smallest` to `largest`, the check
finds the extent it is given, and everything else it reads is unchanged. -/
structure VariesExtent (goals : AxisGoals) (dynamicExtent : Option (TileRustValue SsaValue))
    (loop : CompiledLoop) (base : Environment) (smallest largest : Int)
    (preheader : Int → Environment) : Prop where
  ordered : smallest ≤ largest
  extents : ∀ extent, smallest ≤ extent → extent ≤ largest →
    ExtentFacts goals dynamicExtent (preheader extent) extent
  lower : ∀ extent, preheader extent loop.frame.lower = base loop.frame.lower
  upper : ∀ extent, preheader extent loop.frame.upper = base loop.frame.upper
  index : ∀ extent handle, goals.index.value = some handle →
    handle < loop.frame.valueWatermark → preheader extent handle = base handle

/-- The loop does not run; or an iteration that reaches the access uses a
negative index, one beyond every extent, or the extreme of the index; or the
extreme is in bounds for every extent. -/
def ExtremeReached (index : TileRustValue SsaValue) (tile : Int) (indexAt : Nat → Int)
    (trips reached : Nat) (smallest largest : Int) : Prop :=
  trips = 0 ∨
  (∃ iteration < reached, indexAt iteration < 0 ∨ largest ≤ indexAt iteration * tile ∨
    IsExtreme index indexAt trips (indexAt iteration)) ∨
  ((∀ iteration < trips, 0 ≤ indexAt iteration) ∧
    ∀ extreme, IsExtreme index indexAt trips extreme → extreme * tile < smallest)

theorem VariesExtent.instances {goals : AxisGoals}
    {dynamicExtent : Option (TileRustValue SsaValue)} {loop : CompiledLoop}
    {base : Environment} {smallest largest : Int} {preheader : Int → Environment}
    (varies : VariesExtent goals dynamicExtent loop base smallest largest preheader)
    {kind : HoistIndex} {used : List SsaValue}
    (classified : Classified goals.index loop.frame kind used) (extent : Int) :
    strongestInstance goals.index (preheader extent) kind =
        strongestInstance goals.index base kind ∧
      weakestInstance goals.index (preheader extent) kind =
        weakestInstance goals.index base kind := by
  cases classified with
  | interval => exact ⟨rfl, rfl⟩
  | affineRange => exact ⟨rfl, rfl⟩
  | identity =>
    rw [strongestInstance, strongestInstance, weakestInstance, weakestInstance,
      varies.upper, varies.lower]
    exact ⟨rfl, rfl⟩
  | invariant _ isValue defined =>
    rw [strongestInstance, strongestInstance, weakestInstance, weakestInstance, isValue,
      map_some, map_some, getD_some, getD_some,
      varies.index extent _ isValue defined]
    exact ⟨rfl, rfl⟩

section Verdicts

variable {index : TileRustValue SsaValue} {indexAt : Nat → Int} {trips reached : Nat}
  {tile smallest largest strongest weakest : Int} {needed : Prop}

/-- Some extent makes the check fail while every reached access is in bounds,
unless the extreme is reached or in bounds throughout. -/
theorem extremeReached_of_exact (positive : 1 ≤ tile) (ordered : smallest ≤ largest)
    (reached_le : reached ≤ trips) (extreme : IsExtreme index indexAt trips strongest)
    (atMost : ∀ iteration < trips, indexAt iteration ≤ strongest)
    (atLeast : needed → ∀ iteration < trips, weakest ≤ indexAt iteration)
    (static : ¬needed → ∀ iteration < trips, 0 ≤ indexAt iteration)
    (exact : ∀ extent, smallest ≤ extent → extent ≤ largest →
      ¬((needed → 0 ≤ weakest) ∧ strongest < ceilQuotient extent tile) →
      ∃ iteration < reached,
        indexAt iteration < 0 ∨ ceilQuotient extent tile ≤ indexAt iteration) :
    ExtremeReached index tile indexAt trips reached smallest largest := by
  by_contra fails
  simp only [ExtremeReached, not_or, not_exists, not_and] at fails
  rcases fails with ⟨_, notReached, inBounds⟩
  have nonneg : ∀ iteration < trips, 0 ≤ indexAt iteration := by
    intro iteration inside
    by_contra negative
    -- a negative index fails the check under every extent, the largest included
    have isNeeded : needed := by
      by_contra settled
      exact negative (static settled iteration inside)
    have weak : ¬0 ≤ weakest := fun bound =>
      negative (bound.trans (atLeast isNeeded iteration inside))
    rcases exact largest ordered le_rfl (fun both => weak (both.1 isNeeded))
      with ⟨witness, isReached, faulty⟩
    rcases notReached witness isReached with ⟨notNegative, notBeyond, _⟩
    rcases faulty with below | beyond
    · exact notNegative below
    · exact notBeyond ((ceilQuotient_le_iff positive).mp beyond)
  apply inBounds nonneg
  intro other isOther
  cases isOther.unique extreme
  by_contra outside
  -- the largest extent that the extreme still violates
  have failing : ¬((needed → 0 ≤ weakest) ∧
      strongest < ceilQuotient (min largest (strongest * tile)) tile) := by
    intro both
    exact absurd both.2 (not_lt.mpr
      ((ceilQuotient_le_iff positive).mpr (min_le_right _ _)))
  rcases exact _ (le_min ordered (not_lt.mp outside)) (min_le_left _ _) failing
    with ⟨witness, isReached, faulty⟩
  rcases notReached witness isReached with ⟨notNegative, notBeyond, notExtreme⟩
  rcases faulty with below | beyond
  · exact notNegative below
  · rcases min_le_iff.mp ((ceilQuotient_le_iff positive).mp beyond) with far | attained
    · exact notBeyond far
    · have same : indexAt witness = strongest :=
        le_antisymm (atMost witness (isReached.trans_le reached_le))
          (le_of_mul_le_mul_right attained (by omega))
      exact notExtreme (same ▸ extreme)

theorem exact_of_extremeReached (positive : 1 ≤ tile) (runs : 0 < trips)
    (extreme : IsExtreme index indexAt trips strongest)
    (first : needed → weakest = indexAt 0)
    (condition : ExtremeReached index tile indexAt trips reached smallest largest)
    {extent : Int} (above : smallest ≤ extent) (below : extent ≤ largest)
    (fails : ¬((needed → 0 ≤ weakest) ∧ strongest < ceilQuotient extent tile)) :
    ∃ iteration < reached,
      indexAt iteration < 0 ∨ ceilQuotient extent tile ≤ indexAt iteration := by
  rcases condition with empty | ⟨witness, isReached, reason⟩ | ⟨nonneg, inBounds⟩
  · exact absurd empty runs.ne'
  · rcases reason with negative | beyond | isExtreme
    · exact ⟨witness, isReached, .inl negative⟩
    · exact ⟨witness, isReached, .inr
        ((ceilQuotient_le_iff positive).mpr (below.trans beyond))⟩
    · cases isExtreme.unique extreme
      by_cases lower : needed → 0 ≤ weakest
      · exact ⟨witness, isReached, .inr (not_lt.mp fun inside => fails ⟨lower, inside⟩)⟩
      · rcases Classical.not_imp.mp lower with ⟨isNeeded, negative⟩
        rw [first isNeeded] at negative
        exact ⟨0, (Nat.zero_le _).trans_lt isReached, .inl (not_le.mp negative)⟩
  · refine absurd ⟨fun isNeeded => ?_, ?_⟩ fails
    · rw [first isNeeded]
      exact nonneg 0 runs
    · rw [lt_ceilQuotient_iff positive]
      exact (inBounds strongest extreme).trans_le above

end Verdicts

/-- When a check in its own loop's preheader fails, in terms of the run. -/
theorem Hoisted.traps_iff {compiler : FunctionCompiler} {goals : AxisGoals}
    {dynamicExtent : Option (TileRustValue SsaValue)} {block : Nat} {loop : CompiledLoop}
    {outer : List CompiledLoop} {kind : HoistIndex} {used : List SsaValue}
    {check : ResidualCheck} {base : Environment} {smallest largest : Int}
    {preheader : Int → Environment}
    (hoisted : Hoisted compiler goals dynamicExtent block loop outer loop.frame kind used
      check) (shifts : ShiftSemantics) (typed : goals.index.type = .i32)
    (before : ∀ handle, goals.index.value = some handle →
      handle < loop.frame.valueWatermark → goals.index.kind = .primitiveType ∧
        ∀ bounds, goals.index.bounds = some bounds → bounds.Fits ∧ base handle ∈ bounds)
    (varies : VariesExtent goals dynamicExtent loop base smallest largest preheader)
    (positive : 1 ≤ goals.tile) (machine : i32.Represents goals.tile)
    {extent : Int} (above : smallest ≤ extent) (below : extent ≤ largest) :
    check.condition.eval shifts (preheader extent) = some 0 ↔
      ¬((loop.frame.knownNonEmpty = false ∧
          base loop.frame.upper ≤ base loop.frame.lower) ∨
        (((lowerStatic compiler.checkOpts goals.index (some kind)).isNone = true →
            0 ≤ weakestInstance goals.index base kind) ∧
          strongestInstance goals.index base kind < ceilQuotient extent goals.tile)) := by
  have known : KnownBefore goals.index used (preheader extent) := by
    intro handle member isHandle
    have defined := hoisted.classified.used_lt handle member
    rw [varies.index extent handle isHandle defined]
    exact before handle isHandle defined
  rw [hoisted.eval (varies.extents extent above below) positive machine typed known,
    varies.upper, varies.lower, (varies.instances hoisted.classified extent).1,
    (varies.instances hoisted.classified extent).2]
  exact indicator_eq_zero_iff _

/-- A check hoisted to its loop's preheader fails only when a reached access is
out of bounds, for every extent in a range, exactly when the extreme of the index
is reached. -/
theorem placeResidualCheck_traps_exact (compiler : FunctionCompiler)
    (shifts : ShiftSemantics) (goals : AxisGoals)
    (dynamicExtent : Option (TileRustValue SsaValue)) (block : Nat)
    (loop : CompiledLoop) (outer : List CompiledLoop)
    (nested : (loop :: outer).IsChain CompiledLoop.NestedIn) (check : ResidualCheck)
    (placed : compiler.placeResidualCheck goals dynamicExtent block
      ((loop :: outer).map CompiledLoop.frame) = .ok check)
    (isHoisted : check.hoisted = true)
    (isTarget : check.block = loop.frame.preheaderBlock)
    (base : Environment) (run : LoopRun loop base) (indexAt : Nat → Int)
    (facts : ∀ iteration < run.trips,
      IndexFacts goals.index (run.body iteration) (indexAt iteration))
    (typed : goals.index.type = .i32)
    (before : ∀ handle, goals.index.value = some handle →
      handle < loop.frame.valueWatermark → goals.index.kind = .primitiveType ∧
        ∀ bounds, goals.index.bounds = some bounds → bounds.Fits ∧ base handle ∈ bounds)
    (smallest largest : Int) (preheader : Int → Environment)
    (varies : VariesExtent goals dynamicExtent loop base smallest largest preheader)
    (positive : 1 ≤ goals.tile) (machine : IntegerFormat.i32.Represents goals.tile) :
    (∀ extent, smallest ≤ extent → extent ≤ largest →
      check.condition.eval shifts (preheader extent) = some 0 →
      ∃ iteration < run.reached,
        indexAt iteration < 0 ∨ ceilQuotient extent goals.tile ≤ indexAt iteration) ↔
      ExtremeReached goals.index goals.tile indexAt run.trips run.reached
        smallest largest := by
  rcases hoisted_of_placeResidualCheck placed isHoisted
    with ⟨_, _, _, kind, _, isNest, hoisted⟩
  cases isNest
  have stands := hoisted.crosses nested (List.nil_append (loop :: outer)).symm isTarget
  cases stands.1
  have verdict := fun extent (above : smallest ≤ extent) below =>
    hoisted.traps_iff shifts typed before varies positive machine above below
  rcases Nat.eq_zero_or_pos run.trips with empty | runs
  · -- an empty loop is behind its guard
    refine ⟨fun _ => .inl empty, fun _ extent above below traps => ?_⟩
    refine absurd (.inl ⟨?_, run.upper_le_of_empty empty⟩) ((verdict extent above below).mp traps)
    by_contra nonEmpty
    have some := run.trips_pos_of_knownNonEmpty (by simpa using nonEmpty)
    exact some.ne' empty
  · have notVacuous : ¬base loop.frame.upper ≤ base loop.frame.lower :=
      not_le.mpr ((run.runs 0 runs).lower_le.trans_lt (run.runs 0 runs).runs)
    have extreme := hoisted.classified.strongest_isExtreme run facts runs
    have between := fun iteration inside => hoisted.classified.value_between
      (run.runs iteration inside) (facts iteration inside) fun _ _ => rfl
    have first := hoisted.classified.weakest_spec run facts runs hoisted.discharges
    constructor
    · intro exact
      apply extremeReached_of_exact positive varies.ordered run.reached_le extreme
        (fun iteration inside => (between iteration inside).2)
        (fun _ iteration inside => (between iteration inside).1)
      · intro settled iteration inside
        exact hoisted.nonneg_of_settled (run.runs iteration inside) (facts iteration inside)
          settled
      · intro extent above below fails
        apply exact extent above below
        rw [verdict extent above below]
        rintro (⟨_, vacuous⟩ | passes)
        · exact notVacuous vacuous
        · exact fails passes
    · intro condition extent above below traps
      apply exact_of_extremeReached positive runs extreme first condition above below
      intro passes
      exact (verdict extent above below).mp traps (.inr passes)

/-! A loop `for k in 0..n` where `n` is only known to lie between 1 and 10. Value 0
is the extent, 1 is `n`, 2 is the constant zero. -/

def rangedHeader : ForHeader where
  start := scalar 2 (some (.exact 0))
  finish := scalar 1 (some ⟨1, 10⟩)
  step := none
  carried := 0
  hasEarlyExit := false

def rangedLoop : CompiledLoop where
  header := rangedHeader
  block := 0
  size := ⟨3, 1⟩
  lowered := (lowerFor rangedHeader 0 ⟨3, 1⟩).toOption.get rfl
  lowers := rfl
  blockExists := by decide
  startDefined handle isHandle := by cases isHandle; decide
  finishDefined handle isHandle := by cases isHandle; decide

def rangedGoals : AxisGoals where
  axis := 0
  extentAxis := 0
  tile := 1
  staticExtent := none
  index := rangedLoop.lowered.iterand

def rangedPreheader (count : Nat) (extent : Int) : Environment :=
  fun value => [extent, (count : Int), 0, 1].getD value 0

def rangedBody (count iteration : Nat) : Environment :=
  fun value => [4, (count : Int), 0, 1, (iteration : Int), (iteration : Int)].getD value 0

theorem ranged_starts {count : Nat} (positive : 1 ≤ count) (small : count ≤ 10) :
    rangedHeader.Starts (rangedPreheader count 4) where
  start := scalar_trueIn (by decide : i32.Represents 0)
    (by rintro _ ⟨⟩; exact ⟨le_rfl, le_rfl⟩)
  finish := by
    have machine : i32.Represents (rangedPreheader count 4 1) := by
      rw [represents_i32]
      change -2147483648 ≤ (count : Int) ∧ (count : Int) ≤ 2147483647
      omega
    apply scalar_trueIn machine
    rintro _ ⟨⟩
    exact ⟨Int.ofNat_le.mpr positive, Int.ofNat_le.mpr small⟩
  step := by rintro _ ⟨⟩
  advances := one_pos

theorem ranged_counter (count iteration : Nat) :
    rangedLoop.frame.counterAt rangedHeader (rangedPreheader count 4) iteration = iteration := by
  change (0 : Int) + iteration * 1 = iteration
  omega

/-- Every iteration of the loop reaches the access. -/
def rangedRun (count : Nat) (positive : 1 ≤ count) (small : count ≤ 10) :
    LoopRun rangedLoop (rangedPreheader count 4) where
  trips := count
  reached := count
  body := rangedBody count
  starts := ranged_starts positive small
  runs iteration inside := by
    refine ⟨ranged_starts positive small, ?_, ?_, ?_⟩
    · exact (ranged_counter count iteration).trans_lt (Int.ofNat_lt.mpr inside)
    · intro value defined
      have watermark : rangedLoop.frame.valueWatermark = 4 := rfl
      match value with
      | 0 | 1 | 2 | 3 => rfl
      | _ + 4 => omega
    · intro value member
      have counters : rangedLoop.frame.inductionValues = [4, 5] := rfl
      rw [counters] at member
      refine Eq.trans ?_ (ranged_counter count iteration).symm
      rcases List.mem_cons.mp member with rfl | member
      · rfl
      · rw [List.mem_singleton.mp member]
        rfl
  stops := (ranged_counter count count).ge
  reached_le := le_rfl

theorem ranged_facts {count iteration : Nat} (small : count ≤ 10)
    (inside : iteration < count) :
    IndexFacts rangedGoals.index (rangedBody count iteration) iteration where
  kind := rfl
  typed := rfl
  machine := by
    rw [represents_i32]
    omega
  reads := by rintro _ ⟨⟩; rfl
  interval := by
    rintro _ ⟨⟩
    refine ⟨⟨by decide, by decide⟩, Int.natCast_nonneg iteration, ?_⟩
    change (iteration : Int) ≤ 9
    omega
  term := by
    rintro _ ⟨⟩
    refine ⟨counterValues (rangedBody count iteration), fun _ => rfl, ?_⟩
    rw [Term.value_atom]
    exact Int.ModEq.refl (iteration : Int)

theorem ranged_before {handle : SsaValue}
    (isHandle : rangedGoals.index.value = some handle)
    (defined : handle < rangedLoop.frame.valueWatermark) : False := by
  cases isHandle
  exact absurd defined (by decide)

theorem ranged_varies (count : Nat) :
    VariesExtent rangedGoals (some (scalar 0 none)) rangedLoop (rangedPreheader count 4)
      0 2147483647 (rangedPreheader count) where
  ordered := by decide
  extents extent nonneg small := ⟨nonneg, small, nofun, by rintro _ ⟨⟩; exact ⟨rfl, rfl⟩,
    by rintro _ ⟨⟩; exact ⟨0, rfl, rfl⟩, by rintro _ ⟨⟩; exact nofun⟩
  lower _ := rfl
  upper _ := rfl
  index _ _ isHandle defined := (ranged_before isHandle defined).elim

/-- With `n = 1` the loop only loads tile 0 of four, but the check tests tile 9. -/
theorem placeResidualCheck_traps_spuriously :
    ∃ check, hoistingCompiler.placeResidualCheck rangedGoals (some (scalar 0 none)) 1
        [rangedLoop.frame] = .ok check ∧
      check.hoisted = true ∧ check.block = rangedLoop.frame.preheaderBlock ∧
      ∃ run : LoopRun rangedLoop (rangedPreheader 1 4), run.trips = 1 ∧ run.reached = 1 ∧
        (∀ iteration < run.trips, IndexFacts rangedGoals.index (run.body iteration)
          iteration) ∧
        check.condition.eval (fun _ _ _ _ => 0) (rangedPreheader 1 4) = some 0 ∧
        ∀ iteration < run.reached, (0 : Int) ≤ iteration ∧
          (iteration : Int) < ceilQuotient 4 rangedGoals.tile := by
  refine ⟨_, rfl, rfl, rfl, rangedRun 1 (by decide) (by decide), rfl, rfl,
    fun iteration inside => ranged_facts (by decide) inside, by decide, ?_⟩
  intro iteration inside
  cases Nat.lt_one_iff.mp inside
  decide

/-- With `n = 10` the check is exact under every extent. -/
theorem placeResidualCheck_traps_exact_full :
    ∃ check, hoistingCompiler.placeResidualCheck rangedGoals (some (scalar 0 none)) 1
        [rangedLoop.frame] = .ok check ∧
      ∀ extent, 0 ≤ extent → extent ≤ 2147483647 →
        check.condition.eval (fun _ _ _ _ => 0) (rangedPreheader 10 extent) = some 0 →
        ∃ iteration : Nat, iteration < 10 ∧ ((iteration : Int) < 0 ∨
          ceilQuotient extent rangedGoals.tile ≤ iteration) := by
  have reached : ExtremeReached rangedGoals.index rangedGoals.tile (fun k => (k : Int)) 10 10
      0 2147483647 := by
    refine .inr (.inl ⟨9, by decide, .inr (.inr ⟨?_, ?_⟩)⟩)
    · rintro _ ⟨⟩
      rfl
    · rintro ⟨⟩
  exact ⟨_, rfl, (placeResidualCheck_traps_exact hoistingCompiler (fun _ _ _ _ => 0)
    rangedGoals (some (scalar 0 none)) 1 rangedLoop [] (List.isChain_singleton _) _ rfl rfl rfl
    (rangedPreheader 10 4) (rangedRun 10 (by decide) (by decide)) (fun k => (k : Int))
    (fun iteration inside => ranged_facts (by decide) inside) rfl
    (fun handle isHandle defined => (ranged_before isHandle defined).elim) 0 2147483647
    (rangedPreheader 10) (ranged_varies 10) (by decide) (by decide)).mpr reached⟩

end CuTile
