import CuTile.Compiler.ForLoop

/-! # What a loop says about its counter

A lowered loop attaches an interval to its counter, which later folds take for
the values the loop reaches, and tells the device compiler bounds it may rely on.
This module compares both with the values the loop visits.
-/

namespace CuTile

open IntegerFormat Option Bounds

/-- A loop from `start` below `finish` in steps of `step` visits `value`. -/
def Visits (start finish step value : Int) : Prop :=
  ∃ count : Nat, value = start + count * step ∧ value < finish

theorem Visits.start_le {start finish step value : Int} (positive : 0 < step)
    (visits : Visits start finish step value) : start ≤ value := by
  rcases visits with ⟨count, rfl, _⟩
  have travelled : 0 ≤ count * step := by positivity
  omega

theorem visits_start {start finish : Int} (step : Int) (runs : start < finish) :
    Visits start finish step start :=
  ⟨0, by simp, runs⟩

theorem ForHeader.stepConst_pos {header : ForHeader} {step : Int}
    (valid : header.checkStep = .ok ()) (known : header.stepConst = some step) : 0 < step := by
  unfold ForHeader.checkStep at valid
  rw [known] at valid
  dsimp only at valid
  split_ifs at valid with nonpos
  exact not_le.mp nonpos

/-! ## The interval of the counter -/

/-- Every pair of bounds inside these intervals that lets the loop run makes it
visit the same first and last value: there is no such pair, or only one with one
iteration, or the start is known and all ends give the same last iteration. -/
def HullSharp (lower upper : Bounds Int) (step : Int) : Prop :=
  lower.last < lower.start ∨ upper.last < upper.start ∨ upper.last ≤ lower.start + 1 ∨
    (lower.start = lower.last ∧
      (max upper.start (lower.start + 1) - 1 - lower.start) / step =
        (upper.last - 1 - lower.start) / step)

instance (lower upper : Bounds Int) (step : Int) : Decidable (HullSharp lower upper step) :=
  inferInstanceAs (Decidable (_ ∨ _ ∨ _ ∨ _ ∧ _))

/-- The loop visits values of the interval only, and both of its ends. -/
def IsHull (interval : Bounds Int) (start finish step : Int) : Prop :=
  (∀ value, Visits start finish step value → value ∈ interval) ∧
    Visits start finish step interval.start ∧ Visits start finish step interval.last

section Hull

variable {header : ForHeader} {lower upper interval : Bounds Int} {step start finish : Int}

theorem ForHeader.lastAttained_of_le {start step last : Int} (ordered : start ≤ last) :
    lastAttained start step last = start + step * ((last - start) / step) := by
  rw [lastAttained, if_pos ordered, Int.tdiv_eq_ediv_of_nonneg (sub_nonneg.mpr ordered)]

section

variable (isLower : header.start.bounds = some lower)
  (isUpper : header.finish.bounds = some upper) (isStep : header.stepConst = some step)
  (kept : header.attained = some interval)

include isLower isUpper isStep kept

theorem ForHeader.attained_cases : interval.start = lower.start ∧
      ((step = 1 ∧ interval.last = upper.last - 1) ∨
        (lower.start = lower.last ∧
          interval.last = lastAttained lower.start step (upper.last - 1))) := by
  unfold ForHeader.attained at kept
  simp only [isLower, isUpper, isStep, bind_eq_bind, bind_some] at kept
  split_ifs at kept with unit exact
  · cases kept
    exact ⟨rfl, .inl ⟨unit, rfl⟩⟩
  · cases kept
    have isExact : lower.last = lower.start := of_decide_eq_true exact
    exact ⟨rfl, .inr ⟨isExact.symm, rfl⟩⟩

/-- In either case the upper end is the last value before the largest end, when
the start is known and below it. -/
theorem ForHeader.attained_last (runs : lower.start < upper.last) :
    interval.last = lower.start + step * ((upper.last - 1 - lower.start) / step) := by
  rcases (header.attained_cases isLower isUpper isStep kept).2 with ⟨rfl, last⟩ | ⟨_, last⟩
  · rw [last, Int.ediv_one]
    omega
  · rw [last, lastAttained_of_le (by omega)]

theorem isHull_of_sharp (positive : 0 < step)
    (sharp : HullSharp lower upper step) (startInside : start ∈ lower)
    (finishInside : finish ∈ upper) (runs : start < finish) :
    IsHull interval start finish step := by
  have startRange := mem_iff.mp startInside
  have finishRange := mem_iff.mp finishInside
  have first := (header.attained_cases isLower isUpper isStep kept).1
  have last := header.attained_last isLower isUpper isStep kept (by omega)
  -- In the cases that are left, the start is the lower end of its interval, and
  -- the end gives the same number of steps as the largest one.
  have starts : start = lower.start ∧
      (upper.last - 1 - lower.start) / step ≤ (finish - 1 - lower.start) / step := by
    rcases sharp with empty | empty | once | ⟨exact, same⟩
    · omega
    · omega
    · have isStart : start = lower.start := by omega
      have isFinish : finish = upper.last := by omega
      exact ⟨isStart, by rw [isFinish]⟩
    · refine ⟨by omega, ?_⟩
      rw [← same]
      exact Int.ediv_le_ediv positive (by omega)
  rcases starts with ⟨rfl, steps⟩
  refine ⟨?_, ?_, ?_⟩
  · intro value visits
    refine ⟨first ▸ visits.start_le positive, ?_⟩
    rcases visits with ⟨count, rfl, below⟩
    rw [last, ← ForHeader.lastAttained_of_le (by omega)]
    exact ForHeader.le_lastAttained count positive (by omega)
  · rw [first]
    exact visits_start step runs
  · have nonneg : 0 ≤ (upper.last - 1 - lower.start) / step :=
      Int.ediv_nonneg (by omega) positive.le
    refine ⟨((upper.last - 1 - lower.start) / step).toNat, ?_, ?_⟩
    · rw [last, Int.toNat_of_nonneg nonneg, mul_comm]
    · rw [last]
      have covered := Int.mul_ediv_self_le (x := finish - 1 - lower.start) positive.ne'
      have scaled := mul_le_mul_of_nonneg_left steps positive.le
      omega

theorem sharp_of_isHull (positive : 0 < step)
    (hull : ∀ start ∈ lower, ∀ finish ∈ upper, start < finish →
      IsHull interval start finish step) : HullSharp lower upper step := by
  by_contra blunt
  simp only [HullSharp, not_or, not_lt, not_le, not_and] at blunt
  rcases blunt with ⟨lowerNonempty, upperNonempty, twice, different⟩
  have first := (header.attained_cases isLower isUpper isStep kept).1
  have last := header.attained_last isLower isUpper isStep kept (by omega)
  have exact : lower.start = lower.last := by
    rcases (header.attained_cases isLower isUpper isStep kept).2 with ⟨unit, _⟩ | ⟨exact, _⟩
    · by_contra inexact
      -- A later start never comes back to the lower end.
      have later := hull (lower.start + 1) ⟨by omega, by omega⟩ upper.last ⟨by omega, le_rfl⟩ twice
      have reached := later.2.1.start_le positive
      omega
    · exact exact
  -- The smallest end that lets the loop run reaches the upper end of the interval.
  have shortest := hull lower.start ⟨le_rfl, lowerNonempty⟩
    (max upper.start (lower.start + 1)) ⟨le_max_left _ _, by omega⟩ (by omega)
  rcases shortest.2.2 with ⟨count, _, below⟩
  rw [last] at below
  apply different exact
  apply le_antisymm
  · exact Int.ediv_le_ediv positive (by omega)
  · apply Int.le_ediv_of_mul_le positive
    rw [mul_comm]
    omega

end

/-- For every loop with a constant step whose counter keeps an interval: the
interval is the hull of the values the loop visits, for all ends inside their
intervals that let it run, exactly when all these runs have the same hull. -/
theorem iterand_interval_hull_iff {block : Nat} {size : ModuleSize} {loop : LoweredLoop}
    (lowered : lowerFor header block size = .ok loop)
    (isLower : header.start.bounds = some lower)
    (isUpper : header.finish.bounds = some upper) (isStep : header.stepConst = some step)
    (kept : loop.iterand.bounds = some interval) :
    (∀ start ∈ lower, ∀ finish ∈ upper, start < finish → IsHull interval start finish step) ↔
      HullSharp lower upper step := by
  have spec := lowerFor_spec lowered
  rw [spec.interval] at kept
  have positive := header.stepConst_pos spec.valid isStep
  constructor
  · exact sharp_of_isHull isLower isUpper isStep kept positive
  · intro sharp start startInside finish finishInside runs
    exact isHull_of_sharp isLower isUpper isStep kept positive sharp startInside finishInside runs

end Hull

def literal (value : SsaValue) (type : ElementType) (number : Int) : TileRustValue SsaValue :=
  { kind := .primitiveType, value := some value, type, bounds := some (.exact number) }

/-- `(0..10).step_by(4)` visits 0, 4 and 8. -/
theorem iterand_interval_hull_iff_stepped :
    let header : ForHeader :=
      ⟨literal 0 .i32 0, literal 1 .i32 10, some (literal 2 .i32 4), 0, false⟩
    ∃ loop, lowerFor header 0 ⟨3, 1⟩ = .ok loop ∧ loop.iterand.bounds = some ⟨0, 8⟩ ∧
      IsHull ⟨0, 8⟩ 0 10 4 := by
  intro header
  refine ⟨_, rfl, rfl, ?_⟩
  have lowered : lowerFor header 0 ⟨3, 1⟩ = .ok _ := rfl
  have hull := (iterand_interval_hull_iff lowered rfl rfl rfl rfl).mpr (by decide)
  exact hull 0 ⟨le_rfl, le_rfl⟩ 10 ⟨le_rfl, le_rfl⟩ (by decide)

/-- The inner loop of `for i in 0..4 { for j in 0..i { .. } }`. In the second
round of the outer loop it visits 0 only; its interval goes on to 2. -/
theorem iterand_interval_not_attained :
    let header : ForHeader :=
      ⟨literal 0 .i32 0, { literal 1 .i32 0 with bounds := some ⟨0, 3⟩ }, none, 0, false⟩
    ∃ loop, lowerFor header 0 ⟨2, 1⟩ = .ok loop ∧ loop.iterand.bounds = some ⟨0, 2⟩ ∧
      (0 : Int) ∈ exact (0 : Int) ∧ (1 : Int) ∈ (⟨0, 3⟩ : Bounds Int) ∧ (0 : Int) < 1 ∧
      ¬ IsHull ⟨0, 2⟩ 0 1 1 := by
  intro header
  refine ⟨_, rfl, rfl, by decide, by decide, by decide, ?_⟩
  intro hull
  rcases hull.2.2 with ⟨count, _, below⟩
  cases below

/-! ## Bounds told to the device compiler -/

/-- The predicate of an assumption about a range. -/
structure Bounded where
  lb : Option Int
  ub : Option Int
deriving DecidableEq, Repr

def Bounded.Holds (bounded : Bounded) (value : Int) : Prop :=
  (∀ lower, bounded.lb = some lower → lower ≤ value) ∧
    ∀ upper, bounded.ub = some upper → value ≤ upper

/-- The source functions that state a range. -/
inductive AssumeBounds where
  | assumeBoundsLower
  | assumeBoundsUpper
  | assumeBounds
deriving DecidableEq, Repr

/-- The predicate for a function and its `i32` arguments. -/
def compileValueAssumption : AssumeBounds → List Int → Except Failure Bounded
  | .assumeBoundsLower, [lower] => .ok ⟨some lower, none⟩
  | .assumeBoundsUpper, [upper] => .ok ⟨none, some upper⟩
  | .assumeBounds, [lower, upper] => .ok ⟨some lower, some upper⟩
  | .assumeBoundsLower, args => .error (.jitError
      s!"`assume_bounds_lower` requires 1 generic argument, got {args.length}")
  | .assumeBoundsUpper, args => .error (.jitError
      s!"`assume_bounds_upper` requires 1 generic argument, got {args.length}")
  | .assumeBounds, args => .error (.jitError
      s!"`assume_bounds` requires 2 generic arguments, got {args.length}")

namespace ForHeader

variable (header : ForHeader)

/-- The range the loop is assumed to stay in, when both bounds have intervals: the
attained one, or the range of the bounds. -/
def assumedRange (lower upper : Bounds Int) : Bounds Int :=
  header.attained.getD ⟨lower.start, upper.last - 1⟩

/-- The assumption about the counter. The ends are narrowed to `i32` on the way. -/
def iterandAssumption : Except Failure (Option Bounded) :=
  match header.start.bounds, header.finish.bounds with
  | some lower, some upper =>
    (compileValueAssumption .assumeBounds
      [IntegerFormat.i32.wrap (header.assumedRange lower upper).start,
        IntegerFormat.i32.wrap (header.assumedRange lower upper).last]).map some
  | some lower, none =>
    (compileValueAssumption .assumeBoundsLower [IntegerFormat.i32.wrap lower.start]).map some
  | none, some upper =>
    (compileValueAssumption .assumeBoundsUpper
      [IntegerFormat.i32.wrap (IntegerFormat.i32.wrap upper.last - 1)]).map some
  | none, none => .ok none

/-- The largest value the assumption means to allow. -/
def assumedLast : Option Int :=
  match header.start.bounds, header.finish.bounds with
  | some lower, some upper => some (header.assumedRange lower upper).last
  | none, some upper => some (upper.last - 1)
  | _, none => none

/-- Machine values of the bounds and of the step, as the facts about them allow,
for which the loop runs. -/
structure Runs (format : IntegerFormat) (start finish step : Int) : Prop where
  machine : format.Represents start ∧ format.Represents finish ∧ format.Represents step
  startFacts : ∀ bounds, header.start.bounds = some bounds → start ∈ bounds
  finishFacts : ∀ bounds, header.finish.bounds = some bounds → finish ∈ bounds
  unitStep : header.step = none → step = 1
  stepFacts : ∀ value, header.step = some value → ∀ bounds, value.bounds = some bounds →
    step ∈ bounds
  advances : 0 < step
  runs : start < finish

/-- An interval that can be attached to a value of the format: it stays in the
format's range, unless it is empty, which happens in code that is never run. -/
def Attachable (format : IntegerFormat) (bounds : Bounds Int) : Prop :=
  bounds.last < bounds.start ∨
    (format.minValue ≤ bounds.start ∧ bounds.last ≤ format.maxValue)

variable {header} {format : IntegerFormat} {start finish step value last : Int}

theorem Runs.step_eq {constant : Int} (run : header.Runs format start finish step)
    (known : header.stepConst = some constant) : step = constant := by
  unfold stepConst at known
  cases stepped : header.step with
  | none =>
    rw [stepped] at known
    rw [run.unitStep stepped]
    exact some.inj known
  | some value =>
    rw [stepped] at known
    rcases map_eq_some_iff.mp known with ⟨bounds, kept, rfl⟩
    rcases filter_eq_some_iff.mp kept with ⟨isBounds, exact⟩
    exact eq_start_of_mem exact (run.stepFacts value stepped bounds isBounds)

theorem stepConst_of_attained {interval : Bounds Int} (kept : header.attained = some interval) :
    ∃ constant, header.stepConst = some constant := by
  rcases bind_eq_some_iff.mp kept with ⟨_, _, kept⟩
  rcases bind_eq_some_iff.mp kept with ⟨_, _, kept⟩
  split at kept
  · rename_i constant isStep
    exact ⟨constant, isStep⟩
  · cases kept

section

variable (run : header.Runs format start finish step)

include run

/-- The assumed range starts where the start's interval does, contains the visited
values, and ends before the largest end. -/
theorem Runs.assumedRange_spec {lower upper : Bounds Int}
    (isLower : header.start.bounds = some lower) (isUpper : header.finish.bounds = some upper) :
    (header.assumedRange lower upper).start = lower.start ∧
      (header.assumedRange lower upper).last ≤ upper.last - 1 ∧
      ∀ value, Visits start finish step value →
        value ≤ (header.assumedRange lower upper).last := by
  have startInside := mem_iff.mp (run.startFacts lower isLower)
  have finishInside := mem_iff.mp (run.finishFacts upper isUpper)
  have runs := run.runs
  have below : ∀ value, Visits start finish step value → value ≤ upper.last - 1 := by
    intro value visits
    rcases visits with ⟨_, _, before⟩
    omega
  unfold assumedRange
  cases kept : header.attained with
  | none => exact ⟨rfl, le_rfl, below⟩
  | some interval =>
    rcases stepConst_of_attained kept with ⟨constant, isStep⟩
    have taken := run.step_eq isStep
    have positive := run.advances
    rw [getD_some]
    rcases header.attained_cases isLower isUpper isStep kept
      with ⟨first, ⟨_, last⟩ | ⟨exact, last⟩⟩
    · rw [last]
      exact ⟨first, le_rfl, below⟩
    · refine ⟨first, ?_, ?_⟩
      · rw [last, lastAttained_of_le (by omega)]
        have covered := Int.mul_ediv_self_le (x := upper.last - 1 - lower.start)
          (k := constant) (by omega)
        omega
      · intro value visits
        have before := below value visits
        rcases visits with ⟨count, rfl, _⟩
        have isStart : start = lower.start := by omega
        rw [last, ← isStart, ← taken]
        exact le_lastAttained count positive before

theorem Runs.assumedLast_spec (known : header.assumedLast = some last) :
    (∃ upper, header.finish.bounds = some upper ∧ last ≤ upper.last - 1) ∧
      ∀ value, Visits start finish step value → value ≤ last := by
  unfold assumedLast at known
  split at known
  · rename_i lower upper isLower isUpper
    cases known
    rcases run.assumedRange_spec isLower isUpper with ⟨_, before, contains⟩
    exact ⟨⟨upper, isUpper, before⟩, contains⟩
  · rename_i upper _ isUpper
    cases known
    refine ⟨⟨upper, isUpper, le_rfl⟩, ?_⟩
    intro value visits
    have finishInside := mem_iff.mp (run.finishFacts upper isUpper)
    rcases visits with ⟨_, _, before⟩
    omega
  · cases known

theorem iterandAssumption_eq {bounded : Bounded}
    (emitted : header.iterandAssumption = .ok (some bounded)) :
    bounded.lb = header.start.bounds.map (fun lower => i32.wrap lower.start) ∧
      bounded.ub = header.assumedLast.map i32.wrap := by
  unfold iterandAssumption at emitted
  unfold assumedLast
  cases isLower : header.start.bounds <;> cases isUpper : header.finish.bounds <;>
    rw [isLower, isUpper] at emitted <;> cases emitted
  case none.some.refl upper =>
    refine ⟨rfl, congrArg some ?_⟩
    have congruent := ((i32.wrap_modEq upper.last).sub_right 1).trans
      (i32.wrap_modEq (upper.last - 1)).symm
    exact i32.wrap_eq_of_modEq congruent (i32.wrap_represents _)
  case some.none.refl => exact ⟨rfl, rfl⟩
  case some.some.refl =>
    refine ⟨?_, rfl⟩
    rw [(run.assumedRange_spec isLower isUpper).1]
    rfl

end

theorem exists_iterandAssumption (known : header.assumedLast = some last) :
    ∃ bounded, header.iterandAssumption = .ok (some bounded) := by
  unfold assumedLast at known
  unfold iterandAssumption
  split at known
  case h_3 => cases known
  all_goals
    rename_i isLower isUpper
    rw [isLower, isUpper]
    exact ⟨_, rfl⟩

/-- The upper half of the `u32` values reads negative as `i32`. -/
theorem wrap_i32_of_upper_half {number : Int} (half : 2147483648 ≤ number)
    (fits : number ≤ 4294967295) : i32.wrap number = number - 4294967296 := by
  apply i32.wrap_eq_of_modEq
  · have modulus : (i32.modulus : Int) = 4294967296 := by decide
    rw [modulus]
    exact Int.modEq_sub_modulus_iff.mpr (Int.ModEq.refl number)
  · rw [represents_i32]
    omega

theorem wrap_i32_le {number : Int} (above : -2147483648 ≤ number)
    (below : number ≤ 4294967295) : i32.wrap number ≤ number := by
  by_cases half : 2147483648 ≤ number
  · rw [wrap_i32_of_upper_half half below]
    omega
  · rw [wrap_i32 (by omega)]

/-- The facts of a bound with a value stay in the range of its type. -/
theorem Attachable.range {bounds : Bounds Int} {number : Int}
    (attachable : Attachable format bounds) (inside : number ∈ bounds) :
    format.minValue ≤ bounds.start ∧ bounds.last ≤ format.maxValue := by
  have nonempty := mem_iff.mp inside
  rcases attachable with empty | range
  · omega
  · exact range

end ForHeader

/-- For every loop over `i32` or `u32`: what the device compiler is told about the
counter is true of every value the loop visits, in every run the facts about its
bounds and step allow, exactly when the loop is over `i32`, cannot run, or has no
assumed upper end of `2^31` or more. -/
theorem iterandAssumption_true_iff {header : ForHeader} {format : IntegerFormat}
    (typed : header.start.type = .i32 ∨ header.start.type = .u32)
    (isFormat : header.start.type.format = some format)
    (startFacts : ∀ bounds, header.start.bounds = some bounds →
      ForHeader.Attachable format bounds)
    (finishFacts : ∀ bounds, header.finish.bounds = some bounds →
      ForHeader.Attachable format bounds) :
    (∀ bounded, header.iterandAssumption = .ok (some bounded) →
      ∀ start finish step, header.Runs format start finish step →
        ∀ value, Visits start finish step value → bounded.Holds value) ↔
      header.start.type = .i32 ∨
        (¬ ∃ start finish step, header.Runs format start finish step) ∨
        ∀ last, header.assumedLast = some last → last < 2147483648 := by
  have formats : (header.start.type = .i32 ∧ format = .i32) ∨ format = .u32 := by
    rcases typed with signed | unsigned
    · rw [signed] at isFormat
      exact .inl ⟨signed, (some.inj isFormat).symm⟩
    · rw [unsigned] at isFormat
      exact .inr (some.inj isFormat).symm
  -- Both formats fit the range that narrowing from below is exact on.
  have least : -2147483648 ≤ format.minValue := by
    rcases formats with ⟨_, rfl⟩ | rfl <;> decide
  have most : format.maxValue ≤ 4294967295 := by
    rcases formats with ⟨_, rfl⟩ | rfl <;> decide
  constructor
  · intro always
    by_contra fails
    simp only [not_or, not_not, not_forall, not_lt] at fails
    rcases fails with ⟨notSigned, ⟨start, finish, step, run⟩, last, known, half⟩
    rcases ForHeader.exists_iterandAssumption known with ⟨bounded, emitted⟩
    have isUb := (ForHeader.iterandAssumption_eq run emitted).2
    rw [known, map_some] at isUb
    rcases (run.assumedLast_spec known).1 with ⟨upper, isUpper, before⟩
    have upperRange := (finishFacts upper isUpper).range (run.finishFacts upper isUpper)
    have holds := (always bounded emitted start finish step run start
      (visits_start step run.runs)).2 _ isUb
    rw [ForHeader.wrap_i32_of_upper_half half (by omega)] at holds
    have nonneg : 0 ≤ start := by
      rcases formats with ⟨signed, _⟩ | rfl
      · exact absurd signed notSigned
      · exact run.machine.1.1
    omega
  · intro condition bounded emitted start finish step run value visits
    have shape := ForHeader.iterandAssumption_eq run emitted
    have started := visits.start_le run.advances
    have machine := run.machine.1
    constructor
    · intro lower isLower
      rw [shape.1] at isLower
      rcases map_eq_some_iff.mp isLower with ⟨bounds, isBounds, rfl⟩
      have inside := mem_iff.mp (run.startFacts bounds isBounds)
      have range := (startFacts bounds isBounds).range (run.startFacts bounds isBounds)
      have narrowed := ForHeader.wrap_i32_le (least.trans range.1)
        (show bounds.start ≤ 4294967295 by omega)
      omega
    · intro upper isUpper
      rw [shape.2] at isUpper
      rcases map_eq_some_iff.mp isUpper with ⟨last, known, rfl⟩
      rcases run.assumedLast_spec known with ⟨⟨bounds, isBounds, before⟩, contains⟩
      have range := (finishFacts bounds isBounds).range (run.finishFacts bounds isBounds)
      have reached := contains value visits
      have below : last < 2147483648 := by
        rcases condition with signed | stuck | fits
        · rcases formats with ⟨_, rfl⟩ | rfl
          · have limit : bounds.last ≤ 2147483647 := range.2
            omega
          · rw [signed] at isFormat
            cases isFormat
        · exact absurd ⟨start, finish, step, run⟩ stuck
        · exact fits last known
      have low : format.minValue ≤ start := machine.1
      rw [wrap_i32 (by omega)]
      exact reached

/-- A `u32` loop from an unknown start to 10. -/
def tailLoop : ForHeader :=
  ⟨{ literal 0 .u32 0 with bounds := none }, literal 1 .u32 10, none, 0, false⟩

theorem tailLoop_runs : tailLoop.Runs .u32 7 10 1 where
  machine := by decide
  startFacts bounds known := by cases known
  finishFacts bounds known := by
    cases known
    decide
  unitStep _ := rfl
  stepFacts value known := by cases known
  advances := by decide
  runs := by decide

theorem iterandAssumption_true_iff_tail :
    tailLoop.iterandAssumption = .ok (some ⟨none, some 9⟩) ∧
      tailLoop.Runs .u32 7 10 1 ∧ Visits 7 10 1 9 ∧ Bounded.Holds ⟨none, some 9⟩ 9 := by
  have visits : Visits 7 10 1 9 := ⟨2, by decide, by decide⟩
  refine ⟨by rfl, tailLoop_runs, visits, ?_⟩
  have start : ∀ bounds, tailLoop.start.bounds = some bounds →
      ForHeader.Attachable .u32 bounds := by
    intro bounds known
    cases known
  have finish : ∀ bounds, tailLoop.finish.bounds = some bounds →
      ForHeader.Attachable .u32 bounds := by
    intro bounds known
    cases known
    exact .inr (by decide)
  have fits : ∀ last, tailLoop.assumedLast = some last → last < 2147483648 := by
    intro last known
    cases known
    decide
  have always := (iterandAssumption_true_iff (.inr rfl) rfl start finish).mpr (.inr (.inr fits))
  exact always _ (by rfl) 7 10 1 tailLoop_runs 9 visits

/-- The inner loop of
`for i in 0u32..10 { for j in 0u32..i * 400000000 + 1 { .. } }`. -/
def scaledLoop : ForHeader :=
  ⟨literal 0 .u32 0, { literal 1 .u32 0 with bounds := some ⟨1, 3600000001⟩ }, none, 0, false⟩

theorem scaledLoop_runs : scaledLoop.Runs .u32 0 1 1 where
  machine := by decide
  startFacts bounds known := by
    cases known
    decide
  finishFacts bounds known := by
    cases known
    decide
  unitStep _ := rfl
  stepFacts value known := by cases known
  advances := by decide
  runs := by decide

/-- In the first round of the outer loop the counter is 0, and the device compiler
is told that it is negative. -/
theorem iterandAssumption_false :
    scaledLoop.iterandAssumption = .ok (some ⟨some 0, some (-694967296)⟩) ∧
      scaledLoop.Runs .u32 0 1 1 ∧ Visits 0 1 1 0 ∧
      ¬ Bounded.Holds ⟨some 0, some (-694967296)⟩ 0 := by
  refine ⟨by rfl, scaledLoop_runs, ⟨0, by decide, by decide⟩, ?_⟩
  intro holds
  exact absurd (holds.2 _ rfl) (by decide)

end CuTile
