import CuTile.Checks.LadderSoundness
import CuTile.Predicate.Canonical

/-! # Bindings of `with_bounds`

A `with_bounds` call claims that a `Dim` counts the tiles of a partition axis.
The claim is decided while compiling, moved to the launch as a divisibility or a
pair of inequalities, or left to an assert in the kernel. What is settled before
the kernel runs is settled exactly.
-/

namespace CuTile

open IntegerFormat Option Division Predicate Term

/-- A predicate the host found true is true in the kernel, where the atoms the
host knows have the same values. -/
theorem KernelPoint.holds {frame : LaunchFrame} (point : KernelPoint frame)
    {predicate : Predicate} (holds : predicate.HoldsAt frame.resolveAtom) :
    predicate.Holds point.valuation := by
  apply (holds_congr _).mp holds.2
  intro name member
  rcases isSome_iff_exists.mp (holds.1 name member) with ⟨value, known⟩
  rw [resolved, known, getD_some, point.launchKnown name value known]

/-- A bound of a `with_bounds` call: a scalar, or a `Dim` whose scalar is its
`size` field. -/
structure DimValue where
  outer : TileRustValue SsaValue
  size : Option (TileRustValue SsaValue)

namespace DimValue

def parts (bound : DimValue) : List (TileRustValue SsaValue) :=
  bound.outer :: bound.size.toList

/-- A fact of the value itself, or else of its `size` field. -/
def lookup (bound : DimValue) (read : TileRustValue SsaValue → Option α) : Option α :=
  (read bound.outer).orElse fun _ => bound.size.bind read

theorem lookup_eq_some {bound : DimValue} {read : TileRustValue SsaValue → Option α} {fact : α}
    (found : bound.lookup read = some fact) : ∃ part ∈ bound.parts, read part = some fact := by
  unfold lookup at found
  cases outer : read bound.outer with
  | some =>
    rw [outer] at found
    exact ⟨bound.outer, List.mem_cons_self, outer.trans found⟩
  | none =>
    rw [outer] at found
    rcases bind_eq_some_iff.mp found with ⟨size, isSize, known⟩
    exact ⟨size, List.mem_cons_of_mem _ (mem_toList.mpr isSize), known⟩

end DimValue

structure PartitionViewType where
  tileShape : List Int
  dimMap : List Int

/-- The tensor axis behind a partition axis. Negative entries map to none. -/
def PartitionViewType.tensorAxis (viewType : PartitionViewType) (axis : Nat) : Option Nat :=
  (viewType.dimMap[axis]?.filter (0 ≤ ·)).map Int.toNat

/-- How a binding was settled before the kernel runs. -/
inductive BindingRung where
  | static
  | divisibility
  | constant
deriving DecidableEq, Repr

inductive BindingOutcome where
  /-- There is nothing to compare. -/
  | unchecked
  | settled (rung : BindingRung)
  /-- The device comparison itself folded to true. -/
  | folded
  | asserted (condition : IrExpr SsaValue) (message : String)

namespace FunctionCompiler

variable (compiler : FunctionCompiler)

def declaredViewExtent (partition : TileRustValue SsaValue) (viewType : PartitionViewType)
    (axis : Nat) : Option Int := do
  compiler.declaredExtent partition.tensorOrigin (← viewType.tensorAxis axis)

/-- The binding as a divisibility, when the bound is a quotient of this axis's
extent, or of a term declared equal to it, by this axis's tile extent. -/
def withBoundsDivisibility (partition : TileRustValue SsaValue) (bound : DimValue)
    (viewType : PartitionViewType) (axis : Nat) (tile : Int) : Option Predicate := do
  let floorDiv ← bound.lookup TileRustValue.floorDiv
  if floorDiv.divisor ≠ tile then none
  else
    let param ← compiler.paramIndex (← partition.tensorOrigin)
    let tensorAxis ← viewType.tensorAxis axis
    let expected := Term.atom (compiler.extentAtom param tensorAxis)
    if floorDiv.numerator = expected then Predicate.ofDivisibleBy expected tile
    else
      let equality ← Predicate.eq floorDiv.numerator expected
      -- only a declared equality counts: hoisting an undeclared one would
      -- reject launches with equal tile counts of unequal extents
      if Obligation.resolve ⟨equality, "with_bounds shared-extent binding"⟩
          compiler.assumptions = .jit then
        Predicate.ofDivisibleBy floorDiv.numerator tile
      else none

/-- `(c - 1) * t < e` and `e < c * t + 1`. -/
def constantBounds (extent : Term) (tile constant : Int) : Option (Predicate × Predicate) := do
  let lower ← IntegerFormat.i64.checked ((constant - 1) * tile)
  let upper ← IntegerFormat.i64.checked (constant * tile)
  let upperPlusOne ← IntegerFormat.i64.checked (upper + 1)
  let above ← Predicate.lt (.constant lower) extent
  let notAbove ← Predicate.lt extent (.constant upperPlusOne)
  return (above, notAbove)

/-- The rung that compares two compile-time constants. Nothing means that one of
them is not known. -/
def staticBinding (partition : TileRustValue SsaValue) (bound : DimValue)
    (viewType : PartitionViewType) (axis : Nat) (tile : Int) : Option (Except Failure Unit) := do
  let extent ← compiler.declaredViewExtent partition viewType axis
  let dimValue ← bound.lookup exactValue
  if 0 ≤ extent ∧ 0 < tile then
    let expected := (extent + tile - 1).tdiv tile
    return if dimValue = expected then .ok () else
      .error (.jitError (s!"`with_bounds` bound {axis} is {dimValue}, but this partition "
        ++ s!"has {expected} tiles on axis {axis}"))
  else none

def divisibilityBinding (checks : List LaunchCheck) (partition : TileRustValue SsaValue)
    (bound : DimValue) (viewType : PartitionViewType) (axis : Nat) (tile : Int) :
    Bool × List LaunchCheck :=
  compiler.lowerFormed checks
    ((compiler.withBoundsDivisibility partition bound viewType axis tile).map fun predicate =>
      (predicate, s!"`with_bounds` bound {axis}: the partitioned extent must be divisible by "
        ++ s!"the tile extent {tile}, or the declared bound undercounts the tiles on axis "
        ++ s!"{axis}"))

/-- The two inequalities a constant bound asks of a launch. -/
def constantObligations (partition : TileRustValue SsaValue) (bound : DimValue)
    (viewType : PartitionViewType) (axis : Nat) (tile : Int) :
    Option (Predicate × Predicate × String) := do
  let constant ← bound.lookup exactValue
  let param ← compiler.paramIndex (← partition.tensorOrigin)
  let tensorAxis ← viewType.tensorAxis axis
  if 1 ≤ constant ∧ 1 ≤ tile then
    let (above, notAbove) ←
      constantBounds (.atom (compiler.extentAtom param tensorAxis)) tile constant
    let most := constant * tile
    let below := (constant - 1) * tile
    return (above, notAbove, s!"`with_bounds` bound {axis} declares {constant} tiles of "
      ++ s!"extent {tile}, so axis {axis}'s extent must be in ({below}, {most}]")
  else none

def constantBinding (checks : List LaunchCheck) (partition : TileRustValue SsaValue)
    (bound : DimValue) (viewType : PartitionViewType) (axis : Nat) (tile : Int) :
    Bool × List LaunchCheck :=
  match compiler.constantObligations partition bound viewType axis tile with
  | none => (false, checks)
  | some (above, notAbove, cause) =>
    let first := compiler.lower checks above cause
    if first.1 then compiler.lower first.2 notAbove cause else first

/-- Compare in the kernel. The operands carry no facts, so only the gate can stop
the assert. -/
def bindingAssert (declared actual : SsaValue) (axis : Nat) :
    Except Failure BindingOutcome := do
  let message := s!"`with_bounds` bound {axis} does not equal this partition's tile count "
    ++ s!"on axis {axis}"
  let equal ← emitOp .eq (newPrimitive declared .i32) (newPrimitive actual .i32)
  match exactValue equal, equal.value with
  | some flag, _ => if flag ≠ 0 then return .folded else .error (.jitError message)
  | none, none => return .unchecked
  | none, some condition =>
    compiler.denyResidualCheck s!"the `with_bounds` binding check for axis {axis}"
      ("Declare the extent statically in the signature, or bind a `Dim` the compiler can "
        ++ "relate to this partition's tile count")
    return .asserted condition message

/-- Settle one binding at the earliest stage that can decide it.
`indexSpaceShape` are the results of the query for the view's tile counts. -/
def emitWithBoundsBindingCheck (checks : List LaunchCheck) (partition : TileRustValue SsaValue)
    (viewType : Option PartitionViewType) (bound : DimValue) (axis : Nat)
    (indexSpaceShape : Nat → SsaValue) : Except Failure (BindingOutcome × List LaunchCheck) :=
  match bound.lookup TileRustValue.value, partition.value, viewType with
  | some declared, some _, some viewType =>
    match viewType.tileShape[axis]? with
    | none => .ok (.unchecked, checks)
    | some tile =>
      match compiler.staticBinding partition bound viewType axis tile with
      | some decided => decided.map fun _ => (.settled .static, checks)
      | none =>
        let divisible :=
          compiler.divisibilityBinding checks partition bound viewType axis tile
        if divisible.1 then .ok (.settled .divisibility, divisible.2)
        else
          let constant :=
            compiler.constantBinding divisible.2 partition bound viewType axis tile
          if constant.1 then .ok (.settled .constant, constant.2)
          else (compiler.bindingAssert declared (indexSpaceShape axis) axis).map
            fun outcome => (outcome, constant.2)
  | _, _, _ => .ok (.unchecked, checks)

/-! ## The facts of a bound -/

/-- The quotient was recorded at a division of `i32` values whose own facts are
true, and `value` is what the machine computes there. -/
def Recorded {frame : LaunchFrame} (point : KernelPoint frame) (floorDiv : FloorDiv)
    (value : Int) : Prop :=
  ∃ (shifts : ShiftSemantics) (op : TileBinaryOp) (lhs rhs : TileRustValue SsaValue) (x y : Int),
    propagateFloorDiv op lhs rhs = some floorDiv ∧ compiler.CoordinateFacts point lhs x ∧
      compiler.CoordinateFacts point rhs y ∧ machineOp shifts op .i32 x y = some value

/-- The facts attached to a bound are true of its machine value. -/
structure DimFacts {frame : LaunchFrame} (point : KernelPoint frame) (bound : DimValue)
    (value : Int) : Prop where
  interval : ∀ part ∈ bound.parts, ∀ bounds, part.bounds = some bounds → value ∈ bounds
  floorDiv : ∀ part ∈ bound.parts, ∀ floorDiv, part.floorDiv = some floorDiv →
    compiler.Recorded point floorDiv value

variable {compiler} {launch : Launch} {checks : List LaunchCheck}

theorem DimFacts.eq_of_exactValue {frame : LaunchFrame} {point : KernelPoint frame}
    {bound : DimValue} {value constant : Int} (facts : compiler.DimFacts point bound value)
    (known : bound.lookup exactValue = some constant) : value = constant := by
  rcases DimValue.lookup_eq_some known with ⟨part, member, exact⟩
  rcases map_eq_some_iff.mp exact with ⟨bounds, filtered, rfl⟩
  rcases filter_eq_some_iff.mp filtered with ⟨isBounds, isExact⟩
  exact Bounds.eq_start_of_mem isExact (facts.interval part member bounds isBounds)

/-- A recorded quotient is the truncated quotient of an `i32` that the numerator
names up to the modulus. -/
theorem Recorded.quotient {frame : LaunchFrame} {point : KernelPoint frame}
    {floorDiv : FloorDiv} {value : Int} (recorded : compiler.Recorded point floorDiv value) :
    ∃ x, i32.Represents x ∧ 0 < floorDiv.divisor ∧
      floorDiv.numerator.value point.valuation ≡ x [ZMOD i32.modulus] ∧
      value = x.tdiv floorDiv.divisor := by
  rcases recorded with ⟨shifts, op, lhs, rhs, x, y, propagated, left, right, computed⟩
  unfold propagateFloorDiv at propagated
  split_ifs at propagated with isDiv
  rcases bind_eq_some_iff.mp propagated with ⟨divisor, known, propagated⟩
  split_ifs at propagated with nonpos
  rcases bind_eq_some_iff.mp propagated with ⟨numerator, isTerm, returned⟩
  cases returned
  rcases map_eq_some_iff.mp known with ⟨bounds, filtered, rfl⟩
  rcases filter_eq_some_iff.mp filtered with ⟨isBounds, isExact⟩
  have same : y = bounds.start := Bounds.eq_start_of_mem isExact (right.interval bounds isBounds)
  have positive : 0 < bounds.start := not_le.mp nonpos
  refine ⟨x, left.machine, positive, left.term numerator isTerm, ?_⟩
  have fits : i32.Represents (x.tdiv bounds.start) := by
    have machine := left.machine
    have magnitude := Int.natAbs_tdiv_le_natAbs x bounds.start
    rw [represents_i32] at machine ⊢
    rcases le_total 0 x with nonneg | nonpos
    · have quotient := Int.tdiv_nonneg nonneg positive.le
      omega
    · have quotient := Int.tdiv_nonneg (Int.neg_nonneg_of_nonpos nonpos) positive.le
      rw [Int.neg_tdiv] at quotient
      omega
  have divided : machineOp shifts .div .i32 x bounds.start = some (x.tdiv bounds.start) :=
    machineOp_of_represents rfl rfl fits
  rw [not_not.mp isDiv, same, divided] at computed
  exact (some.inj computed).symm

/-! ## The rungs -/

section Rungs

variable {point : KernelPoint launch.toLaunchFrame} {partition : TileRustValue SsaValue}
  {viewType : PartitionViewType} {bound : DimValue} {axis : Nat} {tile extent value : Int}
  {collected : List LaunchCheck}

/-- The extent of a partition axis, as the kernel sees it of the tensor parameter
the partition was made from. -/
def AxisExtent (compiler : FunctionCompiler) (frame : LaunchFrame)
    (partition : TileRustValue SsaValue) (viewType : PartitionViewType) (axis : Nat)
    (extent : Int) : Prop :=
  ∀ tensor param tensorAxis, partition.tensorOrigin = some tensor →
    compiler.paramIndex tensor = some param → viewType.tensorAxis axis = some tensorAxis →
      compiler.visibleExtent frame param tensorAxis = some extent

theorem staticBinding_exact
    (decided : compiler.staticBinding partition bound viewType axis tile = some (.ok ()))
    (admitted : compiler.Admits launch collected)
    (facts : compiler.DimFacts point bound value)
    (visible : compiler.AxisExtent launch.toLaunchFrame partition viewType axis extent) :
    value = ceilQuotient extent tile := by
  rcases bind_eq_some_iff.mp decided with ⟨declared, isDeclared, decided⟩
  rcases bind_eq_some_iff.mp decided with ⟨constant, known, decided⟩
  split_ifs at decided with valid
  have equal : constant = (declared + tile - 1).tdiv tile := by
    by_contra different
    dsimp only [pure] at decided
    rw [if_neg different] at decided
    cases decided
  rcases bind_eq_some_iff.mp isDeclared with ⟨tensorAxis, isAxis, isDeclared⟩
  rcases admitted.declaredExtent isDeclared with ⟨tensor, param, origin, index, seen⟩
  rw [visible tensor param tensorAxis origin index isAxis] at seen
  rw [facts.eq_of_exactValue known, equal, some.inj seen]
  exact add_sub_one_tdiv valid.1 valid.2

/-- The numerator of a divisibility binding has the axis's extent as its value:
it is the extent itself, or a term the declared facts make equal to it. -/
theorem withBoundsDivisibility_spec (point : KernelPoint launch.toLaunchFrame)
    {predicate : Predicate}
    (formed : compiler.withBoundsDivisibility partition bound viewType axis tile =
      some predicate)
    (admitted : compiler.Admits launch collected)
    (visible : compiler.AxisExtent launch.toLaunchFrame partition viewType axis extent) :
    ∃ floorDiv, bound.lookup TileRustValue.floorDiv = some floorDiv ∧
      floorDiv.divisor = tile ∧
      ofDivisibleBy floorDiv.numerator tile = some predicate ∧
      floorDiv.numerator.value point.valuation = extent ∧ 0 ≤ extent ∧ extent ≤ 2147483647 := by
  rcases bind_eq_some_iff.mp formed with ⟨floorDiv, isFloorDiv, formed⟩
  split_ifs at formed with different
  simp only [bind_eq_bind, bind_eq_some_iff] at formed
  rcases formed with ⟨tensor, origin, param, index, tensorAxis, isAxis, formed⟩
  have seen := visible tensor param tensorAxis origin index isAxis
  have range := visibleExtent_range seen
  rw [← resolveAtom_extentAtom] at seen
  have atomValue : (atom (compiler.extentAtom param tensorAxis)).value point.valuation =
      extent := by
    rw [value_atom, point.launchKnown _ _ seen]
  refine ⟨floorDiv, isFloorDiv, not_not.mp different, ?_⟩
  split_ifs at formed with sameTensor
  · rw [sameTensor]
    exact ⟨formed, atomValue, range⟩
  · rcases bind_eq_some_iff.mp formed with ⟨equality, built, formed⟩
    split_ifs at formed with declared
    have believed : Settled compiler.assumptions collected equality :=
      (resolve_eq_jit_iff.mp declared).imp_right .inl
    have holds := point.holds (admitted.holdsAt (List.Subset.refl _) believed)
    rw [holds_eq _ built, atomValue] at holds
    exact ⟨formed, holds, range⟩

theorem divisibilityBinding_exact
    (settled : (compiler.divisibilityBinding checks partition bound viewType axis tile).1 = true)
    (included : (compiler.divisibilityBinding checks partition bound viewType axis tile).2 ⊆
      collected)
    (admitted : compiler.Admits launch collected)
    (facts : compiler.DimFacts point bound value)
    (visible : compiler.AxisExtent launch.toLaunchFrame partition viewType axis extent) :
    value = ceilQuotient extent tile := by
  rcases (compiler.lowerFormed_spec checks _).2 settled with ⟨predicate, cause, owed, proved⟩
  rcases map_eq_some_iff.mp owed with ⟨formedPredicate, formed, same⟩
  cases same
  rcases withBoundsDivisibility_spec point formed admitted visible
    with ⟨floorDiv, isFloorDiv, sameTile, built, isExtent, range⟩
  rcases DimValue.lookup_eq_some isFloorDiv with ⟨part, member, recorded⟩
  rcases (facts.floorDiv part member floorDiv recorded).quotient
    with ⟨numerator, machine, positive, congruent, isQuotient⟩
  have holds := point.holds (admitted.holdsAt included proved)
  rw [holds_ofDivisibleBy _ built, isExtent] at holds
  rw [isExtent] at congruent
  have isNumerator : extent = numerator :=
    eq_of_modEq _ congruent (by rw [represents_i32]; omega) machine
  rw [sameTile] at positive isQuotient
  rw [isQuotient, ← isNumerator, ceilQuotient_of_dvd positive.ne' holds]

/-- The two inequalities in one atom, with constants in range. -/
theorem constantBounds_spec {name : Atom} {constant : Int} {above notAbove : Predicate}
    (formed : constantBounds (.atom name) tile constant = some (above, notAbove)) :
    above = .positive (.affine name 1 (-((constant - 1) * tile))) ∧
      notAbove = .positive (.affine name (-1) (constant * tile + 1)) ∧
      i64.Represents ((constant - 1) * tile) ∧
      i64.Represents (constant * tile + 1) := by
  simp only [constantBounds, lt, bind_eq_bind, bind_eq_some_iff,
    checked_eq_some_iff] at formed
  rcases formed with ⟨_, ⟨lowerRange, rfl⟩, _, ⟨_, rfl⟩, _, ⟨upperRange, rfl⟩, _,
    ⟨_, aboveTerm, isAbove⟩, _, ⟨_, notAboveTerm, isNotAbove⟩, returned⟩
  cases isAbove
  cases isNotAbove
  cases returned
  rw [atom_sub_constant aboveTerm, constant_sub_atom notAboveTerm]
  exact ⟨rfl, rfl, lowerRange, upperRange⟩

theorem constantBounds_holds {name : Atom} {constant : Int} {above notAbove : Predicate}
    (formed : constantBounds (.atom name) tile constant = some (above, notAbove))
    (positive : 1 ≤ tile) (valuation : Atom → Int) :
    (above.Holds valuation ∧ notAbove.Holds valuation) ↔
      ceilQuotient (valuation name) tile = constant := by
  rcases constantBounds_spec formed with ⟨rfl, rfl, _, _⟩
  rw [Holds, Holds, value_affine, value_affine,
    ceilQuotient_eq_iff (by omega)]
  omega

/-- The two inequalities as the host evaluates them: neither overflows, and
together they say that the extent has exactly this many tiles. -/
theorem constantBounds_eval {name : Atom} {constant : Int} {above notAbove : Predicate}
    (formed : constantBounds (.atom name) tile constant = some (above, notAbove))
    (positive : 1 ≤ constant ∧ 1 ≤ tile) {resolve : Atom → Option Int}
    (known : resolve name = some extent) (range : 0 ≤ extent ∧ extent ≤ 2147483647) :
    (above.eval resolve = some true ∧ notAbove.eval resolve = some true) ↔
      ceilQuotient extent tile = constant := by
  rcases constantBounds_spec formed with ⟨rfl, rfl, lowerRange, upperRange⟩
  have lower : 0 ≤ (constant - 1) * tile := by
    apply mul_nonneg <;> omega
  have upper : 0 ≤ constant * tile := by
    apply mul_nonneg <;> omega
  rw [represents_i64] at lowerRange upperRange
  rw [eval_positive_affine one_ne_zero known
      (by rw [represents_i64]; omega) (by rw [represents_i64]; omega),
    eval_positive_affine (by decide) known
      (by rw [represents_i64]; omega) (by rw [represents_i64]; omega),
    ceilQuotient_eq_iff (by omega)]
  omega

/-- What a settled constant rung leaves: both inequalities, settled, for the
extent of this axis. -/
theorem constantBinding_spec
    (settled : (compiler.constantBinding checks partition bound viewType axis tile).1 = true) :
    ∃ constant tensor param tensorAxis above notAbove,
      bound.lookup exactValue = some constant ∧ partition.tensorOrigin = some tensor ∧
      compiler.paramIndex tensor = some param ∧ viewType.tensorAxis axis = some tensorAxis ∧
      (1 ≤ constant ∧ 1 ≤ tile) ∧
      constantBounds (.atom (compiler.extentAtom param tensorAxis)) tile constant =
        some (above, notAbove) ∧
      Settled compiler.assumptions
        (compiler.constantBinding checks partition bound viewType axis tile).2 above ∧
      Settled compiler.assumptions
        (compiler.constantBinding checks partition bound viewType axis tile).2 notAbove := by
  unfold constantBinding at settled ⊢
  cases owed : compiler.constantObligations partition bound viewType axis tile with
  | none =>
    rw [owed] at settled
    cases settled
  | some obligations =>
    rcases obligations with ⟨above, notAbove, cause⟩
    rw [owed] at settled
    dsimp only at settled ⊢
    have firstSpec := compiler.lower_spec checks above cause
    generalize compiler.lower checks above cause = first at settled firstSpec ⊢
    by_cases placed : first.1 = true
    · rw [if_pos placed] at settled ⊢
      have secondSpec := compiler.lower_spec first.2 notAbove cause
      simp only [constantObligations, bind_eq_bind, bind_eq_some_iff,
        ite_none_right_eq_some] at owed
      rcases owed with ⟨constant, known, tensor, origin, param, index, tensorAxis, isAxis,
        positive, ⟨above, notAbove⟩, formed, returned⟩
      cases returned
      exact ⟨constant, tensor, param, tensorAxis, above, notAbove, known, origin, index, isAxis,
        positive, formed, (firstSpec.2 placed).mono secondSpec.1, secondSpec.2 settled⟩
    · rw [if_neg placed] at settled
      exact absurd settled placed

end Rungs

theorem bindingAssert_ne_settled (declared actual : SsaValue) (axis : Nat)
    (rung : BindingRung) :
    compiler.bindingAssert declared actual axis ≠ .ok (.settled rung) := by
  intro settled
  rcases Fallible.bind_eq_ok_iff.mp settled with ⟨_, _, settled⟩
  split at settled
  · split_ifs at settled
    cases settled
  · cases settled
  · rcases Fallible.bind_eq_ok_iff.mp settled with ⟨_, _, settled⟩
    cases settled

/-- A binding that is settled before the kernel runs is exact: in every launch
that the declared facts, the declared shapes and the collected checks let
through, the bound is the number of tiles of its axis. The checks of a constant
bound accept a launch exactly when the axis has that number of tiles. -/
theorem emitWithBoundsBindingCheck_exact (compiler : FunctionCompiler)
    (checks after : List LaunchCheck) (partition : TileRustValue SsaValue)
    (viewType : PartitionViewType) (bound : DimValue) (axis : Nat)
    (indexSpaceShape : Nat → SsaValue) (rung : BindingRung)
    (emitted : compiler.emitWithBoundsBindingCheck checks partition (some viewType) bound axis
      indexSpaceShape = .ok (.settled rung, after)) :
    ∃ tile, viewType.tileShape[axis]? = some tile ∧
      (∀ (launch : Launch) (collected : List LaunchCheck)
        (point : KernelPoint launch.toLaunchFrame) (value extent : Int),
        after ⊆ collected → compiler.Admits launch collected →
        compiler.DimFacts point bound value →
        compiler.AxisExtent launch.toLaunchFrame partition viewType axis extent →
          value = ceilQuotient extent tile) ∧
      (rung = .constant → ∃ constant above notAbove,
        bound.lookup exactValue = some constant ∧
        Settled compiler.assumptions after above ∧
        Settled compiler.assumptions after notAbove ∧
        ∀ (launch : Launch) (extent : Int),
          compiler.AxisExtent launch.toLaunchFrame partition viewType axis extent →
          ((above.eval launch.resolveAtom = some true ∧
            notAbove.eval launch.resolveAtom = some true) ↔
              ceilQuotient extent tile = constant)) := by
  unfold emitWithBoundsBindingCheck at emitted
  split at emitted
  · rename_i declared view sameType isDeclared isView isType
    cases isType
    split at emitted
    · cases emitted
    · rename_i tile isTile
      refine ⟨tile, isTile, ?_⟩
      split at emitted
      · rename_i decided isDecided
        cases decided with
        | error => cases emitted
        | ok =>
          cases emitted
          refine ⟨?_, nofun⟩
          intro _ _ _ _ _ _ admitted facts visible
          exact staticBinding_exact isDecided admitted facts visible
      · dsimp only at emitted
        split_ifs at emitted with divisible constant
        · cases emitted
          refine ⟨?_, nofun⟩
          intro _ _ _ _ _ included admitted facts visible
          exact divisibilityBinding_exact divisible included admitted facts visible
        · cases emitted
          rcases constantBinding_spec constant with ⟨number, tensor, param, tensorAxis, above,
            notAbove, known, origin, index, isAxis, positive, formed, aboveSettled,
            notAboveSettled⟩
          have exact : ∀ (launch : Launch) (extent : Int),
              compiler.AxisExtent launch.toLaunchFrame partition viewType axis extent →
              ((above.eval launch.resolveAtom = some true ∧
                notAbove.eval launch.resolveAtom = some true) ↔
                  ceilQuotient extent tile = number) := by
            intro _ _ visible
            have seen := visible tensor param tensorAxis origin index isAxis
            have range := visibleExtent_range seen
            rw [← resolveAtom_extentAtom] at seen
            exact constantBounds_eval formed positive seen range
          refine ⟨?_, fun _ => ⟨number, above, notAbove, known, aboveSettled, notAboveSettled,
            exact⟩⟩
          intro _ _ point _ _ included admitted facts visible
          have seen := visible tensor param tensorAxis origin index isAxis
          rw [← resolveAtom_extentAtom] at seen
          have holds := (constantBounds_holds formed positive.2 point.valuation).mp
            ⟨point.holds (admitted.holdsAt included aboveSettled),
              point.holds (admitted.holdsAt included notAboveSettled)⟩
          rw [facts.eq_of_exactValue known, ← holds, point.launchKnown _ _ seen]
        · cases asserted : compiler.bindingAssert declared (indexSpaceShape axis) axis with
          | error =>
            rw [asserted] at emitted
            cases emitted
          | ok =>
            rw [asserted] at emitted
            cases emitted
            exact absurd asserted (bindingAssert_ne_settled _ _ _ _)
  · cases emitted

/-! A matrix product that declares its inner extents equal and binds the quotient
of the left one to the rows of the right one. -/

def matmulCompiler : FunctionCompiler where
  paramIndex name := if name = "x" then some 0 else if name = "y" then some 1 else none
  paramIsMutable := [false, false]
  validator := [.tensor [-1, -1], .tensor [-1, -1]]
  preconditions := [.dimEq "x" 1 "y" 0]
  checkOpts := .release
  denyInKernelChecks := true

def rowPartition : TileRustValue SsaValue :=
  { kind := .structuredType, value := some 7, type := .f32, tensorOrigin := some "y" }

def innerExtent : TileRustValue SsaValue :=
  { kind := .primitiveType, value := some 1, type := .i32, term := some (.atom (.dim 0 1)) }

def sixteen : TileRustValue SsaValue :=
  { kind := .primitiveType, value := some 2, type := .i32, bounds := some (.exact 16) }

def innerTiles : DimValue where
  outer := { kind := .struct, value := none, type := .i32 }
  size := some { kind := .primitiveType, value := some 3, type := .i32
                 floorDiv := some ⟨.atom (.dim 0 1), 16⟩ }

def matmulLaunch : Launch where
  paramShapes := [[8, 64], [64, 4]]
  viewShapes := [[8, 64], [64, 4]]
  grid := (1, 1, 1)
  rootExtents := by decide
  viewExtents := by decide
  gridAxes := by decide

def onlyBlock : KernelPoint matmulLaunch.toLaunchFrame where
  blockId _ := 0
  valuation
    | .tileBlockId _ => 0
    | other => (matmulLaunch.resolveAtom other).getD 0
  viewExtent _ _ := 64
  inGrid axis blocks known := by
    match axis with
    | 0 | 1 | 2 =>
      cases known
      decide
    | _ + 3 => cases known
  launchKnown name value known := by
    cases name with
    | tileBlockId axis => cases known
    | _ => simp only [known, Option.getD_some]
  register _ := rfl

theorem emitWithBoundsBindingCheck_exact_matmul :
    ∃ after, matmulCompiler.emitWithBoundsBindingCheck [] rowPartition (some ⟨[16, 4], [0, 1]⟩)
        innerTiles 0 id = .ok (.settled .divisibility, after) ∧
      after.length = 1 ∧ validateLaunchChecks after matmulLaunch.toLaunchFrame = .ok () ∧
      ∃ tile, ([16, 4] : List Int)[0]? = some tile ∧ (4 : Int) = ceilQuotient 64 tile := by
  refine ⟨_, rfl, rfl, by decide, ?_⟩
  rcases emitWithBoundsBindingCheck_exact matmulCompiler [] _ rowPartition ⟨[16, 4], [0, 1]⟩
    innerTiles 0 id .divisibility rfl with ⟨tile, isTile, exact, _⟩
  refine ⟨tile, isTile, ?_⟩
  apply exact matmulLaunch _ onlyBlock 4 64 (List.Subset.refl _) ⟨?_, ?_, by decide⟩
  · refine ⟨?_, ?_⟩
    · intro part member bounds known
      simp only [DimValue.parts, innerTiles, toList_some, List.mem_cons,
        List.not_mem_nil, or_false] at member
      rcases member with rfl | rfl <;> cases known
    · intro part member floorDiv known
      simp only [DimValue.parts, innerTiles, toList_some, List.mem_cons,
        List.not_mem_nil, or_false] at member
      rcases member with rfl | rfl <;> cases known
      refine ⟨fun _ _ _ _ => 0, .div, innerExtent, sixteen, 64, 16, by decide, ?_, ?_, by decide⟩
      · refine ⟨by decide, nofun, ?_, nofun, nofun⟩
        intro term isTerm
        cases isTerm
        exact Int.ModEq.refl 64
      · refine ⟨by decide, ?_, nofun, nofun, nofun⟩
        intro _ isBounds
        cases isBounds
        exact ⟨le_rfl, le_rfl⟩
  · intro tensor param tensorAxis origin index isAxis
    cases origin
    cases index
    cases isAxis
    rfl
  · intro fact member
    cases List.mem_singleton.mp member
    intro _ isLeft _ isRight
    cases isLeft
    cases isRight
    exact ⟨64, rfl, rfl⟩
  · intro param shape declared axis extent entry nonneg
    match param, axis with
    | 0, 0 | 0, 1 | 1, 0 | 1, 1 =>
      cases declared
      cases entry
      cases nonneg
    | 0, _ + 2 | 1, _ + 2 =>
      cases declared
      cases entry
    | _ + 2, _ => cases declared

end FunctionCompiler

end CuTile
