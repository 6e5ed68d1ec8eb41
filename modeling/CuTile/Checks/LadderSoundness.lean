import CuTile.Checks.PartitionAccess

/-! # Soundness of the access ladder

A coordinate that the ladder settles without a check in the kernel is in bounds,
in every launch that the declared facts and the collected checks let through.
-/

namespace CuTile

open Fallible Option Division Predicate Term

/-! ## The kernel at run time -/

/-- One point of a kernel's execution: the block it runs in, the values of the
symbolic atoms, and the extents of the partition views along their logical
axes. -/
structure KernelPoint (frame : LaunchFrame) where
  blockId : Nat → Int
  valuation : Atom → Int
  viewExtent : SsaValue → Nat → Int
  inGrid : ∀ axis blocks, frame.resolveAtom (.numTileBlocks axis) = some blocks →
    0 ≤ blockId axis ∧ blockId axis < blocks
  launchKnown : ∀ name value, frame.resolveAtom name = some value → valuation name = value
  register : ∀ axis, valuation (.tileBlockId axis) = blockId axis

namespace FunctionCompiler

variable (compiler : FunctionCompiler)

/-- The extent the kernel sees of a parameter: the root extent of a tensor passed
immutably, the slab extent otherwise. -/
def visibleExtent (frame : LaunchFrame) (param axis : Nat) : Option Int :=
  if compiler.paramIsMutable[param]?.getD true then
    LaunchFrame.extent frame.viewShapes param axis
  else LaunchFrame.extent frame.paramShapes param axis

/-- The launch passes every test the launcher makes: the declared preconditions,
the declared shapes, and the collected checks. -/
structure Admits (launch : Launch) (checks : List LaunchCheck) : Prop where
  preconditions : ∀ fact ∈ compiler.preconditions,
    fact.TrueOf compiler.paramIndex launch.paramShapes
  declaredShapes : ∀ param shape, compiler.validator[param]? = some (.tensor shape) →
    ∀ axis extent, shape[axis]? = some extent → 0 ≤ extent →
      compiler.visibleExtent launch.toLaunchFrame param axis = some extent
  validated : validateLaunchChecks checks launch.toLaunchFrame = .ok ()

/-- The facts attached to a coordinate are true of its machine value. -/
structure CoordinateFacts {frame : LaunchFrame} (point : KernelPoint frame)
    (index : TileRustValue SsaValue) (value : Int) : Prop where
  machine : IntegerFormat.i32.Represents value
  interval : ∀ bounds, index.bounds = some bounds → value ∈ bounds
  term : ∀ term, index.term = some term →
    term.value point.valuation ≡ value [ZMOD IntegerFormat.i32.modulus]
  axisOrigin : ∀ origin, index.partitionAxisOrigin = some origin →
    ∀ param, compiler.paramIndex origin.tensor = some param →
      ∃ extent, LaunchFrame.extent frame.paramShapes param origin.axis = some extent ∧
        0 ≤ value ∧ value < ceilQuotient extent origin.tileDim
  indexOrigin : ∀ view axis tileDim,
    index.indexOrigin = some (.partitionAxis view axis tileDim) →
      0 ≤ value ∧ value < ceilQuotient (point.viewExtent view axis) tileDim

/-- The extents of a view along its tensor axes agree with its type, with the
parameter it was made from, and with its logical axes. -/
structure PartitionFacts {frame : LaunchFrame} (point : KernelPoint frame)
    (partition : Partition) (extents : Nat → Int) : Prop where
  static : ∀ axis extent, partition.staticShape[axis]? = some extent → extent ≠ -1 →
    extents axis = extent
  origin : ∀ tensor param, partition.view.tensorOrigin = some tensor →
    compiler.paramIndex tensor = some param → ∀ axis < partition.staticShape.length,
      compiler.visibleExtent frame param axis = some (extents axis)
  logical : ∀ view axis extentAxis, partition.view.value = some view →
    partition.dimMap[axis]? = some extentAxis →
      point.viewExtent view axis = extents extentAxis

variable {compiler} {launch : Launch} {checks : List LaunchCheck}

theorem resolveAtom_extentAtom (frame : LaunchFrame) (param axis : Nat) :
    frame.resolveAtom (compiler.extentAtom param axis) =
      compiler.visibleExtent frame param axis := by
  unfold extentAtom visibleExtent
  split_ifs <;> rfl

variable {axis : Nat}

theorem visibleExtent_range {param : Nat} {extent : Int}
    (known : compiler.visibleExtent launch.toLaunchFrame param axis = some extent) :
    0 ≤ extent ∧ extent ≤ 2147483647 := by
  unfold visibleExtent at known
  split_ifs at known
  · exact Launch.extent_range launch.viewExtents known
  · exact Launch.extent_range launch.rootExtents known

/-- An obligation settled on the way is true of an admitted launch. -/
theorem Admits.holdsAt {collected : List LaunchCheck} {predicate : Predicate}
    (admitted : compiler.Admits launch collected) (included : checks ⊆ collected)
    (settled : Settled compiler.assumptions checks predicate) :
    predicate.HoldsAt launch.resolveAtom :=
  (settled.mono included).holdsAt admitted.preconditions admitted.validated

/-! ## The rungs -/

/-- What the goals of an axis say about the partition they were formed from. -/
structure Formed (compiler : FunctionCompiler) (partition : Partition)
    (goals : AxisGoals) : Prop where
  extentAxis : partition.dimMap[goals.axis]? = some goals.extentAxis
  tile : partition.staticTile[goals.axis]? = some goals.tile
  inRank : goals.extentAxis < partition.staticShape.length
  static : ∀ extent, goals.staticExtent = some extent →
    (partition.staticShape[goals.extentAxis]? = some extent ∧ extent ≠ -1) ∨
      compiler.declaredExtent partition.view.tensorOrigin goals.extentAxis = some extent

variable {partition : Partition}

theorem formed_of_formAxisGoals {index : TileRustValue SsaValue} {goals : AxisGoals}
    (ok : compiler.formAxisGoals partition axis index = .ok goals) :
    goals.axis = axis ∧ goals.index = index ∧ compiler.Formed partition goals := by
  unfold formAxisGoals at ok
  split at ok
  · rename_i extentAxis tile isAxis isTile
    split at ok
    · rename_i extent isExtent
      cases ok
      refine ⟨rfl, rfl, isAxis, isTile, (List.getElem?_eq_some_iff.mp isExtent).1, ?_⟩
      intro _ isKnown
      dsimp only at isKnown
      split_ifs at isKnown with dynamic
      · exact .inr isKnown
      · cases isKnown
        exact .inl ⟨isExtent, dynamic⟩
    · cases ok
  · cases ok

/-- The coordinate is in bounds at every point of every launch that validates
these checks, wherever the facts about it and about the view are true. -/
def SettledBy (compiler : FunctionCompiler) (goals : AxisGoals) (partition : Partition)
    (checks : List LaunchCheck) : Prop :=
  ∀ (launch : Launch) (collected : List LaunchCheck)
    (point : KernelPoint launch.toLaunchFrame) (extents : Nat → Int) (value : Int),
    checks ⊆ collected → compiler.Admits launch collected →
    compiler.CoordinateFacts point goals.index value →
    compiler.PartitionFacts point partition extents →
      0 ≤ value ∧ value * goals.tile < extents goals.extentAxis

section Rungs

variable {point : KernelPoint launch.toLaunchFrame} {partition : Partition}
  {extents : Nat → Int} {goals : AxisGoals} {collected : List LaunchCheck}

theorem SettledBy.mono {more : List LaunchCheck} (grows : checks ⊆ more)
    (settled : compiler.SettledBy goals partition checks) :
    compiler.SettledBy goals partition more := by
  intro launch collected point extents value included
  exact settled launch collected point extents value (List.Subset.trans grows included)

theorem Formed.tilePositive (formed : compiler.Formed partition goals) : 0 < goals.tile :=
  partition.tilePositive _ (List.mem_of_getElem? formed.tile)

theorem resolved_atom {name : Atom} {known : Int}
    (isKnown : launch.resolveAtom name = some known) :
    (atom name).value (resolved launch.resolveAtom) = known := by
  rw [value_atom, resolved, isKnown, getD_some]

/-- The host's tile count of a root extent is the number of tiles that cover it. -/
theorem resolveAtom_tileCount {param axis : Nat} {extent tile : Int} (valid : 1 ≤ tile)
    (known : LaunchFrame.extent launch.paramShapes param axis = some extent) :
    launch.resolveAtom (.tileCount param axis tile) = some (ceilQuotient extent tile) := by
  have range := Launch.extent_range launch.rootExtents known
  rw [LaunchFrame.resolveAtom, if_neg (not_lt.mpr valid), known, map_some,
    LaunchFrame.tileCount, add_sub_one_tdiv range.1 valid]

/-- A predicate that bounds the grid axis `k` mentions the grid axis `k`. -/
theorem numTileBlocks_mem {blocks tiles : Term} {predicate : Predicate} {k : Nat}
    {tile : Int} {extent : Atom} (positive : 0 < tile) (distinct : extent ≠ .numTileBlocks k)
    (isBlocks : (atom (.numTileBlocks k)).mulConst tile = some blocks)
    (isTiles : (atom extent).add (.constant (tile - 1)) = some tiles)
    (built : le blocks tiles = some predicate) :
    Atom.numTileBlocks k ∈ predicate.term.atoms := by
  -- otherwise the truth of the predicate would not depend on the grid
  by_contra absent
  have truth : ∀ grid : Int,
      predicate.Holds (fun name => if name = .numTileBlocks k then grid else 0) ↔
        grid * tile ≤ tile - 1 := by
    intro grid
    rw [holds_le _ built, value_mulConst _ isBlocks, value_add _ isTiles]
    simp [distinct, mul_comm]
  have blind : predicate.Holds (fun name => if name = .numTileBlocks k then 0 else 0) ↔
      predicate.Holds (fun name => if name = .numTileBlocks k then 1 else 0) := by
    apply holds_congr
    intro name member
    have other : name ≠ .numTileBlocks k := fun equal => absent (equal ▸ member)
    rw [if_neg other, if_neg other]
  rw [truth, truth] at blind
  omega

theorem blockIdObligation_spec {predicate : Predicate} {cause : String}
    (owed : compiler.blockIdObligation goals partition = some (predicate, cause)) :
    ∃ term k tensor param blocks tiles,
      goals.index.term = some term ∧ term.asSingleAffine = some (.tileBlockId k, 1, 0) ∧
      partition.view.tensorOrigin = some tensor ∧ compiler.paramIndex tensor = some param ∧
      (atom (.numTileBlocks k)).mulConst goals.tile = some blocks ∧
      (atom (compiler.extentAtom param goals.extentAxis)).add
        (.constant (goals.tile - 1)) = some tiles ∧
      le blocks tiles = some predicate := by
  unfold blockIdObligation at owed
  rcases bind_eq_some_iff.mp owed with ⟨_, single, owed⟩
  rcases bind_eq_some_iff.mp single with ⟨term, isTerm, single⟩
  split at owed
  · rename_i k _
    simp only [bind_eq_bind, bind_eq_some_iff] at owed
    rcases owed with ⟨tensor, isTensor, param, isParam, blocks, isBlocks, tiles, isTiles, _,
      isBuilt, returned⟩
    cases returned
    exact ⟨term, k, tensor, param, blocks, tiles, isTerm, single, isTensor, isParam,
      isBlocks, isTiles, isBuilt⟩
  · cases owed

theorem subset_zeroCoordinateRung (checks : List LaunchCheck) (goals : AxisGoals)
    (partition : Partition) :
    checks ⊆ (compiler.zeroCoordinateRung checks goals partition).2 := by
  unfold zeroCoordinateRung
  split_ifs
  · exact (compiler.lowerFormed_spec checks _).1
  · exact List.Subset.refl _

/-- An extent that the signature declares is the one the kernel sees. -/
theorem Admits.declaredExtent {origin : Option String} {extent : Int}
    (admitted : compiler.Admits launch collected)
    (declared : compiler.declaredExtent origin axis = some extent) :
    ∃ tensor param, origin = some tensor ∧ compiler.paramIndex tensor = some param ∧
      compiler.visibleExtent launch.toLaunchFrame param axis = some extent := by
  simp only [FunctionCompiler.declaredExtent, bind_eq_bind, bind_eq_some_iff]
    at declared
  rcases declared with ⟨tensor, origin, param, index, type, validated, declared⟩
  cases type with
  | scalar | pointer => cases declared
  | tensor shape =>
    rcases filter_eq_some_iff.mp declared with ⟨entry, nonneg⟩
    exact ⟨tensor, param, origin, index, admitted.declaredShapes param shape validated _ _ entry
      (of_decide_eq_true nonneg)⟩

variable (formed : compiler.Formed partition goals)
include formed

/-- The extent of an axis of the view, when its type or the signature knows it. -/
theorem extent_of_static (views : compiler.PartitionFacts point partition extents)
    (admitted : compiler.Admits launch collected) {extent : Int}
    (known : goals.staticExtent = some extent) : extents goals.extentAxis = extent := by
  rcases formed.static extent known with ⟨typed, fixed⟩ | declared
  · exact views.static _ _ typed fixed
  · rcases admitted.declaredExtent declared with ⟨tensor, param, origin, index, seen⟩
    rw [views.origin tensor param origin index _ formed.inRank] at seen
    exact some.inj seen

theorem foldStatic_sound
    (folded : foldStatic goals = some (.ok ())) :
    compiler.SettledBy goals partition checks := by
  intro _ _ _ _ value _ admitted facts views
  rcases bind_eq_some_iff.mp folded with ⟨bounds, ranged, folded⟩
  rcases bind_eq_some_iff.mp folded with ⟨_, known, folded⟩
  dsimp only [pure] at folded
  split_ifs at folded with both
  · have inside := facts.interval bounds ranged
    have nonneg : 0 ≤ value := both.1.trans inside.1
    rw [extent_of_static formed views admitted known]
    exact ⟨nonneg, mul_lt_of_lt_add_sub_one_tdiv formed.tilePositive nonneg
      (inside.2.trans_lt both.2)⟩
  · cases folded

theorem crossTensorProvenance_sound
    (settled : (compiler.crossTensorProvenance checks goals partition).1 = true) :
    compiler.SettledBy goals partition
      (compiler.crossTensorProvenance checks goals partition).2 := by
  intro launch _ _ extents _ included admitted facts views
  unfold crossTensorProvenance at included settled
  split at settled
  · rename_i origin target walked isTarget
    rw [walked, isTarget] at included
    dsimp only at included
    split_ifs at included settled with sameTile
    rcases sameTile with ⟨sameTile, rooted⟩
    rcases (compiler.resolveDimLe_spec checks origin.tensor origin.axis target
      goals.extentAxis goals.tile).2 settled with ⟨aParam, bParam, aIndex, bIndex, relation⟩
    rcases isSome_iff_exists.mp rooted with ⟨_, isRoot⟩
    rcases compiler.rootFramedParam_spec isRoot with ⟨rootIndex, rootFrame⟩
    cases rootIndex.symm.trans bIndex
    rcases facts.axisOrigin origin walked aParam aIndex with ⟨extent, known, nonneg, below⟩
    have seen := views.origin target bParam isTarget bIndex _ formed.inRank
    rw [← resolveAtom_extentAtom, rootFrame] at seen
    rw [sameTile] at below
    refine ⟨nonneg, (lt_ceilQuotient_iff formed.tilePositive).mp ?_⟩
    -- either the extents are equal, or the walked axis has no more tiles
    rcases relation with ⟨predicate, built, proved⟩ | ⟨valid, predicate, built, proved⟩
    · have equal := (holds_eq _ built).mp (admitted.holdsAt included proved).2
      have walkedExtent : launch.resolveAtom (.dim aParam origin.axis) = some extent := known
      rw [resolved_atom walkedExtent, resolved_atom seen] at equal
      rwa [equal] at below
    · have fewer := (holds_le _ built).mp (admitted.holdsAt included proved).2
      rw [resolved_atom (resolveAtom_tileCount valid known),
        resolved_atom (resolveAtom_tileCount valid seen)] at fewer
      exact below.trans_le fewer
  · cases settled

theorem sameViewProvenance_sound
    (same : sameViewProvenance goals partition = true) :
    compiler.SettledBy goals partition checks := by
  intro launch collected point extents value included admitted facts views
  unfold sameViewProvenance at same
  split at same
  · rename_i view axis tileDim handle walked isView
    rcases of_decide_eq_true same with ⟨rfl, rfl, rfl⟩
    have inside := facts.indexOrigin view goals.axis goals.tile walked
    rw [views.logical view _ _ isView formed.extentAxis] at inside
    exact ⟨inside.1, (lt_ceilQuotient_iff formed.tilePositive).mp inside.2⟩
  · cases same

theorem blockIdAxiom_sound
    (settled : (compiler.dischargeByBlockIdAxiom checks goals partition).1 = true) :
    compiler.SettledBy goals partition
      (compiler.dischargeByBlockIdAxiom checks goals partition).2 := by
  intro launch collected point extents value included admitted facts views
  rcases (compiler.lowerFormed_spec checks _).2 settled with ⟨predicate, cause, owed, proved⟩
  rcases blockIdObligation_spec owed with ⟨term, k, tensor, param, blocks, tiles, isTerm,
    single, isTensor, isParam, isBlocks, isTiles, built⟩
  rcases admitted.holdsAt included proved with ⟨resolves, holds⟩
  have seen := views.origin tensor param isTensor isParam _ formed.inRank
  have extentRange := visibleExtent_range seen
  rw [← resolveAtom_extentAtom] at seen
  have distinct : compiler.extentAtom param goals.extentAxis ≠ .numTileBlocks k := by
    rcases compiler.extentAtom_cases param goals.extentAxis with ⟨isDim, _⟩ | isView
    · simp [isDim]
    · simp [isView]
  rcases isSome_iff_exists.mp (resolves _
    (numTileBlocks_mem formed.tilePositive distinct isBlocks isTiles built)) with ⟨grid, isGrid⟩
  rw [holds_le _ built, value_mulConst _ isBlocks, value_add _ isTiles,
    value_constant, resolved_atom isGrid, resolved_atom seen] at holds
  have block := point.inGrid k grid isGrid
  have positive := formed.tilePositive
  have covered : point.blockId k * goals.tile < extents goals.extentAxis := by
    nlinarith
  have small : point.blockId k ≤ point.blockId k * goals.tile := by
    nlinarith
  -- the term is the block id, and both are machine values
  have congruent := facts.term term isTerm
  rw [value_of_asSingleAffine _ single, point.register, one_mul, add_zero] at congruent
  have machine : IntegerFormat.i32.Represents (point.blockId k) := by
    rw [IntegerFormat.represents_i32]
    omega
  have isBlock : point.blockId k = value :=
    IntegerFormat.eq_of_modEq _ congruent machine facts.machine
  rw [← isBlock]
  exact ⟨block.1, covered⟩

theorem zeroCoordinate_sound
    (settled : (compiler.zeroCoordinateRung checks goals partition).1 = true) :
    compiler.SettledBy goals partition
      (compiler.zeroCoordinateRung checks goals partition).2 := by
  intro launch collected point extents value included admitted facts views
  unfold zeroCoordinateRung at included settled
  split_ifs at included settled with relocates
  rcases (compiler.lowerFormed_spec checks _).2 settled with ⟨predicate, cause, owed, proved⟩
  unfold zeroCoordinateObligation at owed
  split_ifs at owed with dynamic
  rcases bind_eq_some_iff.mp owed with ⟨bounds, ranged, owed⟩
  split_ifs at owed with zero
  rcases bind_eq_some_iff.mp owed with ⟨tensor, isTensor, owed⟩
  rcases bind_eq_some_iff.mp owed with ⟨param, isParam, owed⟩
  cases owed
  have inside := facts.interval bounds ranged
  have isZero : value = 0 := le_antisymm (zero.2 ▸ inside.2) (zero.1 ▸ inside.1)
  have seen := views.origin tensor param isTensor isParam _ formed.inRank
  have extentRange := visibleExtent_range seen
  rw [← resolveAtom_extentAtom] at seen
  have nonempty := (holds_ofNonzero _ _).mp (admitted.holdsAt included proved).2
  rw [resolved_atom seen] at nonempty
  rw [isZero, zero_mul]
  omega

/-! ## The ladder -/

theorem axisProvenance_sound
    (settled : (compiler.dischargeByAxisProvenance checks goals partition).1 = true) :
    compiler.SettledBy goals partition
      (compiler.dischargeByAxisProvenance checks goals partition).2 := by
  unfold dischargeByAxisProvenance at settled ⊢
  dsimp only at settled ⊢
  split_ifs at settled ⊢ with crossed
  · exact crossTensorProvenance_sound formed crossed
  · exact sameViewProvenance_sound formed settled

/-- The ladder only adds launch checks, and a settled axis is settled by them. -/
theorem settleAxis_spec
    {answer : Bool × List LaunchCheck}
    (ok : compiler.settleAxis checks goals partition = .ok answer) :
    checks ⊆ answer.2 ∧ (answer.1 = true → compiler.SettledBy goals partition answer.2) := by
  unfold settleAxis at ok
  by_cases discharges : compiler.checkOpts.dischargeProofs
  · rw [if_pos discharges] at ok
    have grows := compiler.subset_dischargeByAxisProvenance checks goals partition
    have sound : (compiler.dischargeByAxisProvenance checks goals partition).1 = true → _ :=
      axisProvenance_sound formed
    generalize compiler.dischargeByAxisProvenance checks goals partition = provenance at *
    by_cases walked : provenance.1
    · rw [if_pos walked] at ok
      cases ok
      exact ⟨grows, sound⟩
    · rw [if_neg walked] at ok
      split at ok
      · rename_i folded
        cases ok
        exact ⟨grows, fun _ => foldStatic_sound formed folded⟩
      · cases ok
      · have blockGrows := List.Subset.trans grows
          (compiler.lowerFormed_spec provenance.2
            (compiler.blockIdObligation goals partition)).1
        dsimp only at ok
        split_ifs at ok with isBlock
        · cases ok
          exact ⟨blockGrows, fun _ => blockIdAxiom_sound formed isBlock⟩
        · cases ok
          exact ⟨List.Subset.trans blockGrows (subset_zeroCoordinateRung _ goals partition),
            zeroCoordinate_sound formed⟩
  · rw [if_neg discharges] at ok
    cases ok
    exact ⟨subset_zeroCoordinateRung checks goals partition, zeroCoordinate_sound formed⟩

end Rungs

variable {frames : List LoopFrame} {state : CheckState}

theorem placeAxis_launchChecks {block : Nat} {next : CheckState} {goals : AxisGoals}
    {outcome : AxisOutcome}
    (ok : compiler.placeAxis partition block frames state goals = .ok (outcome, next)) :
    next.launchChecks = state.launchChecks ∧ outcome ≠ .discharged := by
  rcases bind_eq_ok_iff.mp ok with ⟨_, _, ok⟩
  rcases bind_eq_ok_iff.mp ok with ⟨check, _, ok⟩
  cases ok
  refine ⟨?_, nofun⟩
  split_ifs
  · rfl
  · rfl

theorem checkAxis_spec {block : Nat} {next : CheckState} {index : TileRustValue SsaValue}
    {outcome : AxisOutcome}
    (ok : compiler.checkAxis partition block frames state axis index = .ok (outcome, next)) :
    state.launchChecks ⊆ next.launchChecks ∧
      (outcome = .discharged → ∃ goals,
        compiler.formAxisGoals partition axis index = .ok goals ∧
          compiler.SettledBy goals partition next.launchChecks) := by
  rcases bind_eq_ok_iff.mp ok with ⟨goals, isGoals, ok⟩
  rcases bind_eq_ok_iff.mp ok with ⟨⟨settled, _⟩, isSettled, ok⟩
  have formed := (formed_of_formAxisGoals isGoals).2.2
  rcases settleAxis_spec formed isSettled with ⟨grows, sound⟩
  cases settled with
  | true =>
    cases ok
    exact ⟨grows, fun _ => ⟨goals, isGoals, sound rfl⟩⟩
  | false =>
    rcases placeAxis_launchChecks ok with ⟨same, placed⟩
    rw [same]
    exact ⟨grows, fun settled => absurd settled placed⟩

/-- The loop over coordinates, by induction on the coordinates left. -/
theorem checkAxes_spec {block : Nat} {indexes : List (TileRustValue SsaValue)}
    {final : CheckState} {outcomes : List AxisOutcome}
    (ok : compiler.checkAxes partition block frames state axis indexes = .ok (outcomes, final)) :
    state.launchChecks ⊆ final.launchChecks ∧
      ∀ (position : Nat) (index : TileRustValue SsaValue), indexes[position]? = some index →
        outcomes[position]? = some .discharged →
        ∃ goals, compiler.formAxisGoals partition (axis + position) index = .ok goals ∧
          compiler.SettledBy goals partition final.launchChecks := by
  induction indexes generalizing state axis outcomes with
  | nil =>
    cases ok
    exact ⟨List.Subset.refl _, fun position index isIndex => by simp at isIndex⟩
  | cons _ _ induction =>
    rw [checkAxes] at ok
    simp only [bind_eq_ok_iff] at ok
    rcases ok with ⟨⟨outcome, next⟩, isOutcome, ⟨others, last⟩, isOthers, ⟨⟩⟩
    rcases checkAxis_spec isOutcome with ⟨grows, sound⟩
    rcases induction isOthers with ⟨restGrows, restSound⟩
    refine ⟨List.Subset.trans grows restGrows, fun position index isIndex settled => ?_⟩
    cases position with
    | zero =>
      cases isIndex
      rcases sound (some.inj settled) with ⟨goals, isGoals, settles⟩
      exact ⟨goals, isGoals, settles.mono restGrows⟩
    | succ position =>
      rw [← Nat.succ_add_eq_add_succ]
      exact restSound position index isIndex settled

/-- A coordinate that the ladder settles without a check in the kernel is in
bounds, in every block of every launch that the declared facts and the collected
checks let through. -/
theorem compileCheckPartitionAccess_sound (compiler : FunctionCompiler) (call : String)
    (partition : Partition) (indexes : List (TileRustValue SsaValue)) (block : Nat)
    (frames : List LoopFrame) (before after : CheckState) (outcomes : List AxisOutcome)
    (compiled : compiler.compileCheckPartitionAccess call partition indexes block frames
      before = .ok (outcomes, after))
    (axis : Nat) (index : TileRustValue SsaValue) (isIndex : indexes[axis]? = some index)
    (settled : outcomes[axis]? = some .discharged)
    (launch : Launch) (collected : List LaunchCheck)
    (included : after.launchChecks ⊆ collected)
    (admitted : compiler.Admits launch collected)
    (point : KernelPoint launch.toLaunchFrame) (value : Int)
    (facts : compiler.CoordinateFacts point index value)
    (extents : Nat → Int) (views : compiler.PartitionFacts point partition extents) :
    ∃ tile extentAxis, partition.staticTile[axis]? = some tile ∧
      partition.dimMap[axis]? = some extentAxis ∧
      0 ≤ value ∧ value * tile < extents extentAxis := by
  unfold compileCheckPartitionAccess at compiled
  split_ifs at compiled
  rcases (checkAxes_spec compiled).2 axis index isIndex settled with ⟨goals, isGoals, settles⟩
  rw [Nat.zero_add] at isGoals
  rcases formed_of_formAxisGoals isGoals with ⟨rfl, rfl, formed⟩
  exact ⟨goals.tile, goals.extentAxis, formed.tile, formed.extentAxis,
    settles launch collected point extents value included admitted facts views⟩

/-! A load through a transposed view: the first coordinate is the block id, the
second is zero. Both become launch checks. -/

def transposedCompiler : FunctionCompiler where
  paramIndex name := if name = "x" then some 0 else none
  paramIsMutable := [false]
  validator := [.tensor [-1, -1]]
  preconditions := []
  checkOpts := .release
  denyInKernelChecks := true

def transposedView : Partition where
  view := { kind := .structuredType, value := some 7, type := .f32
            tensorOrigin := some "x" }
  staticTile := [16, 8]
  staticShape := [-1, -1]
  dimMap := [1, 0]
  shapeDims := []
  tilePositive := by decide
  permutation := by decide

def blockCoordinate : TileRustValue SsaValue :=
  { kind := .primitiveType, value := some 3, type := .i32
    term := some (.atom (.tileBlockId 0)) }

def zeroCoordinate : TileRustValue SsaValue :=
  { kind := .primitiveType, value := some 4, type := .i32, bounds := some (.exact 0) }

def transposedLaunch : Launch where
  paramShapes := [[40, 100]]
  viewShapes := [[40, 100]]
  grid := (6, 1, 1)
  rootExtents := by decide
  viewExtents := by decide
  gridAxes := by decide

def fifthBlock : KernelPoint transposedLaunch.toLaunchFrame where
  blockId axis := if axis = 0 then 5 else 0
  valuation
    | .tileBlockId axis => if axis = 0 then 5 else 0
    | other => (transposedLaunch.resolveAtom other).getD 0
  viewExtent _ axis := if axis = 0 then 100 else 40
  inGrid axis blocks known := by
    match axis with
    | 0 | 1 | 2 =>
      cases known
      decide
    | _ + 3 => cases known
  launchKnown name value known := by
    cases name with
    | tileBlockId axis => cases known
    | _ => simp only [known, Option.getD_some]
  register _ := rfl

theorem compileCheckPartitionAccess_sound_transposed :
    ∃ after, transposedCompiler.compileCheckPartitionAccess "load" transposedView
        [blockCoordinate, zeroCoordinate] 0 [] ⟨[], 0, 0, 0⟩ =
          .ok ([.discharged, .discharged], after) ∧
      after.launchChecks.length = 2 ∧
      validateLaunchChecks after.launchChecks transposedLaunch.toLaunchFrame = .ok () ∧
      ∃ tile extentAxis, transposedView.staticTile[0]? = some tile ∧
        transposedView.dimMap[0]? = some extentAxis ∧
        (0 : Int) ≤ 5 ∧ 5 * tile < ([40, 100] : List Int).getD extentAxis 0 := by
  refine ⟨_, rfl, rfl, by decide, ?_⟩
  apply compileCheckPartitionAccess_sound transposedCompiler "load" transposedView
    [blockCoordinate, zeroCoordinate] 0 [] ⟨[], 0, 0, 0⟩ _ [.discharged, .discharged] rfl
    0 blockCoordinate rfl rfl transposedLaunch _ (List.Subset.refl _)
    ⟨nofun, ?_, by decide⟩ fifthBlock 5 ⟨by decide, nofun, ?_, nofun, nofun⟩
    (([40, 100] : List Int).getD · 0) ⟨?_, ?_, ?_⟩
  · intro param shape declared axis extent entry nonneg
    match param, axis with
    | 0, 0 | 0, 1 =>
      cases declared
      cases entry
      cases nonneg
    | 0, _ + 2 =>
      cases declared
      cases entry
    | _ + 1, _ => cases declared
  · intro term isTerm
    cases isTerm
    exact Int.ModEq.refl 5
  · intro axis extent entry fixed
    match axis with
    | 0 | 1 =>
      cases entry
      exact absurd rfl fixed
    | _ + 2 => cases entry
  · intro tensor param origin isParam axis inRank
    cases origin
    cases isParam
    match axis with
    | 0 | 1 => rfl
    | _ + 2 => simp [transposedView] at inRank
  · intro view axis extentAxis isView isAxis
    cases isView
    match axis with
    | 0 | 1 =>
      cases isAxis
      rfl
    | _ + 2 => cases isAxis

end FunctionCompiler

end CuTile
