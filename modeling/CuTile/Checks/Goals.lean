import CuTile.Compiler.FunctionCompiler

/-! # Access goals

Each coordinate of a partition access owes two goals, `0 <= i` and `i * t < e`.
This module forms them and holds the rungs that can settle them without a check
in the kernel.
-/

namespace CuTile

/-- A partition view: its compiled value and what its type says about it. A
shape entry of `-1` is an extent that is only known at run time. -/
structure Partition where
  view : TileRustValue SsaValue
  staticTile : List Int
  staticShape : List Int
  /-- The tensor axis that bounds each logical axis. -/
  dimMap : List Nat
  /-- Run-time extents of the dynamic axes, in axis order. -/
  shapeDims : List (TileRustValue SsaValue)
  tilePositive : ∀ tile ∈ staticTile, 1 ≤ tile
  permutation : dimMap.Perm (List.range staticShape.length)

structure AxisGoals where
  axis : Nat
  extentAxis : Nat
  tile : Int
  staticExtent : Option Int
  index : TileRustValue SsaValue

structure StaticViolation where
  min : Int
  max : Int
  numTiles : Int
deriving DecidableEq, Repr

/-- Decide both goals from a known index range and a known extent. -/
def foldStatic (goals : AxisGoals) : Option (Except StaticViolation Unit) := do
  let bounds ← goals.index.bounds
  let extent ← goals.staticExtent
  let numTiles := (extent + goals.tile - 1).tdiv goals.tile
  return if 0 ≤ bounds.start ∧ bounds.last < numTiles then .ok ()
    else .error ⟨bounds.start, bounds.last, numTiles⟩

namespace FunctionCompiler

variable (compiler : FunctionCompiler) (checks : List LaunchCheck)

/-- The goals of one axis. An axis that the view or the map does not have is an
out-of-range index of the compiler itself. -/
def formAxisGoals (partition : Partition) (axis : Nat) (index : TileRustValue SsaValue) :
    Except Failure AxisGoals :=
  match partition.dimMap[axis]?, partition.staticTile[axis]? with
  | some extentAxis, some tile =>
    match partition.staticShape[extentAxis]? with
    | some extent =>
      .ok { axis, extentAxis, tile, index
            staticExtent :=
              if extent = -1 then
                compiler.declaredExtent partition.view.tensorOrigin extentAxis
              else some extent }
    | none => .error (.panic "index out of bounds")
  | _, _ => .error (.panic "index out of bounds")

/-- The coordinate walks another tensor's axis, and that axis has at most as
many tiles. -/
def crossTensorProvenance (goals : AxisGoals) (partition : Partition) :
    Bool × List LaunchCheck :=
  match goals.index.partitionAxisOrigin, partition.view.tensorOrigin with
  | some origin, some target =>
    if origin.tileDim = goals.tile ∧ (compiler.rootFramedParam target).isSome then
      compiler.resolveDimLe checks origin.tensor origin.axis target goals.extentAxis
        goals.tile
    else (false, checks)
  | _, _ => (false, checks)

/-- The coordinate walks this very axis of this very view. -/
def sameViewProvenance (goals : AxisGoals) (partition : Partition) : Bool :=
  match goals.index.indexOrigin, partition.view.value with
  | some (.partitionAxis view axis tileDim), some partitionView =>
    view = partitionView ∧ axis = goals.axis ∧ tileDim = goals.tile
  | _, _ => false

def dischargeByAxisProvenance (goals : AxisGoals) (partition : Partition) :
    Bool × List LaunchCheck :=
  let crossed := compiler.crossTensorProvenance checks goals partition
  if crossed.1 then crossed else (sameViewProvenance goals partition, crossed.2)

/-- What is left to check when the coordinate is the block id of grid axis `k`:
the grid has at most as many blocks as the axis has tiles, stated without
division. -/
def blockIdObligation (goals : AxisGoals) (partition : Partition) :
    Option (Predicate × String) := do
  let (.tileBlockId k, 1, 0) ← goals.index.term.bind Term.asSingleAffine | none
  let tensor ← partition.view.tensorOrigin
  let param ← compiler.paramIndex tensor
  let blocks ← (Term.atom (.numTileBlocks k)).mulConst goals.tile
  let tiles ← (Term.atom (compiler.extentAtom param goals.extentAxis)).add
    (.constant (goals.tile - 1))
  let predicate ← Predicate.le blocks tiles
  return (predicate, s!"num_tile_blocks({k}) <= ceil(extent({tensor}, "
    ++ s!"{goals.extentAxis})/{goals.tile})")

/-- What is left to check when the coordinate is the constant zero and the
extent is not static: the extent is not empty. -/
def zeroCoordinateObligation (goals : AxisGoals) (partition : Partition) :
    Option (Predicate × String) := do
  if goals.staticExtent.isSome then none
  else
    let bounds ← goals.index.bounds
    if bounds.start = 0 ∧ bounds.last = 0 then
      let tensor ← partition.view.tensorOrigin
      let param ← compiler.paramIndex tensor
      return (.ofNonzero (.atom (compiler.extentAtom param goals.extentAxis)),
        s!"partition access on axis {goals.extentAxis} of `{tensor}` requires a "
          ++ "non-empty extent")
    else none

/-- Lower an obligation a rung could form, or leave the rung open. -/
def lowerFormed : Option (Predicate × String) → Bool × List LaunchCheck
  | none => (false, checks)
  | some (predicate, cause) => compiler.lower checks predicate cause

def dischargeByBlockIdAxiom (goals : AxisGoals) (partition : Partition) :
    Bool × List LaunchCheck :=
  compiler.lowerFormed checks (compiler.blockIdObligation goals partition)

def hoistZeroCoordinateNonemptyExtent (goals : AxisGoals) (partition : Partition) :
    Bool × List LaunchCheck :=
  compiler.lowerFormed checks (compiler.zeroCoordinateObligation goals partition)

end FunctionCompiler

/-- The run-time extent operand of an axis whose extent is not static. -/
def resolveDynamicExtent (goals : AxisGoals) (partition : Partition) :
    Except Failure (TileRustValue SsaValue) :=
  match ((partition.staticShape.take (goals.extentAxis + 1)).filter (· = -1)).length with
  | 0 => .error (.jitError ("internal: dynamic partition dimension was not found in "
      ++ "tensor shape metadata"))
  | position + 1 =>
    match partition.shapeDims[position]? with
    | some value => .ok value
    | none => .error (.jitError ("internal: tensor shape metadata is missing dynamic "
        ++ s!"dimension {position}"))

/-! ## What the rungs settle -/

namespace FunctionCompiler

variable (compiler : FunctionCompiler) (checks : List LaunchCheck)

theorem lowerFormed_spec (formed : Option (Predicate × String)) :
    checks ⊆ (compiler.lowerFormed checks formed).2 ∧
      ((compiler.lowerFormed checks formed).1 = true →
        ∃ predicate cause, formed = some (predicate, cause) ∧
          Settled compiler.assumptions (compiler.lowerFormed checks formed).2 predicate) := by
  cases formed with
  | none => exact ⟨List.Subset.refl _, nofun⟩
  | some obligation =>
    rcases obligation with ⟨predicate, cause⟩
    have spec := compiler.lower_spec checks predicate cause
    exact ⟨spec.1, fun positive => ⟨predicate, cause, rfl, spec.2 positive⟩⟩

theorem subset_crossTensorProvenance (goals : AxisGoals) (partition : Partition) :
    checks ⊆ (compiler.crossTensorProvenance checks goals partition).2 := by
  unfold crossTensorProvenance
  split
  · split_ifs
    · exact (compiler.resolveDimLe_spec checks _ _ _ _ _).1
    · exact List.Subset.refl _
  · exact List.Subset.refl _

theorem subset_dischargeByAxisProvenance (goals : AxisGoals) (partition : Partition) :
    checks ⊆ (compiler.dischargeByAxisProvenance checks goals partition).2 := by
  unfold dischargeByAxisProvenance
  have grows := compiler.subset_crossTensorProvenance checks goals partition
  dsimp only
  split_ifs
  · exact grows
  · exact grows

end FunctionCompiler

end CuTile
