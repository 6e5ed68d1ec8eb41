import CuTile.Checks.Placement

/-! # Partition access checks

The ladder that settles each coordinate of a partition access, and why a
coordinate it settles without a check in the kernel stays in bounds.
-/

namespace CuTile

inductive AxisOutcome where
  | discharged
  | placed (check : ResidualCheck)

/-- What a compilation accumulates over its accesses. -/
structure CheckState where
  launchChecks : List LaunchCheck
  discharged : Nat
  hoisted : Nat
  inPlace : Nat

namespace FunctionCompiler

variable (compiler : FunctionCompiler)

/-- The launch rung for a zero coordinate, which needs leave to move checks out
of the kernel. -/
def zeroCoordinateRung (checks : List LaunchCheck) (goals : AxisGoals)
    (partition : Partition) : Bool × List LaunchCheck :=
  if compiler.checkOpts.relocateToLaunch then
    compiler.hoistZeroCoordinateNonemptyExtent checks goals partition
  else (false, checks)

/-- The rungs that can settle an axis without a check in the kernel, in order. -/
def settleAxis (checks : List LaunchCheck) (goals : AxisGoals) (partition : Partition) :
    Except Failure (Bool × List LaunchCheck) :=
  if compiler.checkOpts.dischargeProofs then
    let provenance := compiler.dischargeByAxisProvenance checks goals partition
    if provenance.1 then .ok provenance
    else
      match foldStatic goals with
      | some (.ok ()) => .ok (true, provenance.2)
      | some (.error violation) =>
        .error (.jitError (s!"Bounds check failed: 0 <= {violation.min} && "
          ++ s!"{violation.max} < {violation.numTiles}"))
      | none =>
        let blockId := compiler.dischargeByBlockIdAxiom provenance.2 goals partition
        if blockId.1 then .ok blockId
        else .ok (compiler.zeroCoordinateRung blockId.2 goals partition)
  else .ok (compiler.zeroCoordinateRung checks goals partition)

/-- The extent operand of an axis, which only a dynamic extent needs. -/
def dynamicExtentOf (goals : AxisGoals) (partition : Partition) :
    Except Failure (Option (TileRustValue SsaValue)) :=
  if goals.staticExtent.isNone then (resolveDynamicExtent goals partition).map some
  else .ok none

def placeAxis (partition : Partition) (block : Nat) (frames : List LoopFrame)
    (state : CheckState) (goals : AxisGoals) : Except Failure (AxisOutcome × CheckState) := do
  let dynamicExtent ← dynamicExtentOf goals partition
  let check ← compiler.placeResidualCheck goals dynamicExtent block frames
  return (.placed check,
    if check.hoisted then { state with hoisted := state.hoisted + 1 }
    else { state with inPlace := state.inPlace + 1 })

/-- One round of the loop over coordinates. -/
def checkAxis (partition : Partition) (block : Nat) (frames : List LoopFrame)
    (state : CheckState) (axis : Nat) (index : TileRustValue SsaValue) :
    Except Failure (AxisOutcome × CheckState) := do
  let goals ← compiler.formAxisGoals partition axis index
  let answer ← compiler.settleAxis state.launchChecks goals partition
  if answer.1 then
    return (.discharged,
      { state with launchChecks := answer.2, discharged := state.discharged + 1 })
  else
    compiler.placeAxis partition block frames { state with launchChecks := answer.2 } goals

def checkAxes (partition : Partition) (block : Nat) (frames : List LoopFrame)
    (state : CheckState) (axis : Nat) :
    List (TileRustValue SsaValue) → Except Failure (List AxisOutcome × CheckState)
  | [] => .ok ([], state)
  | index :: rest => do
    let (outcome, next) ← compiler.checkAxis partition block frames state axis index
    let (outcomes, final) ← checkAxes partition block frames next (axis + 1) rest
    return (outcome :: outcomes, final)

/-- Check every coordinate of an access. `call` is the source text that errors
quote. -/
def compileCheckPartitionAccess (call : String) (partition : Partition)
    (indexes : List (TileRustValue SsaValue)) (block : Nat) (frames : List LoopFrame)
    (state : CheckState) : Except Failure (List AxisOutcome × CheckState) :=
  if partition.view.kind ≠ .structuredType then
    .error (.jitError ("expected a structured or primitive type for first argument of "
      ++ s!"`{call}`, got {partition.view.kind.debugName}"))
  else if partition.staticTile.length ≠ indexes.length ∨
      partition.staticTile.length ≠ partition.staticShape.length then
    .error (.jitError (s!"Unexpected tile ({partition.staticTile.length}), shape "
      ++ s!"({partition.staticShape.length}), or index ({indexes.length}) length mismatch."))
  else compiler.checkAxes partition block frames state 0 indexes

end FunctionCompiler

end CuTile
