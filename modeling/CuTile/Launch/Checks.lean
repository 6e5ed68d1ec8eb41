import CuTile.Foundation.Fallible
import CuTile.Predicate.Predicate

/-! # Launch checks

The host side of a kernel launch: every check the compiler moved out of the
kernel is evaluated against the extents and the grid of the launch.
-/

namespace CuTile

/-- What the launcher evaluates checks against. `paramShapes` holds the root
extents of each parameter, `viewShapes` the extents the kernel body sees (the
partition slab of a mutable tensor). Both are empty for non-tensor parameters. -/
structure LaunchFrame where
  paramShapes : List (List Int)
  viewShapes : List (List Int)
  grid : Int × Int × Int

namespace LaunchFrame

def extent (shapes : List (List Int)) (param axis : Nat) : Option Int :=
  shapes[param]?.bind fun shape => shape[axis]?

/-- Tiles of extent `tile` that cover `extent`, in the truncating division of
the host. -/
def tileCount (extent tile : Int) : Int := (extent + tile - 1).tdiv tile

def resolveAtom (frame : LaunchFrame) : Atom → Option Int
  | .dim param axis => extent frame.paramShapes param axis
  | .viewExtent param axis => extent frame.viewShapes param axis
  | .tileCount param axis tile =>
    -- a malformed atom fails closed instead of dividing by zero
    if tile < 1 then none
    else (extent frame.paramShapes param axis).map (tileCount · tile)
  | .numTileBlocks 0 => some frame.grid.1
  | .numTileBlocks 1 => some frame.grid.2.1
  | .numTileBlocks 2 => some frame.grid.2.2
  | .numTileBlocks _ => none
  | .iv _ | .tileBlockId _ => none

end LaunchFrame

def evaluateLaunchCheck (check : LaunchCheck) (frame : LaunchFrame) :
    Except String Unit :=
  match check.predicate.eval frame.resolveAtom with
  | some true => .ok ()
  | some false => .error s!"launch check failed: {check.cause}"
  | none =>
    .error ("launch check has unresolved operands (extent unavailable at launch): "
      ++ check.cause)

def validateLaunchChecks : List LaunchCheck → LaunchFrame → Except String Unit
  | [], _ => .ok ()
  | check :: rest, frame => do
    evaluateLaunchCheck check frame
    validateLaunchChecks rest frame

theorem evaluateLaunchCheck_ok_iff {check : LaunchCheck} {frame : LaunchFrame} :
    evaluateLaunchCheck check frame = .ok () ↔
      check.predicate.eval frame.resolveAtom = some true := by
  unfold evaluateLaunchCheck
  split <;> simp_all

theorem validateLaunchChecks_ok_iff {checks : List LaunchCheck} {frame : LaunchFrame} :
    validateLaunchChecks checks frame = .ok () ↔
      ∀ check ∈ checks, check.predicate.eval frame.resolveAtom = some true := by
  induction checks with
  | nil => simp [validateLaunchChecks]
  | cons _ _ induction =>
    rw [List.forall_mem_cons, ← induction, ← evaluateLaunchCheck_ok_iff,
      validateLaunchChecks, Fallible.bind_eq_ok_iff]
    exact ⟨fun ⟨_, first, rest⟩ => ⟨first, rest⟩,
      fun ⟨first, rest⟩ => ⟨(), first, rest⟩⟩

theorem holdsAt_of_validated {checks : List LaunchCheck} {frame : LaunchFrame}
    (valid : validateLaunchChecks checks frame = .ok ())
    {check : LaunchCheck} (member : check ∈ checks) :
    check.predicate.HoldsAt frame.resolveAtom :=
  ((check.predicate.eval_eq_true_iff _).mp
    (validateLaunchChecks_ok_iff.mp valid check member)).2

/-- A launch: extents are those of tensors, so they are nonnegative `i32`
values, and the grid is made of `u32` values. -/
structure Launch extends LaunchFrame where
  rootExtents : ∀ shape ∈ paramShapes, ∀ extent ∈ shape,
    0 ≤ extent ∧ IntegerFormat.i32.Represents extent
  viewExtents : ∀ shape ∈ viewShapes, ∀ extent ∈ shape,
    0 ≤ extent ∧ IntegerFormat.i32.Represents extent
  gridAxes : IntegerFormat.u32.Represents grid.1 ∧ IntegerFormat.u32.Represents grid.2.1 ∧
    IntegerFormat.u32.Represents grid.2.2

namespace Launch

theorem extent_range {shapes : List (List Int)}
    (valid : ∀ shape ∈ shapes, ∀ extent ∈ shape,
      0 ≤ extent ∧ IntegerFormat.i32.Represents extent)
    {param axis : Nat} {extent : Int}
    (known : LaunchFrame.extent shapes param axis = some extent) :
    0 ≤ extent ∧ extent ≤ 2147483647 := by
  rcases Option.bind_eq_some_iff.mp known with ⟨shape, isShape, isExtent⟩
  have range := valid shape (List.mem_of_getElem? isShape) extent
    (List.mem_of_getElem? isExtent)
  exact ⟨range.1, range.2.2⟩

end Launch

end CuTile
