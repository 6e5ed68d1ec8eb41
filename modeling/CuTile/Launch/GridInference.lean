import CuTile.Foundation.Fallible
import Mathlib.Tactic.ByContra
import Mathlib.Tactic.SplitIfs

/-! # Inference of the launch grid

Bindings constrain the grid of a launch: a partition that is covered exactly defines it, a
prefix only bounds it. The inferred grid satisfies all constraints, and there is one
whenever the constraints have a solution and something defines it.
-/

namespace CuTile

structure LaunchDims where
  x : UInt32
  y : UInt32
  z : UInt32
deriving DecidableEq, Repr

namespace LaunchDims

def axis (dims : LaunchDims) : Nat → UInt32
  | 0 => dims.x
  | 1 => dims.y
  | _ => dims.z

def text (dims : LaunchDims) : String :=
  s!"({dims.x.toNat}, {dims.y.toNat}, {dims.z.toNat})"

def unspecified : LaunchDims := ⟨0, 0, 0⟩

end LaunchDims

inductive GridBound where
  | exact (grid : LaunchDims)
  | atMost (max : LaunchDims)
deriving DecidableEq, Repr

def GridBound.exact? : GridBound → Option LaunchDims
  | .exact grid => some grid
  | .atMost _ => none

/-- The first pass of `validate_grid_bounds`. -/
def checkExact (grid : LaunchDims) : GridBound → Except String Unit
  | .exact expected =>
    if expected ≠ grid then
      .error (s!"launch grid {grid.text} does not match the inferred partition grid " ++
        expected.text)
    else .ok ()
  | .atMost _ => .ok ()

/-- The second pass. -/
def checkAtMost (grid : LaunchDims) : GridBound → Except String Unit
  | .exact _ => .ok ()
  | .atMost max =>
    match [0, 1, 2].find? fun axis => max.axis axis < grid.axis axis with
    | some axis =>
      .error (s!"launch grid {grid.text} exceeds the partial-coverage partition grid " ++
        s!"{max.text} on axis {axis}")
    | none => .ok ()

def validateGridBounds (grid : LaunchDims) (bounds : List GridBound) : Except String Unit := do
  forM bounds (checkExact grid)
  forM bounds (checkAtMost grid)

def inferLaunchGrid (grid : LaunchDims) (bounds : List GridBound) : Except String LaunchDims :=
  if grid ≠ .unspecified then do
    validateGridBounds grid bounds
    return grid
  else
    match bounds.filterMap GridBound.exact? with
    | [] =>
      if bounds = [] then .error "Launch grid required."
      else .error ("Launch grid required: a partial-coverage (partition_prefix) binding " ++
        "only bounds the grid; specify the grid explicitly or bind with partition().")
    | inferred :: _ => do
      validateGridBounds inferred bounds
      return inferred

/-! ## Solutions -/

def GridBound.Admits (grid : LaunchDims) : GridBound → Prop
  | .exact expected => grid = expected
  | .atMost max => ∀ axis < 3, grid.axis axis ≤ max.axis axis

structure Solves (requested : LaunchDims) (bounds : List GridBound) (grid : LaunchDims) : Prop where
  admitted : ∀ bound ∈ bounds, bound.Admits grid
  specified : requested ≠ .unspecified → grid = requested

variable {grid requested : LaunchDims} {bounds : List GridBound}

theorem forM_eq_ok_iff {check : GridBound → Except String Unit} :
    forM bounds check = .ok () ↔ ∀ bound ∈ bounds, check bound = .ok () := by
  induction bounds with
  | nil => exact iff_of_true rfl (List.forall_mem_nil _)
  | cons _ _ induction =>
    rw [List.forM_cons, Fallible.check_bind_eq_ok_iff, List.forall_mem_cons, induction]

theorem checkExact_eq_ok_iff {expected : LaunchDims} :
    checkExact grid (.exact expected) = .ok () ↔ grid = expected := by
  rw [checkExact]
  split_ifs with differs
  · exact iff_of_false nofun (Ne.symm differs)
  · exact iff_of_true rfl (not_not.mp differs).symm

theorem checkAtMost_eq_ok_iff {max : LaunchDims} :
    checkAtMost grid (.atMost max) = .ok () ↔ ∀ axis < 3, grid.axis axis ≤ max.axis axis := by
  rw [checkAtMost]
  cases found : [0, 1, 2].find? fun axis => max.axis axis < grid.axis axis with
  | some axis =>
    have exceeds : max.axis axis < grid.axis axis := of_decide_eq_true
      (List.find?_some (p := fun axis => max.axis axis < grid.axis axis) found)
    have isAxis : axis < 3 := by
      have listed := List.mem_of_find?_eq_some found
      simp at listed
      omega
    apply iff_of_false nofun
    exact fun within => UInt32.not_le.mpr exceeds (within axis isAxis)
  | none =>
    apply iff_of_true rfl
    intro axis isAxis
    have fits := List.find?_eq_none.mp found axis (by simp; omega)
    exact UInt32.not_lt.mp fun exceeds => fits (decide_eq_true exceeds)

/-- A bound goes through both passes exactly when it admits the grid. -/
theorem checks_iff_admits (bound : GridBound) :
    checkExact grid bound = .ok () ∧ checkAtMost grid bound = .ok () ↔ bound.Admits grid := by
  cases bound with
  | exact => exact (and_iff_left rfl).trans checkExact_eq_ok_iff
  | atMost => exact (and_iff_right rfl).trans checkAtMost_eq_ok_iff

theorem validateGridBounds_eq_ok_iff :
    validateGridBounds grid bounds = .ok () ↔ ∀ bound ∈ bounds, bound.Admits grid := by
  rw [validateGridBounds, Fallible.check_bind_eq_ok_iff]
  simp only [← checks_iff_admits, forall₂_and, forM_eq_ok_iff]

theorem validated_iff {result : LaunchDims} :
    (do validateGridBounds grid bounds; return grid) = .ok result ↔
      (∀ bound ∈ bounds, bound.Admits grid) ∧ grid = result := by
  rw [Fallible.check_bind_eq_ok_iff, Fallible.pure_eq_ok_iff, validateGridBounds_eq_ok_iff]

theorem mem_exacts_iff : grid ∈ bounds.filterMap GridBound.exact? ↔ .exact grid ∈ bounds := by
  rw [List.mem_filterMap]
  constructor
  · rintro ⟨bound, isBound, isGrid⟩
    cases bound with
    | exact => exact Option.some.inj isGrid ▸ isBound
    | atMost => cases isGrid
  · exact fun isBound => ⟨.exact grid, isBound, rfl⟩

/-- The launch is under-determined: nothing fixes the grid. -/
def Undetermined (requested : LaunchDims) (bounds : List GridBound) : Prop :=
  requested = .unspecified ∧ ∀ grid, .exact grid ∉ bounds

/-- The grid inferred is the one that solves a determined launch. -/
theorem inferLaunchGrid_eq_ok_iff :
    inferLaunchGrid requested bounds = .ok grid ↔
      Solves requested bounds grid ∧ ¬ Undetermined requested bounds := by
  rw [inferLaunchGrid]
  by_cases specified : requested ≠ .unspecified
  · rw [if_pos specified, validated_iff]
    constructor
    · intro inferred
      cases inferred.2
      exact ⟨⟨inferred.1, fun _ => rfl⟩, fun under => specified under.1⟩
    · intro solution
      have isRequested := solution.1.specified specified
      exact ⟨isRequested ▸ solution.1.admitted, isRequested.symm⟩
  · rw [if_neg specified]
    cases exacts : bounds.filterMap GridBound.exact? with
    | nil =>
      have under : Undetermined requested bounds :=
        ⟨not_not.mp specified, fun grid isBound =>
          List.not_mem_nil (exacts ▸ mem_exacts_iff.mpr isBound)⟩
      apply iff_of_false
      · intro inferred
        split_ifs at inferred
      · exact fun solution => solution.2 under
    | cons first =>
      have isBound : .exact first ∈ bounds :=
        mem_exacts_iff.mp (exacts ▸ List.mem_cons_self)
      rw [validated_iff]
      constructor
      · intro inferred
        cases inferred.2
        exact ⟨⟨inferred.1, fun other => absurd other specified⟩,
          fun under => under.2 _ isBound⟩
      · intro solution
        have isFirst : grid = first := solution.1.admitted _ isBound
        exact ⟨isFirst ▸ solution.1.admitted, isFirst.symm⟩

/-- What is inferred solves the launch, and inference fails only where there is no solution
or nothing determines one. -/
theorem inferLaunchGrid_sound_and_complete (requested : LaunchDims) (bounds : List GridBound) :
    (∀ grid, inferLaunchGrid requested bounds = .ok grid → Solves requested bounds grid) ∧
    ((∃ message, inferLaunchGrid requested bounds = .error message) ↔
      (¬ ∃ grid, Solves requested bounds grid) ∨ Undetermined requested bounds) := by
  refine ⟨fun grid inferred => (inferLaunchGrid_eq_ok_iff.mp inferred).1, ?_⟩
  constructor
  · rintro ⟨message, fails⟩
    by_contra determined
    rw [not_or, not_not] at determined
    rcases determined with ⟨⟨grid, solution⟩, fixed⟩
    cases fails.symm.trans (inferLaunchGrid_eq_ok_iff.mpr ⟨solution, fixed⟩)
  · intro unsolvable
    cases result : inferLaunchGrid requested bounds with
    | error message => exact ⟨message, rfl⟩
    | ok grid =>
      have solution := inferLaunchGrid_eq_ok_iff.mp result
      rcases unsolvable with none | under
      · exact absurd ⟨grid, solution.1⟩ none
      · exact absurd under solution.2

end CuTile
