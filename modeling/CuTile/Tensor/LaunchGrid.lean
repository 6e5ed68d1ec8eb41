import CuTile.Foundation.Division
import CuTile.Foundation.Fallible
import CuTile.Foundation.MachineInteger

/-! # Launch grids

The host side of a partition: how many blocks a launch needs along each axis of a
tensor that is cut into slabs.
-/

namespace CuTile

open Fallible

/-- The blocks of a launch along each grid axis. -/
abbrev Grid := Int × Int × Int

def Grid.axis (grid : Grid) : Nat → Int
  | 0 => grid.1
  | 1 => grid.2.1
  | _ => grid.2.2

/-- Blocks along one axis: a partial edge slab still gets one. -/
def launchAxis (extent : Int) (slab : Nat) : Except String Int :=
  if IntegerFormat.u32.maxValue < slab then
    .error s!"Partition dimension {slab} exceeds u32::MAX."
  else .ok (ceilQuotient extent slab)

def partitionLaunchGrid (shape : List Int) (partitionShape : List Nat) :
    Except String Grid :=
  if shape.any (· ≤ 0) then
    .error s!"Shape dimensions must be positive, got {shape}."
  else if partitionShape.length ≠ shape.length then
    .error (s!"Partition rank {partitionShape.length} does not match tensor rank "
      ++ s!"{shape.length} (partition shape {partitionShape}, tensor shape {shape}).")
  else if partitionShape.contains 0 then
    .error s!"Partition dimensions must be positive, got {partitionShape}."
  else
    match shape, partitionShape with
    | [e], [s] => do return (← launchAxis e s, 1, 1)
    | [e, e'], [s, s'] => do return (← launchAxis e s, ← launchAxis e' s', 1)
    | [e, e', e''], [s, s', s''] => do
      return (← launchAxis e s, ← launchAxis e' s', ← launchAxis e'' s'')
    | _, _ => .error "Mutable tensor must be at most rank 3."

theorem launchAxis_eq_ok {extent blocks : Int} {slab : Nat}
    (ok : launchAxis extent slab = .ok blocks) : blocks = ceilQuotient extent slab := by
  unfold launchAxis at ok
  split_ifs at ok
  exact (Except.ok.inj ok).symm

theorem partitionLaunchGrid_positive {shape : List Int} {partitionShape : List Nat}
    {grid : Grid} (ok : partitionLaunchGrid shape partitionShape = .ok grid) :
    (∀ extent ∈ shape, 0 < extent) ∧ partitionShape.length = shape.length ∧
      ∀ slab ∈ partitionShape, 0 < slab := by
  unfold partitionLaunchGrid at ok
  split_ifs at ok with nonpositive ranks zero
  refine ⟨?_, not_not.mp ranks, ?_⟩
  · intro extent member
    by_contra notPositive
    exact nonpositive (List.any_eq_true.mpr ⟨extent, member, decide_eq_true (by omega)⟩)
  · intro slab member
    by_contra notPositive
    rw [Nat.eq_zero_of_not_pos notPositive] at member
    exact zero (List.contains_iff_mem.mpr member)

theorem launchAxis_at {extent known blocks : Int} {slab knownSlab : Nat}
    (ok : launchAxis known knownSlab = .ok blocks) (isExtent : some known = some extent)
    (isSlab : some knownSlab = some slab) : blocks = ceilQuotient extent slab := by
  cases isExtent
  cases isSlab
  exact launchAxis_eq_ok ok

/-- An accepted partition gets the ceiling quotient of blocks along every axis. -/
theorem partitionLaunchGrid_axis {shape : List Int} {partitionShape : List Nat} {grid : Grid}
    (ok : partitionLaunchGrid shape partitionShape = .ok grid) :
    partitionShape.length = shape.length ∧
      ∀ (axis : Nat) (extent : Int) (slab : Nat), shape[axis]? = some extent →
        partitionShape[axis]? = some slab → grid.axis axis = ceilQuotient extent slab := by
  unfold partitionLaunchGrid at ok
  split_ifs at ok with nonpositive ranks zero
  refine ⟨not_not.mp ranks, ?_⟩
  intro axis _ _ isExtent isSlab
  split at ok
  · rcases bind_eq_ok_iff.mp ok with ⟨first, isFirst, ⟨⟩⟩
    rcases axis with _ | _
    · exact launchAxis_at isFirst isExtent isSlab
    · cases isExtent
  · simp only [bind_eq_ok_iff] at ok
    rcases ok with ⟨first, isFirst, second, isSecond, ⟨⟩⟩
    rcases axis with _ | _ | _
    · exact launchAxis_at isFirst isExtent isSlab
    · exact launchAxis_at isSecond isExtent isSlab
    · cases isExtent
  · simp only [bind_eq_ok_iff] at ok
    rcases ok with ⟨first, isFirst, second, isSecond, third, isThird, ⟨⟩⟩
    rcases axis with _ | _ | _ | _
    · exact launchAxis_at isFirst isExtent isSlab
    · exact launchAxis_at isSecond isExtent isSlab
    · exact launchAxis_at isThird isExtent isSlab
    · cases isExtent
  · cases ok

end CuTile
