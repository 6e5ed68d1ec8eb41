import CuTile.Schedule.Swizzle

/-! # Mapped schedules visit every tile once

The code of a schedule is emitted once and runs for every tile id. Read over the
integers, it traverses the box of tile counts, whatever the number of tile blocks that
share the ids.
-/

namespace CuTile

open Traversal ScheduleAxis

/-- The products that a schedule computes are `i32` values. -/
def ScheduleFits : List ScheduleAxis → Int → Prop
  | [m, n], tile => GroupsFit m.count n.count m.dim n.dim tile
  | [_, m, n], tile =>
    IntegerFormat.i32.Represents (m.count * n.count) ∧
      GroupsFit m.count n.count m.dim n.dim (tile % (m.count * n.count))
  | _, _ => True

/-- The coordinates of a tile id, as the emitted code computes them. -/
structure Schedules (environment : Environment) (axes : List ScheduleAxis) (tile : Int)
    (isTile : Prop) (bids : List Emitted) : Prop where
  reads : List.Forall₂ (Reads environment) bids (scheduled axes tile)
  noWrap_iff : (∀ axis ∈ axes, IntegerFormat.i32.Represents axis.count) →
    ((∀ bid ∈ bids, bid.NoWrap environment) ↔ isTile ∧ ScheduleFits axes tile)

section Emission

variable {environment : Environment} {tileId : Emitted} {tile : Int} {isTile : Prop}

/-- The count of an axis is a scalar of the program. -/
abbrev ScheduleAxis.Counted (axis : ScheduleAxis) (environment : Environment) : Prop :=
  Tracks environment axis.numBid axis.count (IntegerFormat.i32.Represents axis.count)

theorem schedules_line {axis : ScheduleAxis} (linear : axis.dim = 1)
    (tracksTile : Tracks environment tileId tile isTile) (counted : axis.Counted environment)
    (inside : tile ∈ Set.Ico 0 (totalTiles [axis])) :
    ∃ bids, emitMappedPartitionSchedule tileId [axis.operand] = .ok bids ∧
      Schedules environment [axis] tile isTile bids := by
  have compiled : emitMappedPartitionSchedule tileId [axis.operand] =
      .ok [{ tileId with bounds := exactAxisBounds axis.numBid }] :=
    if_neg (not_not.mpr linear)
  have range : 0 ≤ tile ∧ tile < axis.count := by
    simpa [totalTiles] using inside
  have mints := tracksTile.mints counted.toReads range fun _ isInterval => .inl isInterval
  refine ⟨_, compiled, .cons mints.toReads .nil, ?_⟩
  intro _
  rw [List.forall_mem_singleton, mints.noWrap_iff]
  exact (and_iff_left trivial).symm

theorem schedules_plane {m n : ScheduleAxis}
    (tracksTile : Tracks environment tileId tile isTile)
    (countedM : m.Counted environment) (countedN : n.Counted environment)
    (inside : tile ∈ Set.Ico 0 (totalTiles [m, n])) :
    ∃ bids, emitMappedPartitionSchedule tileId [m.operand, n.operand] = .ok bids ∧
      Schedules environment [m, n] tile isTile bids := by
  have size : totalTiles [m, n] = m.count * n.count := by simp [totalTiles]
  rw [size] at inside
  rcases emitSwizzle2d_mints tracksTile countedM countedN n.countPositive m.dimPositive
    m.dimMachine n.dimPositive n.dimMachine inside
    with ⟨bidM, bidN, _, compiled, mintsM, mintsN, means⟩
  have unfolded : emitMappedPartitionSchedule tileId [m.operand, n.operand] =
      emitTrailing tileId [] m.numBid n.numBid m.dim n.dim := rfl
  refine ⟨[bidM, bidN], ?_, .cons mintsM.toReads (.cons mintsN.toReads .nil), ?_⟩
  · simp only [unfolded, emitTrailing, List.isEmpty_nil, if_true, compiled, bind, Except.bind,
      pure, Except.pure]
  · intro machine
    have fits := means (machine m (by simp)) (machine n (by simp))
    simp only [List.forall_mem_cons, mintsM.noWrap_iff, mintsN.noWrap_iff, fits, ScheduleFits,
      List.not_mem_nil, false_implies, implies_true, and_true, and_self]

theorem schedules_space {lead m n : ScheduleAxis} (linear : lead.dim = 1)
    (tracksTile : Tracks environment tileId tile isTile)
    (countedLead : lead.Counted environment)
    (countedM : m.Counted environment) (countedN : n.Counted environment)
    (inside : tile ∈ Set.Ico 0 (totalTiles [lead, m, n])) :
    ∃ bids, emitMappedPartitionSchedule tileId [lead.operand, m.operand, n.operand] = .ok bids ∧
      Schedules environment [lead, m, n] tile isTile bids := by
  have inner : totalTiles [m, n] = m.count * n.count := by simp [totalTiles]
  have size : totalTiles [lead, m, n] = lead.count * (m.count * n.count) := by simp [totalTiles]
  rw [size] at inside
  have innerPositive : 0 < m.count * n.count := mul_pos m.countPositive n.countPositive
  have point := (bijOn_rowMajor lead.count innerPositive).mapsTo inside
  rcases emitOp_produces .mul countedM countedN (by simp) rfl rfl Iff.rfl
    with ⟨_, isInner, tracksInner⟩
  rcases emitDiv_produces tracksTile tracksInner inside.1 innerPositive Iff.rfl
    with ⟨leadId, isLead, tracksLead⟩
  rcases emitRem_produces tracksTile tracksInner inside.1 innerPositive Iff.rfl
    with ⟨_, isInnerTile, tracksInnerTile⟩
  rcases emitSwizzle2d_mints tracksInnerTile countedM countedN n.countPositive m.dimPositive
    m.dimMachine n.dimPositive n.dimMachine point.2
    with ⟨bidM, bidN, _, compiled, mintsM, mintsN, means⟩
  have mintsLead := tracksLead.mints countedLead.toReads point.1
    fun _ isInterval => .inl isInterval
  have unfolded : emitMappedPartitionSchedule tileId [lead.operand, m.operand, n.operand] =
      emitTrailing tileId [lead.numBid] m.numBid n.numBid m.dim n.dim := by
    simp [emitMappedPartitionSchedule, operand, linear]
  refine ⟨[{ leadId with bounds := exactAxisBounds lead.numBid }, bidM, bidN], ?_, ?_, ?_⟩
  · simp [unfolded, emitTrailing, isInner, isLead, isInnerTile, emitLeading, compiled, bind,
      Except.bind, pure, Except.pure]
  · rw [scheduled, inner]
    exact .cons mintsLead.toReads (.cons mintsM.toReads (.cons mintsN.toReads .nil))
  · intro machine
    have holdsM := machine m (by simp)
    have holdsN := machine n (by simp)
    simp only [List.forall_mem_cons, mintsLead.noWrap_iff, mintsM.noWrap_iff, mintsN.noWrap_iff,
      means holdsM holdsN, ScheduleFits, holdsM, holdsN, true_and, List.not_mem_nil,
      false_implies, implies_true, and_true, and_self, and_assoc]
    exact ⟨fun holds => holds.2.2, fun holds => ⟨holds.1, holds.2.1, holds⟩⟩

end Emission

/-! ## Which schedules are emitted -/

/-- A schedule of rank one to three whose leading map dimensions are one. -/
structure Groupable (axes : List ScheduleAxis) : Prop where
  nonempty : axes ≠ []
  rank : axes.length ≤ 3
  leading : ∀ axis ∈ axes.take (axes.length - 2), axis.dim = 1

/-- A single axis cannot be grouped. -/
def Ungrouped (axes : List ScheduleAxis) : Prop :=
  ∀ axis, axes = [axis] → axis.dim = 1

theorem rejected_of_grouped_line {axis : ScheduleAxis} (grouped : axis.dim ≠ 1)
    (tileId : Emitted) :
    emitMappedPartitionSchedule tileId [axis.operand] = .error (.jitError
      s!"rank-1 mapped partition maps must be [1], got [{axis.dim}]") :=
  if_pos grouped

theorem ungrouped_of_emitted {axes : List ScheduleAxis} {tileId : Emitted} {bids : List Emitted}
    (compiled : emitMappedPartitionSchedule tileId (axes.map operand) = .ok bids) :
    Ungrouped axes := by
  rintro axis rfl
  by_contra grouped
  rw [List.map_singleton, rejected_of_grouped_line grouped] at compiled
  cases compiled

theorem schedules_of_groupable {axes : List ScheduleAxis} (groupable : Groupable axes)
    (ungrouped : Ungrouped axes) {environment : Environment} {tileId : Emitted} {tile : Int}
    {isTile : Prop} (tracksTile : Tracks environment tileId tile isTile)
    (counted : ∀ axis ∈ axes, axis.Counted environment)
    (inside : tile ∈ Set.Ico 0 (totalTiles axes)) :
    ∃ bids, emitMappedPartitionSchedule tileId (axes.map operand) = .ok bids ∧
      Schedules environment axes tile isTile bids := by
  have rank := groupable.rank
  match axes with
  | [] => exact absurd rfl groupable.nonempty
  | [axis] =>
    exact schedules_line (ungrouped axis rfl) tracksTile (counted axis (by simp)) inside
  | [m, n] =>
    exact schedules_plane tracksTile (counted m (by simp)) (counted n (by simp)) inside
  | [lead, m, n] =>
    exact schedules_space (groupable.leading lead (by simp)) tracksTile
      (counted lead (by simp)) (counted m (by simp)) (counted n (by simp)) inside
  | _ :: _ :: _ :: _ :: _ => exact absurd rank (by simp)

/-! ## Tile blocks -/

/-- The loop of a tile block: the tile id changes, the counts do not. -/
structure ScheduleRun (axes : List ScheduleAxis) (tileId : SsaValue) where
  environmentAt : Int → Environment
  isTile : ∀ tile, environmentAt tile tileId = tile
  counted : ∀ tile, ∀ axis ∈ axes, axis.Counted (environmentAt tile)

/-- Exactly the schedules of more than one axis, or of an axis that is not grouped, are
emitted. Over the integers their coordinates, for the ids that tile block after tile
block takes in strides of the number of blocks, are those of the box, each met once. -/
theorem mappedSchedule_visits_once (axes : List ScheduleAxis) (groupable : Groupable axes)
    (tileId : SsaValue) (run : ScheduleRun axes tileId) (blocks : Int) (someBlocks : 0 < blocks) :
    ((∃ bids, emitMappedPartitionSchedule (newPrimitive tileId .i32)
        (axes.map ScheduleAxis.operand) = .ok bids) ↔ Ungrouped axes) ∧
      ∀ bids, emitMappedPartitionSchedule (newPrimitive tileId .i32)
          (axes.map ScheduleAxis.operand) = .ok bids →
        ∃ visit : Int → List Int,
          (∀ tile ∈ Set.Ico 0 (totalTiles axes), List.Forall₂ (fun bid coordinate =>
            ∃ code, bid.value = some code ∧
              code.exact (run.environmentAt tile) = some coordinate) bids (visit tile)) ∧
          Set.BijOn (fun turn : Int × Int => visit (turn.1 + turn.2 * blocks))
            (strides blocks (totalTiles axes)) (box (axes.map ScheduleAxis.count)) := by
  have emitted (ungrouped : Ungrouped axes) (tile : Int)
      (inside : tile ∈ Set.Ico 0 (totalTiles axes)) :=
    schedules_of_groupable groupable ungrouped (newPrimitive_tracks tileId)
      (run.counted tile) (by rw [run.isTile tile]; exact inside)
  have accepted : (∃ bids, emitMappedPartitionSchedule (newPrimitive tileId .i32)
      (axes.map operand) = .ok bids) ↔ Ungrouped axes := by
    constructor
    · rintro ⟨bids, compiled⟩
      exact ungrouped_of_emitted compiled
    · intro ungrouped
      rcases emitted ungrouped 0 ⟨le_rfl, totalTiles_pos axes⟩ with ⟨bids, compiled, _⟩
      exact ⟨bids, compiled⟩
  refine ⟨accepted, ?_⟩
  intro bids compiled
  have ungrouped := accepted.mp ⟨bids, compiled⟩
  refine ⟨scheduled axes, ?_, ?_⟩
  · intro tile inside
    rcases emitted ungrouped tile inside with ⟨_, compiled', schedules⟩
    rw [compiled] at compiled'
    cases compiled'
    rw [run.isTile tile] at schedules
    exact schedules.reads.imp fun _ _ reads => reads.code
  · exact (bijOn_scheduled groupable.nonempty).comp
      (bijOn_strides (totalTiles axes) someBlocks)

/-- Three rows of five tiles, in bands of two rows and groups of two columns. -/
def raggedPlane : List ScheduleAxis :=
  [⟨newPrimitive 1 .i32, 3, 2, by decide, by decide, by decide⟩,
    ⟨newPrimitive 2 .i32, 5, 2, by decide, by decide, by decide⟩]

def raggedRun : ScheduleRun raggedPlane 0 where
  environmentAt tile value := if value = 0 then tile else if value = 1 then 3 else 5
  isTile _ := rfl
  counted tile axis member := by
    rcases List.mem_cons.mp member with rfl | member
    · exact newPrimitive_tracks 1
    · rw [List.mem_singleton.mp member]
      exact newPrimitive_tracks 2

theorem mappedSchedule_visits_once_ragged :
    ∃ bids, emitMappedPartitionSchedule (newPrimitive 0 .i32)
        (raggedPlane.map ScheduleAxis.operand) = .ok bids ∧
      ∃ visit : Int → List Int,
        (∀ tile ∈ Set.Ico 0 (totalTiles raggedPlane), List.Forall₂ (fun bid coordinate =>
          ∃ code, bid.value = some code ∧
            code.exact (raggedRun.environmentAt tile) = some coordinate) bids (visit tile)) ∧
        Set.BijOn (fun turn : Int × Int => visit (turn.1 + turn.2 * 4))
          (strides 4 (totalTiles raggedPlane)) (box [3, 5]) := by
  have groupable : Groupable raggedPlane :=
    ⟨List.cons_ne_nil _ _, by decide, fun _ member => absurd member List.not_mem_nil⟩
  rcases mappedSchedule_visits_once raggedPlane groupable 0 raggedRun 4 (by decide)
    with ⟨accepted, visits⟩
  have ungrouped : Ungrouped raggedPlane := by
    intro _ single
    simp [raggedPlane] at single
  rcases accepted.mpr ungrouped with ⟨bids, compiled⟩
  exact ⟨bids, compiled, visits bids compiled⟩

end CuTile
