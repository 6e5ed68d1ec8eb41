import CuTile.Schedule.MappedLoop

/-! # Launches of mapped loops

The host checks the tiles of a mapped partition in `u32`; the kernel multiplies in
`i32`, and by the group sizes of the map as well. This module says for which accepted
launches the loop of the kernel computes what it would over the integers.
-/

namespace CuTile

open Division Traversal IntegerFormat Fallible List

/-! ## Which products fit -/

abbrev i32Max : Int := IntegerFormat.i32.maxValue

/-- The group sizes of the trailing two axes, each a tile count with the dimension of its
map, give `i32` products. -/
def GroupProductsFit (streamed : List (Int × Int)) : Prop :=
  match streamed.drop (streamed.length - 2) with
  | [(numBidM, swizzleM), (numBidN, swizzleN)] =>
    ¬(swizzleM = 1 ∧ swizzleN = 1) →
      swizzleM * numBidN ≤ i32Max ∧
        (swizzleN ≠ 1 → min numBidM swizzleM * swizzleN ≤ i32Max)
  | _ => True

instance (streamed : List (Int × Int)) : Decidable (GroupProductsFit streamed) := by
  unfold GroupProductsFit
  split <;> infer_instance

theorem represents_i32_iff_le {value : Int} (nonneg : 0 ≤ value) :
    i32.Represents value ↔ value ≤ i32Max := by
  have negative : i32.minValue ≤ 0 := by decide
  exact and_iff_right (negative.trans nonneg)

theorem bandRows_zero (rows height columns : Int) :
    bandRows rows height (0 / (height * columns)) = min rows height := by
  rw [Int.zero_ediv, bandRows, zero_mul, sub_zero]

theorem groupsFit_zero_iff (m n : ScheduleAxis) :
    GroupsFit m.count n.count m.dim n.dim 0 ↔
      GroupProductsFit [(m.count, m.dim), (n.count, n.dim)] := by
  have wide : 0 ≤ m.dim * n.count := mul_nonneg m.dimPositive.le n.countPositive.le
  have tall : 0 ≤ min m.count m.dim * n.dim :=
    mul_nonneg (le_min m.countPositive.le m.dimPositive.le) n.dimPositive.le
  rw [GroupsFit, bandRows_zero, represents_i32_iff_le wide, represents_i32_iff_le tall]
  rfl

/-- Products that fit at the first tile fit at every tile. -/
theorem GroupsFit.of_zero {m n : ScheduleAxis} {tile : Int}
    (fits : GroupsFit m.count n.count m.dim n.dim 0)
    (inside : tile ∈ Set.Ico 0 (m.count * n.count)) :
    GroupsFit m.count n.count m.dim n.dim tile := by
  intro grouped
  rcases fits grouped with ⟨wide, tall⟩
  refine ⟨wide, ?_⟩
  intro columns
  have facts := inBand n.countPositive m.dimPositive inside
  have positive := bandRows_pos m.dimPositive facts.firstLt
  have first := mul_nonneg facts.bandNonneg m.dimPositive.le
  have bounds := bandRows_le m.count m.dim (tile / (m.dim * n.count))
  have shorter : bandRows m.count m.dim (tile / (m.dim * n.count)) ≤ min m.count m.dim :=
    le_min (by omega) bounds.1
  have represents := tall columns
  rw [bandRows_zero] at represents
  exact represents_i32_of_le (mul_nonneg positive.le n.dimPositive.le)
    (mul_le_mul_of_nonneg_right shorter n.dimPositive.le) represents

theorem totalTiles_eq (axes : List ScheduleAxis) :
    totalTiles axes = ((axes.map ScheduleAxis.sizes).map Prod.fst).prod := by
  rw [map_map]
  rfl

/-- At the first tile, a schedule whose tiles fit computes only the group products
besides. -/
theorem scheduleFits_zero_iff {axes : List ScheduleAxis} (groupable : Groupable axes)
    (total : i32.Represents (totalTiles axes)) :
    ScheduleFits axes 0 ↔ GroupProductsFit (axes.map ScheduleAxis.sizes) := by
  have rank := groupable.rank
  match axes with
  | [] => exact absurd rfl groupable.nonempty
  | [_] => exact Iff.rfl
  | [m, n] => exact groupsFit_zero_iff m n
  | [lead, m, n] =>
    have size : totalTiles [lead, m, n] = lead.count * (m.count * n.count) := by
      simp [totalTiles]
    have positive : 0 < m.count * n.count := mul_pos m.countPositive n.countPositive
    have inner : i32.Represents (m.count * n.count) := by
      rw [size] at total
      exact represents_i32_of_le positive.le
        (le_mul_of_one_le_left positive.le lead.countPositive) total
    rw [ScheduleFits, Int.zero_emod, and_iff_right inner, groupsFit_zero_iff]
    rfl
  | _ :: _ :: _ :: _ :: _ => exact absurd rank (by simp)

theorem ScheduleFits.of_zero {axes : List ScheduleAxis} {tile : Int}
    (fits : ScheduleFits axes 0) (inside : tile ∈ Set.Ico 0 (totalTiles axes)) :
    ScheduleFits axes tile := by
  match axes with
  | [] | [_] => trivial
  | [m, n] =>
    have size : totalTiles [m, n] = m.count * n.count := by simp [totalTiles]
    rw [size] at inside
    exact GroupsFit.of_zero fits inside
  | [_, m, n] =>
    have positive : 0 < m.count * n.count := mul_pos m.countPositive n.countPositive
    rw [ScheduleFits, Int.zero_emod] at fits
    exact ⟨fits.1, GroupsFit.of_zero fits.2
      ⟨Int.emod_nonneg _ positive.ne', Int.emod_lt_of_pos _ positive⟩⟩
  | _ :: _ :: _ :: _ :: _ => trivial

/-! ## Exact loops -/

/-- The loop of every block computes over `i32` what it would over the integers: its
bound, the tile ids below the bound that it reaches in strides of the number of blocks,
and their coordinates. -/
structure MappedLoop.Exact (loop : MappedLoop) (shifts : ShiftSemantics)
    (environmentAt : Int → Environment) (blocks : Int) : Prop where
  totalTiles : ∀ tile, loop.totalTiles.Exact shifts (environmentAt tile)
  tiles : ∀ block round bound, 0 ≤ block → block < blocks → 0 ≤ round →
    loop.totalTiles.Computes shifts (environmentAt (block + round * blocks)) bound →
    block + round * blocks < bound →
      IntegerFormat.i32.Represents (block + round * blocks) ∧
        ∀ bid ∈ loop.bids, bid.Exact shifts (environmentAt (block + round * blocks))

/-! ## Launches -/

/-- A mapped partition of a tensor that the host accepts. -/
structure MappedLaunch where
  shape : List Int
  partitionShape : List Nat
  partition : MappedLaunchPartition
  grid : Grid
  machine : ∀ extent ∈ shape, IntegerFormat.i32.Represents extent
  launched : partitionLaunchGrid shape partitionShape = .ok grid
  valid : partition.validate grid partition.numTileBlocks = .ok (partition.numTileBlocks, 1, 1)

namespace MappedLaunch

def tileCounts (launch : MappedLaunch) : List Int :=
  List.zipWith (fun (extent : Int) (slab : Nat) => ceilQuotient extent slab) launch.shape
    launch.partitionShape

/-- The axes that the kernel streams, each a tile count with the dimension of its map. -/
def streamed (launch : MappedLaunch) : List (Int × Int) :=
  streamedAxes (launch.tileCounts.zip launch.partition.mapShapeAsI32)

/-- The loop of a kernel that is specialised to the launch. The tensor is mutable, so that
its extents are dynamic. -/
def compile (launch : MappedLaunch) (indexSpace tileId : SsaValue) :
    Except Failure MappedLoop :=
  compileMappedLoop indexSpace tileId (launch.shape.map fun _ => -1)
    (launch.partitionShape.map fun (slab : Nat) => IntegerFormat.i32.wrap slab)
    launch.partition.mapShapeAsI32

/-- No product of tile counts or group sizes exceeds the largest `i32`. -/
def ProductsFit (launch : MappedLaunch) : Prop :=
  (launch.streamed.map Prod.fst).prod ≤ i32Max ∧ GroupProductsFit launch.streamed

instance (launch : MappedLaunch) : Decidable launch.ProductsFit :=
  inferInstanceAs (Decidable (_ ∧ _))

theorem tileCounts_mem (launch : MappedLaunch) :
    ∀ count ∈ launch.tileCounts, 0 < count ∧ i32.Represents count := by
  rcases partitionLaunchGrid_positive launch.launched with ⟨extents, _, slabs⟩
  intro _ member
  rcases mem_iff_getElem?.mp member with ⟨_, isCount⟩
  rcases getElem?_zipWith_eq_some.mp isCount with ⟨extent, slab, isExtent, isSlab, rfl⟩
  have extentPositive := extents extent (mem_of_getElem? isExtent)
  have slabPositive : 0 < (slab : Int) :=
    Int.natCast_pos.mpr (slabs slab (mem_of_getElem? isSlab))
  have countPositive : 0 < ceilQuotient extent slab := by
    rw [lt_ceilQuotient_iff slabPositive, zero_mul]
    exact extentPositive
  exact ⟨countPositive, represents_i32_of_le countPositive.le
    (ceilQuotient_le_self extentPositive.le slabPositive)
    (launch.machine extent (mem_of_getElem? isExtent))⟩

theorem tileCounts_length (launch : MappedLaunch) :
    launch.tileCounts.length = launch.shape.length := by
  have ranks := (partitionLaunchGrid_positive launch.launched).2.1
  rw [tileCounts, length_zipWith, ranks, min_self]

end MappedLaunch

/-- Inside the loop the tile id changes; the kernel reads its tile counts once. -/
structure MappedRun (launch : MappedLaunch) (indexSpace tileId : SsaValue) where
  environmentAt : Int → Environment
  isTile : ∀ tile, environmentAt tile tileId = tile
  isCount : ∀ tile axis count, launch.tileCounts[axis]? = some count →
    environmentAt tile (indexSpace + axis) = count

/-- A compiled loop in terms of the schedule of its streamed axes. -/
structure LoopSchedule (shifts : ShiftSemantics) (environmentAt : Int → Environment)
    (loop : MappedLoop) (axes : List ScheduleAxis) : Prop where
  groupable : Groupable axes
  bound : ∀ tile, Tracks (environmentAt tile) loop.totalTiles (totalTiles axes)
    (IntegerFormat.i32.Represents (totalTiles axes))
  bids : ∀ tile ∈ Set.Ico 0 (totalTiles axes),
    (∀ bid ∈ loop.bids, bid.Exact shifts (environmentAt tile)) ↔
      IntegerFormat.i32.Represents tile ∧ ScheduleFits axes tile

namespace MappedLaunch

variable {launch : MappedLaunch} {indexSpace tileId : SsaValue} {loop : MappedLoop}

/-- The streamed axes are as many as the map has dimensions that are not owned. -/
theorem streamed_length
    (ranks : launch.partitionShape.length = launch.partition.mapShapeAsI32.length) :
    launch.streamed.length = (launch.partition.mapShapeAsI32.filter (· ≠ 0)).length := by
  have partitionRank := (partitionLaunchGrid_positive launch.launched).2.1
  have mapRank : launch.partition.mapShapeAsI32.length ≤ launch.tileCounts.length := by
    rw [← ranks, partitionRank, launch.tileCounts_length]
  rw [← streamedAxes_dims mapRank, length_map]
  rfl

/-- An emitted schedule of the streamed axes is one that can be grouped. -/
theorem groupable_of_emitted {axes : List ScheduleAxis} {tileId : Emitted} {bids : List Emitted}
    {dim : Int} (isDim : dim ∈ launch.partition.mapShapeAsI32) (streams : dim ≠ 0)
    (ranks : launch.partitionShape.length = launch.partition.mapShapeAsI32.length)
    (sizes : axes.map ScheduleAxis.sizes = launch.streamed)
    (isBids : emitMappedPartitionSchedule tileId (axes.map ScheduleAxis.operand) = .ok bids) :
    Groupable axes := by
  have rank : axes.length = (launch.partition.mapShapeAsI32.filter (· ≠ 0)).length := by
    rw [← streamed_length ranks, ← sizes, length_map]
  refine ⟨?_, ?_, leading_of_emitted isBids⟩
  · rw [← length_pos_iff, rank, length_pos_iff]
    exact ne_nil_of_mem (mem_filter.mpr ⟨isDim, decide_eq_true streams⟩)
  · calc axes.length
        = (launch.partition.mapShapeAsI32.filter (· ≠ 0)).length := rank
      _ ≤ launch.partition.mapShapeAsI32.length := length_filter_le _ _
      _ = launch.partition.mapShape.length := length_map _
      _ ≤ 3 := (MappedLaunchPartition.validate_spec launch.valid).1

theorem machine_of_streamed {axes : List ScheduleAxis}
    (sizes : axes.map ScheduleAxis.sizes = launch.streamed) :
    ∀ axis ∈ axes, i32.Represents axis.count := by
  intro axis member
  have isSize : axis.sizes ∈ launch.streamed := by
    rw [← sizes]
    exact mem_map_of_mem member
  have isCount := (of_mem_zip (mem_filter.mp isSize).1).1
  exact (launch.tileCounts_mem axis.count isCount).2

theorem counts_tracked (run : MappedRun launch indexSpace tileId) {values : List Emitted}
    (isValues : compileIndexSpaceShapeValues indexSpace 0 (launch.shape.map fun _ => -1)
      (launch.partitionShape.map fun (slab : Nat) => i32.wrap slab) = .ok values) :
    Forall₂ (fun value count => ∀ tile, Tracks (run.environmentAt tile) value count
      (i32.Represents count)) values launch.tileCounts := by
  have partitionRank := (partitionLaunchGrid_positive launch.launched).2.1
  have countsRank := launch.tileCounts_length
  apply compileIndexSpaceShapeValues_tracks isValues
  · simp
  · rw [length_map, countsRank]
  · rw [length_map, countsRank, partitionRank]
  · intro tile axis count isCount
    rw [zero_add]
    exact run.isCount tile axis count isCount

/-- The coordinates of a tile are exact when the products of its schedule fit. -/
theorem placed_exact_iff (shifts : ShiftSemantics) (run : MappedRun launch indexSpace tileId)
    {axes : List ScheduleAxis} {streamedBids placed : List Emitted}
    (groupable : Groupable axes)
    (counted : ∀ axis ∈ axes, ∀ tile, axis.Counted (run.environmentAt tile))
    (isBids : emitMappedPartitionSchedule (newPrimitive tileId .i32)
      (axes.map ScheduleAxis.operand) = .ok streamedBids)
    (isPlaced : placeCoordinates launch.partition.mapShapeAsI32 streamedBids = .ok placed)
    (ranks : launch.partitionShape.length = launch.partition.mapShapeAsI32.length)
    (sizes : axes.map ScheduleAxis.sizes = launch.streamed) {tile : Int}
    (inside : tile ∈ Set.Ico 0 (totalTiles axes)) :
    (∀ bid ∈ placed, bid.Exact shifts (run.environmentAt tile)) ↔
      i32.Represents tile ∧ ScheduleFits axes tile := by
  have tracksTile : Tracks (run.environmentAt tile) (newPrimitive tileId .i32) _ _ :=
    newPrimitive_tracks tileId
  rw [run.isTile tile] at tracksTile
  rcases schedules_of_groupable groupable (ungrouped_of_emitted isBids) tracksTile
    (fun axis member => counted axis member tile) inside with ⟨_, isBids', schedules⟩
  rw [isBids] at isBids'
  cases isBids'
  have point := (bijOn_scheduled groupable.nonempty).mapsTo inside
  have enough :
      streamedBids.length ≤ (launch.partition.mapShapeAsI32.filter (· ≠ 0)).length := by
    rw [schedules.reads.length_eq, point.length_eq, ← streamed_length ranks, ← sizes,
      length_map, length_map]
  rw [placeCoordinates_exact_iff shifts isPlaced enough schedules.reads]
  exact schedules.noWrap_iff (machine_of_streamed sizes)

/-- The kernel of an accepted launch runs the schedule of the streamed axes. -/
theorem loopSchedule (shifts : ShiftSemantics)
    (compiled : launch.compile indexSpace tileId = .ok loop)
    (run : MappedRun launch indexSpace tileId) :
    ∃ axes : List ScheduleAxis, axes.map ScheduleAxis.sizes = launch.streamed ∧
      LoopSchedule shifts run.environmentAt loop axes := by
  rcases bind_eq_ok_iff.mp compiled with ⟨_, checked, compiled⟩
  rcases bind_eq_ok_iff.mp compiled with ⟨_, isValues, compiled⟩
  rcases bind_eq_ok_iff.mp compiled with ⟨_, isTotal, compiled⟩
  rcases bind_eq_ok_iff.mp compiled with ⟨_, isBids, compiled⟩
  rcases bind_eq_ok_iff.mp compiled with ⟨_, isPlaced, compiled⟩
  cases compiled
  rcases checkMapShape_spec checked with ⟨ranks, nonneg, dim, isDim, streams⟩
  rw [length_map] at ranks
  have dims (dim : Int) (member : dim ∈ launch.partition.mapShapeAsI32) :
      0 ≤ dim ∧ i32.Represents dim := by
    rcases mem_map.mp member with ⟨_, _, rfl⟩
    exact ⟨nonneg _ member, wrap_represents _ _⟩
  rcases exists_scheduleAxes (counts_tracked run isValues)
    (fun count member => (launch.tileCounts_mem count member).1) dims
    with ⟨axes, operands, sizes, counted⟩
  replace sizes : axes.map ScheduleAxis.sizes = launch.streamed := sizes
  rw [← operands] at isTotal isBids
  have groupable := groupable_of_emitted isDim streams ranks sizes isBids
  refine ⟨axes, sizes, groupable, ?_, ?_⟩
  · intro tile
    rcases emitTotalTiles_produces groupable.nonempty fun axis member => counted axis member tile
      with ⟨_, isTotal', tracks⟩
    rw [isTotal] at isTotal'
    cases isTotal'
    exact tracks
  · intro tile inside
    exact placed_exact_iff shifts run groupable counted isBids isPlaced ranks sizes inside

end MappedLaunch

/-- The loop of an accepted launch is exact if and only if the tiles and the products of
the group sizes are `i32` values. The host makes sure only that the tiles are `u32`. -/
theorem mappedLoop_exact_iff (shifts : ShiftSemantics) {launch : MappedLaunch}
    {indexSpace tileId : SsaValue} {loop : MappedLoop}
    (compiled : launch.compile indexSpace tileId = .ok loop)
    (run : MappedRun launch indexSpace tileId) :
    loop.Exact shifts run.environmentAt launch.partition.numTileBlocks ↔ launch.ProductsFit := by
  rcases launch.loopSchedule shifts compiled run with ⟨axes, sizes, schedule⟩
  have positive := totalTiles_pos axes
  have blocks : 0 < (launch.partition.numTileBlocks : Int) :=
    Int.natCast_pos.mpr (MappedLaunchPartition.validate_spec launch.valid).2
  have total : i32.Represents (totalTiles axes) ↔
      (launch.streamed.map Prod.fst).prod ≤ i32Max := by
    rw [represents_i32_iff_le positive.le, totalTiles_eq, sizes]
  rw [MappedLaunch.ProductsFit, ← total, ← sizes]
  constructor
  · intro exact
    have bound := schedule.bound (0 + 0 * launch.partition.numTileBlocks)
    have represents := bound.noWrap_iff.mp (exact.totalTiles _).noWrap
    refine ⟨represents, ?_⟩
    -- block zero reaches tile zero in its first round
    have first := exact.tiles 0 0 (totalTiles axes) le_rfl blocks le_rfl
      (bound.machine shifts represents).1 (by simpa using positive)
    rw [zero_mul, zero_add] at first
    have fits := (schedule.bids 0 ⟨le_rfl, positive⟩).mp first.2
    exact (scheduleFits_zero_iff schedule.groupable represents).mp fits.2
  · rintro ⟨represents, groups⟩
    have fits := (scheduleFits_zero_iff schedule.groupable represents).mpr groups
    refine ⟨?_, ?_⟩
    · intro tile
      have bound := schedule.bound tile
      exact (bound.exact_iff shifts).mpr (bound.noWrap_iff.mpr represents)
    · intro block round value nonneg _ rounds computes below
      have bound := schedule.bound (block + round * launch.partition.numTileBlocks)
      have isValue := (bound.machine shifts represents).1.unique computes
      have inside : block + round * launch.partition.numTileBlocks ∈
          Set.Ico 0 (totalTiles axes) :=
        ⟨add_nonneg nonneg (mul_nonneg rounds blocks.le), isValue ▸ below⟩
      have machine : i32.Represents
          (block + round * launch.partition.numTileBlocks) :=
        represents_i32_of_le inside.1 inside.2.le represents
      exact ⟨machine, (schedule.bids _ inside).mpr ⟨machine, fits.of_zero inside⟩⟩

/-- A run with the tile id in the first value and the tile counts in the next ones. -/
def MappedLaunch.run (launch : MappedLaunch) : MappedRun launch 1 0 where
  environmentAt tile
    | 0 => tile
    | axis + 1 => launch.tileCounts.getD axis 0
  isTile _ := rfl
  isCount tile axis count isCount := by
    rw [Nat.add_comm]
    simp [List.getD, isCount]

/-- Three rows of five tiles, in bands of two rows and groups of two columns. -/
def raggedLaunch : MappedLaunch where
  shape := [6, 10]
  partitionShape := [2, 2]
  partition := ⟨[2, 2], 4⟩
  grid := (3, 5, 1)
  machine := by decide
  launched := rfl
  valid := rfl

theorem mappedLoop_exact_iff_ragged :
    raggedLaunch.ProductsFit ∧ ∃ loop, raggedLaunch.compile 1 0 = .ok loop ∧
      loop.Exact (fun _ _ _ _ => 0) raggedLaunch.run.environmentAt 4 := by
  have fit : raggedLaunch.ProductsFit := by decide
  refine ⟨fit, _, rfl, ?_⟩
  exact (mappedLoop_exact_iff _ rfl raggedLaunch.run).mpr fit

/-- More tiles than there are positive `i32` values, but not more than `u32` values. -/
def overfullLaunch : MappedLaunch where
  shape := [46341, 46341]
  partitionShape := [1, 1]
  partition := ⟨[1, 1], 1⟩
  grid := (46341, 46341, 1)
  machine := by decide
  launched := rfl
  valid := rfl

/-- The bound of the loop wraps to a negative number, and no tile is visited. -/
theorem mappedLoop_bound_wraps :
    overfullLaunch.partition.validate overfullLaunch.grid 1 = .ok (1, 1, 1) ∧
    ∃ loop, overfullLaunch.compile 1 0 = .ok loop ∧ ∀ shifts,
      ¬loop.Exact shifts overfullLaunch.run.environmentAt 1 ∧
      ∀ tile, loop.totalTiles.Computes shifts (overfullLaunch.run.environmentAt tile)
        (-2147479015) := by
  refine ⟨rfl, _, rfl, ?_⟩
  intro shifts
  refine ⟨?_, fun tile => ⟨_, rfl, rfl⟩⟩
  intro exact
  rcases overfullLaunch.loopSchedule shifts rfl overfullLaunch.run with ⟨_, sizes, schedule⟩
  have represents := (schedule.bound 0).noWrap_iff.mp (exact.totalTiles 0).noWrap
  rw [totalTiles_eq, sizes] at represents
  exact absurd represents (by decide)

end CuTile
