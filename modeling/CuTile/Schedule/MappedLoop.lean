import CuTile.Schedule.MappedSchedule
import CuTile.Tensor.LaunchGrid

/-! # Mapped loops

The host accepts a mapped partition and says how many tile blocks run; each block then
loops over flat tile ids in `i32`. This module models both sides and says when the
arithmetic of the loop is exact.
-/

namespace CuTile

open Traversal IntegerFormat Fallible List

/-! ## The host -/

/-- A mapped partition as a launch argument. A dimension of zero marks an owned axis. -/
structure MappedLaunchPartition where
  mapShape : List Nat
  numTileBlocks : Nat

namespace MappedLaunchPartition

def mapShapeAsI32 (partition : MappedLaunchPartition) : List Int :=
  partition.mapShape.map fun (dim : Nat) => IntegerFormat.i32.wrap dim

/-- The tiles that are streamed, in `u32`. -/
def streamedTiles (gridAxes : List Int) (mapShape : List Nat) : Option Int :=
  (((gridAxes.zip mapShape).filter (·.2 ≠ 0)).map Prod.fst).foldlM
    (fun total axis => IntegerFormat.u32.checked (total * axis)) 1

def validate (partition : MappedLaunchPartition) (partitionGrid : Grid)
    (numTileBlocks : Nat) : Except String (Nat × Nat × Nat) :=
  let mapRank := partition.mapShape.length
  let gridAxes := [partitionGrid.1, partitionGrid.2.1, partitionGrid.2.2]
  if mapRank = 0 ∨ 3 < mapRank then
    .error "mapped partitions require a rank-1 through rank-3 map shape."
  else if partition.mapShape.all (· == 0) then
    .error "mapped partition requires at least one streamed (non-OWNED) map axis."
  else if (gridAxes.take mapRank).any (· == 0) then
    .error "mapped partition requires a non-empty logical partition grid."
  else if (gridAxes.drop mapRank).any (· != 1) then
    .error "mapped partition map rank must match the logical partition grid rank."
  else
    match streamedTiles gridAxes partition.mapShape with
    | none => .error "mapped partition logical grid is too large"
    | some streamed =>
      if numTileBlocks = 0 then
        .error "mapped partition requires num_tile_blocks > 0."
      else if streamed < numTileBlocks then
        .error ("mapped partition num_tile_blocks cannot exceed the streamed logical "
          ++ "tile count.")
      else .ok (numTileBlocks, 1, 1)

theorem validate_spec {partition : MappedLaunchPartition} {grid : Grid} {numTileBlocks : Nat}
    {launch : Nat × Nat × Nat} (ok : partition.validate grid numTileBlocks = .ok launch) :
    partition.mapShape.length ≤ 3 ∧ 0 < numTileBlocks := by
  cases found : streamedTiles [grid.1, grid.2.1, grid.2.2] partition.mapShape with
  | none =>
    simp only [validate, found] at ok
    split_ifs at ok
  | some =>
    simp only [validate, found] at ok
    split_ifs at ok with ranks owned empty rank idle
    exact ⟨not_lt.mp (not_or.mp ranks).2, Nat.pos_of_ne_zero idle⟩

end MappedLaunchPartition

/-! ## The kernel -/

/-- The tile count of an axis, known when the extent of the tensor is. -/
def indexSpaceValue (handle : SsaValue) (axis : Nat) (parentDim tileDim : Int) :
    Except Failure Emitted :=
  if tileDim ≤ 0 then
    .error (.jitError s!"`iter_indices()` axis {axis} has invalid tile dimension {tileDim}")
  else if 0 ≤ parentDim then
    .ok { newPrimitive handle .i32 with
      bounds := some (.exact ((parentDim + tileDim - 1).tdiv tileDim)) }
  else .ok (newPrimitive handle .i32)

/-- The tile counts of a partition, as consecutive values. Logical axes are those of the
parent tensor. -/
def compileIndexSpaceShapeValues (first : SsaValue) :
    Nat → List Int → List Int → Except Failure (List Emitted)
  | axis, parentDim :: parentShape, tileDim :: tileShape => do
    let value ← indexSpaceValue (first + axis) axis parentDim tileDim
    let rest ← compileIndexSpaceShapeValues first (axis + 1) parentShape tileShape
    return value :: rest
  | _, _, [] => .ok []
  | axis, [], _ :: _ =>
    .error (.jitError (s!"`iter_indices()` axis {axis} maps to parent axis {axis}, but "
      ++ s!"parent tensor rank is {axis}"))

def maxMappedPartitionRank : Nat := 6

def checkMapShape (tileShape mapShape : List Int) : Except Failure Unit :=
  if tileShape.length ≠ mapShape.length then
    .error (.jitError ("`iter_indices()` requires matching tile and map ranks, got tile rank "
      ++ s!"{tileShape.length} and map rank {mapShape.length}"))
  else if tileShape.isEmpty ∨ maxMappedPartitionRank < tileShape.length then
    .error (.jitError ("`iter_indices()` supports rank-1 through "
      ++ s!"rank-{maxMappedPartitionRank} MappedPartitionMut values, "
      ++ s!"got rank {tileShape.length}"))
  else
    match mapShape.zipIdx.find? (·.1 < 0) with
    | some (dim, axis) =>
      .error (.jitError ("mapped partition map dimensions must be OWNED (0) or positive: "
        ++ s!"axis {axis} is {dim}"))
    | none =>
      if mapShape.all (· == 0) then
        .error (.jitError ("mapped partition requires at least one streamed (non-OWNED) "
          ++ "map axis"))
      else .ok ()

variable {mapShape : List Int}

theorem checkMapShape_spec {tileShape : List Int} {result : Unit}
    (ok : checkMapShape tileShape mapShape = .ok result) :
    tileShape.length = mapShape.length ∧ (∀ dim ∈ mapShape, 0 ≤ dim) ∧
      ∃ dim ∈ mapShape, dim ≠ 0 := by
  cases found : mapShape.zipIdx.find? (·.1 < 0) with
  | some negative =>
    simp only [checkMapShape, found] at ok
    split_ifs at ok
  | none =>
    simp only [checkMapShape, found] at ok
    split_ifs at ok with ranks rank allOwned
    refine ⟨not_not.mp ranks, ?_, by simpa using allOwned⟩
    intro dim member
    rcases mem_iff_getElem?.mp member with ⟨axis, isDim⟩
    have nonneg := find?_eq_none.mp found (dim, axis)
      (mk_mem_zipIdx_iff_getElem?.mpr isDim)
    by_contra negative
    exact nonneg (decide_eq_true (not_le.mp negative))

def streamedAxes (axes : List (α × Int)) : List (α × Int) := axes.filter (·.2 ≠ 0)

/-- The product of the streamed tile counts, of which there is at least one. -/
def emitTotalTiles : List (Emitted × Int) → Except Failure Emitted
  | [] => compileConstant 1
  | axis :: rest => rest.foldlM (fun total next => emitOp .mul total next.1) axis.1

/-- Owned axes have coordinate zero. -/
def placeCoordinates : List Int → List Emitted → Except Failure (List Emitted)
  | [], _ => .ok []
  | 0 :: mapShape, bids => do
    let zero ← compileConstant 0
    return zero :: (← placeCoordinates mapShape bids)
  | _ :: mapShape, bid :: bids => do return bid :: (← placeCoordinates mapShape bids)
  | _ :: _, [] =>
    .error (.jitError
      "mapped partition schedule produced too few streamed coordinates")

/-- The persistent loop of a kernel: its upper bound, and the coordinates of the tile id
it counts. Each block starts at its own id and steps by the number of blocks. -/
structure MappedLoop where
  totalTiles : Emitted
  bids : List Emitted

def compileMappedLoop (indexSpace tileId : SsaValue)
    (parentShape tileShape mapShape : List Int) : Except Failure MappedLoop := do
  checkMapShape tileShape mapShape
  let counts ← compileIndexSpaceShapeValues indexSpace 0 parentShape tileShape
  let streamed := streamedAxes (counts.zip mapShape)
  let totalTiles ← emitTotalTiles streamed
  let streamedBids ← emitMappedPartitionSchedule (newPrimitive tileId .i32) streamed
  let bids ← placeCoordinates mapShape streamedBids
  return ⟨totalTiles, bids⟩

/-! ## The bound of the loop -/

section Bound

variable {environment : Environment}

/-- Counts are at least one, so that a product that fits has factors that fit. -/
theorem represents_factors {total count : Int} (totalPositive : 0 < total)
    (countPositive : 0 < count) :
    i32.Represents total ∧ i32.Represents count ∧
        i32.Represents (total * count) ↔
      i32.Represents (total * count) := by
  have first : total ≤ total * count := le_mul_of_one_le_right totalPositive.le countPositive
  have second : count ≤ total * count := le_mul_of_one_le_left countPositive.le totalPositive
  constructor
  · exact fun holds => holds.2.2
  · intro holds
    exact ⟨represents_i32_of_le totalPositive.le first holds,
      represents_i32_of_le countPositive.le second holds, holds⟩

theorem emitProduct_produces {axes : List ScheduleAxis} {total : Emitted} {value : Int}
    (tracksTotal : Tracks environment total value (i32.Represents value))
    (positive : 0 < value) (counted : ∀ axis ∈ axes, axis.Counted environment) :
    Produces environment ((axes.map ScheduleAxis.operand).foldlM
        (fun total next => emitOp .mul total next.1) total)
      (value * totalTiles axes) (i32.Represents (value * totalTiles axes)) := by
  induction axes generalizing total value with
  | nil =>
    have same : value * totalTiles [] = value := mul_one value
    rw [same]
    exact ⟨total, rfl, tracksTotal⟩
  | cons axis rest induction =>
    rcases emitOp_produces .mul tracksTotal (counted axis mem_cons_self) nofun rfl rfl
      (represents_factors positive axis.countPositive) with ⟨next, isNext, tracksNext⟩
    have same : value * totalTiles (axis :: rest) = value * axis.count * totalTiles rest :=
      (mul_assoc _ _ _).symm
    rw [same, map_cons, foldlM_cons]
    have rest := induction tracksNext (mul_pos positive axis.countPositive)
      fun other member => counted other (mem_cons_of_mem _ member)
    simpa only [ScheduleAxis.operand, isNext, bind, Except.bind] using rest

/-- The bound wraps exactly when the number of tiles is no `i32`. -/
theorem emitTotalTiles_produces {axes : List ScheduleAxis} (nonempty : axes ≠ [])
    (counted : ∀ axis ∈ axes, axis.Counted environment) :
    Produces environment (emitTotalTiles (axes.map ScheduleAxis.operand)) (totalTiles axes)
      (i32.Represents (totalTiles axes)) := by
  cases axes with
  | nil => exact absurd rfl nonempty
  | cons axis =>
    exact emitProduct_produces (counted axis mem_cons_self) axis.countPositive
      fun other member => counted other (mem_cons_of_mem _ member)

end Bound

/-! ## Tile counts -/

/-- The extents of a mutable tensor are dynamic, so its tile counts are plain scalars. -/
theorem compileIndexSpaceShapeValues_tracks {environmentAt : Int → Environment}
    {first : SsaValue} {axis : Nat} {parentShape tileShape counts : List Int}
    {values : List Emitted}
    (compiled : compileIndexSpaceShapeValues first axis parentShape tileShape = .ok values)
    (dynamic : ∀ parentDim ∈ parentShape, parentDim < 0)
    (parents : parentShape.length = counts.length) (tiles : tileShape.length = counts.length)
    (isCount : ∀ tile position count, counts[position]? = some count →
      environmentAt tile (first + (axis + position)) = count) :
    Forall₂ (fun value count => ∀ tile, Tracks (environmentAt tile) value count
      (i32.Represents count)) values counts := by
  induction counts generalizing axis parentShape tileShape values with
  | nil =>
    rw [length_eq_zero_iff.mp parents, length_eq_zero_iff.mp tiles] at compiled
    cases compiled
    exact .nil
  | cons count counts induction =>
    match parentShape, tileShape, parents, tiles with
    | parentDim :: parentShape, tileDim :: tileShape, parents, tiles =>
      rcases bind_eq_ok_iff.mp compiled with ⟨value, isValue, compiled⟩
      rcases bind_eq_ok_iff.mp compiled with ⟨rest, isRest, compiled⟩
      cases compiled
      constructor
      · intro tile
        have negative := dynamic parentDim mem_cons_self
        unfold indexSpaceValue at isValue
        rw [if_neg (show ¬0 ≤ parentDim by omega)] at isValue
        split_ifs at isValue
        cases isValue
        have here : environmentAt tile (first + axis) = count := isCount tile 0 count rfl
        have tracks : Tracks (environmentAt tile) (newPrimitive (first + axis) .i32) _ _ :=
          newPrimitive_tracks (first + axis)
        simpa only [here] using tracks
      · apply induction isRest
        · exact fun dim member => dynamic dim (mem_cons_of_mem _ member)
        · exact Nat.succ.inj parents
        · exact Nat.succ.inj tiles
        · intro tile position count isCountAt
          have there := isCount tile (position + 1) count isCountAt
          rw [← there]
          congr 2
          omega

/-- Streaming keeps the dimensions that are not owned. -/
theorem streamedAxes_dims {counts : List α} (ranks : mapShape.length ≤ counts.length) :
    (streamedAxes (counts.zip mapShape)).map Prod.snd = mapShape.filter (· ≠ 0) := by
  conv_rhs => rw [← map_snd_zip ranks, filter_map]
  rfl

def ScheduleAxis.sizes (axis : ScheduleAxis) : Int × Int := (axis.count, axis.dim)

/-- The streamed axes of a map, with what is known about their counts. -/
theorem exists_scheduleAxes {Counts : Emitted → Int → Prop} {values : List Emitted}
    {counts : List Int} (counted : Forall₂ Counts values counts)
    (positive : ∀ count ∈ counts, 0 < count)
    (dims : ∀ dim ∈ mapShape, 0 ≤ dim ∧ i32.Represents dim) :
    ∃ axes : List ScheduleAxis,
      axes.map ScheduleAxis.operand = streamedAxes (values.zip mapShape) ∧
      axes.map ScheduleAxis.sizes = streamedAxes (counts.zip mapShape) ∧
      ∀ axis ∈ axes, Counts axis.numBid axis.count := by
  induction counted generalizing mapShape with
  | nil => exact ⟨[], rfl, rfl, fun _ member => absurd member not_mem_nil⟩
  | @cons value count _ _ holds _ induction =>
    cases mapShape with
    | nil => exact ⟨[], rfl, rfl, fun _ member => absurd member not_mem_nil⟩
    | cons dim =>
      rcases induction (fun other member => positive other (mem_cons_of_mem _ member))
          (fun other member => dims other (mem_cons_of_mem _ member))
        with ⟨axes, operands, sizes, counted⟩
      by_cases owned : dim = 0
      · refine ⟨axes, ?_, ?_, counted⟩
        · simpa [streamedAxes, owned] using operands
        · simpa [streamedAxes, owned] using sizes
      · have range := dims dim mem_cons_self
        let axis : ScheduleAxis := ⟨value, count, dim, positive count mem_cons_self,
          lt_of_le_of_ne range.1 (Ne.symm owned), range.2⟩
        refine ⟨axis :: axes, ?_, ?_, forall_mem_cons.mpr ⟨holds, counted⟩⟩
        · simpa [streamedAxes, owned, axis, ScheduleAxis.operand] using operands
        · simpa [streamedAxes, owned, axis, ScheduleAxis.sizes] using sizes

/-! ## Placement -/

variable {bids placed : List Emitted}

theorem placeCoordinates_mem (compiled : placeCoordinates mapShape bids = .ok placed) :
    ∀ bid ∈ placed, bid ∈ bids ∨ compileConstant 0 = .ok bid := by
  induction mapShape generalizing bids placed with
  | nil =>
    cases compiled
    exact fun _ member => absurd member not_mem_nil
  | cons dim _ induction =>
    by_cases owned : dim = 0
    · rw [owned] at compiled
      rcases bind_eq_ok_iff.mp compiled with ⟨_, isZero, compiled⟩
      rcases bind_eq_ok_iff.mp compiled with ⟨rest, isRest, compiled⟩
      cases compiled
      exact forall_mem_cons.mpr ⟨.inr isZero, induction isRest⟩
    · cases bids with
      | nil => simp [placeCoordinates] at compiled
      | cons =>
        rw [placeCoordinates.eq_3 _ _ _ _ owned] at compiled
        rcases bind_eq_ok_iff.mp compiled with ⟨rest, isRest, compiled⟩
        cases compiled
        refine forall_mem_cons.mpr ⟨.inl mem_cons_self, ?_⟩
        exact fun other member =>
          (induction isRest other member).imp_left (mem_cons_of_mem _)

/-- No coordinate is dropped while there are streamed axes for them. -/
theorem placeCoordinates_subset (compiled : placeCoordinates mapShape bids = .ok placed)
    (enough : bids.length ≤ (mapShape.filter (· ≠ 0)).length) : ∀ bid ∈ bids, bid ∈ placed := by
  induction mapShape generalizing bids placed with
  | nil =>
    rw [length_eq_zero_iff.mp (Nat.le_zero.mp enough)]
    exact fun _ member => absurd member not_mem_nil
  | cons dim mapShape induction =>
    by_cases owned : dim = 0
    · rw [owned] at compiled enough
      rcases bind_eq_ok_iff.mp compiled with ⟨_, _, compiled⟩
      rcases bind_eq_ok_iff.mp compiled with ⟨rest, isRest, compiled⟩
      cases compiled
      exact fun bid member => mem_cons_of_mem _ (induction isRest (by simpa using enough)
        bid member)
    · cases bids with
      | nil => exact fun _ member => absurd member not_mem_nil
      | cons _ bids =>
        rw [placeCoordinates.eq_3 _ _ _ _ owned] at compiled
        rcases bind_eq_ok_iff.mp compiled with ⟨rest, isRest, compiled⟩
        cases compiled
        have enough : bids.length ≤ (mapShape.filter (· ≠ 0)).length := by
          simpa [owned] using enough
        refine forall_mem_cons.mpr ⟨mem_cons_self, ?_⟩
        exact fun other member => mem_cons_of_mem _ (induction isRest enough other member)

/-- Owned coordinates are constants, which cannot wrap. -/
theorem placeCoordinates_exact_iff (shifts : ShiftSemantics) {environment : Environment}
    {coordinates : List Int} (compiled : placeCoordinates mapShape bids = .ok placed)
    (enough : bids.length ≤ (mapShape.filter (· ≠ 0)).length)
    (reads : Forall₂ (Reads environment) bids coordinates) :
    (∀ bid ∈ placed, bid.Exact shifts environment) ↔ ∀ bid ∈ bids, bid.NoWrap environment := by
  constructor
  · intro exact bid member
    exact (exact bid (placeCoordinates_subset compiled enough bid member)).noWrap
  · intro noWrap bid member
    rcases placeCoordinates_mem compiled bid member with streamed | owned
    · rcases forall₂_iff_get.mp reads with ⟨_, readsAt⟩
      rcases mem_iff_get.mp streamed with ⟨position, rfl⟩
      exact ((readsAt position position.isLt (by omega)).exact_iff shifts).mpr (noWrap _ streamed)
    · have zero : i32.Represents 0 := by decide
      have produces : Produces environment (compileConstant 0) 0 True :=
        compileConstant_produces zero
      rcases produces with ⟨_, isBid, tracks⟩
      rw [owned] at isBid
      cases isBid
      exact (tracks.exact_iff shifts).mpr (tracks.noWrap_iff.mpr trivial)

/-- Only the trailing two axes of an emitted schedule are grouped. -/
theorem leading_of_emitted {axes : List ScheduleAxis} {tileId : Emitted}
    (compiled : emitMappedPartitionSchedule tileId (axes.map ScheduleAxis.operand) = .ok bids) :
    ∀ axis ∈ axes.take (axes.length - 2), axis.dim = 1 := by
  intro axis member
  have operand : axis.operand ∈ (axes.map ScheduleAxis.operand).take (axes.length - 2) := by
    rw [← map_take]
    exact mem_map_of_mem member
  rcases mem_iff_getElem?.mp operand with ⟨position, isOperand⟩
  simp only [emitMappedPartitionSchedule, length_map] at compiled
  cases found : ((axes.map ScheduleAxis.operand).take (axes.length - 2)).zipIdx.find?
      (·.1.2 ≠ 1) with
  | some grouped =>
    rw [found] at compiled
    cases compiled
  | none =>
    have linear := find?_eq_none.mp found (axis.operand, position)
      (mk_mem_zipIdx_iff_getElem?.mpr isOperand)
    by_contra grouped
    exact linear (decide_eq_true grouped)

end CuTile
