import CuTile.Foundation.Traversal
import CuTile.Schedule.Reading

/-! # Mapped schedules

A mapped partition turns a flat tile id into tile coordinates, in row-major order or
in bands. This module models the arithmetic that is emitted for it, reads it over the
integers, and shows that the tiles are each visited once.
-/

namespace CuTile

open Traversal IntegerFormat Set

/-! ## Emission -/

/-- The range of a coordinate along an axis with a known tile count. -/
def exactAxisBounds (numBid : Emitted) : Option (Bounds Int) :=
  (numBid.bounds.filter fun bounds => bounds.isExact ∧ 0 < bounds.start).map fun bounds =>
    ⟨0, bounds.start - 1⟩

structure Band where
  firstBidM : Emitted
  actualGroupSizeM : Emitted
  tileInMBand : Emitted

def emitBand (tileId numBidM numBidN : Emitted) (swizzleMValue : Int) :
    Except Failure Band := do
  let swizzleM ← compileConstant swizzleMValue
  let numBidInMBand ← emitOp .mul swizzleM numBidN
  let groupMId ← emitOp .div tileId numBidInMBand
  let firstBidM ← emitOp .mul groupMId swizzleM
  let remainingM ← emitOp .sub numBidM firstBidM
  let actualGroupSizeM ← emitOp .min remainingM swizzleM
  let mBandStart ← emitOp .mul groupMId numBidInMBand
  let tileInMBand ← emitOp .sub tileId mBandStart
  return ⟨firstBidM, actualGroupSizeM, tileInMBand⟩

def emitLinear (tileId numBidN : Emitted) : Except Failure (Emitted × Emitted) := do
  let bidM ← emitOp .div tileId numBidN
  let bidN ← emitOp .rem tileId numBidN
  return (bidM, bidN)

def emitGroupedM (band : Band) : Except Failure (Emitted × Emitted) := do
  let tileInGroupM ← emitOp .rem band.tileInMBand band.actualGroupSizeM
  let bidM ← emitOp .add band.firstBidM tileInGroupM
  let bidN ← emitOp .div band.tileInMBand band.actualGroupSizeM
  return (bidM, bidN)

/-- A band is cut further into groups of columns. -/
def emitGroupedMN (band : Band) (swizzleNValue : Int) :
    Except Failure (Emitted × Emitted) := do
  let swizzleN ← compileConstant swizzleNValue
  let nGroupCapacity ← emitOp .mul band.actualGroupSizeM swizzleN
  let groupNId ← emitOp .div band.tileInMBand nGroupCapacity
  let firstBidN ← emitOp .mul groupNId swizzleN
  let tileInNGroup ← emitOp .rem band.tileInMBand nGroupCapacity
  let tileInGroupM ← emitOp .rem tileInNGroup band.actualGroupSizeM
  let bidM ← emitOp .add band.firstBidM tileInGroupM
  let tileInGroupN ← emitOp .div tileInNGroup band.actualGroupSizeM
  let bidN ← emitOp .add firstBidN tileInGroupN
  return (bidM, bidN)

/-- The coordinates before their ranges are attached. -/
def emitCoordinates2d (tileId numBidM numBidN : Emitted) (swizzleM swizzleN : Int) :
    Except Failure (Emitted × Emitted) :=
  if swizzleM = 1 ∧ swizzleN = 1 then emitLinear tileId numBidN
  else do
    let band ← emitBand tileId numBidM numBidN swizzleM
    if swizzleN = 1 then emitGroupedM band else emitGroupedMN band swizzleN

def emitSwizzle2d (tileId numBidM numBidN : Emitted) (swizzleM swizzleN : Int) :
    Except Failure (Emitted × Emitted) := do
  let (bidM, bidN) ← emitCoordinates2d tileId numBidM numBidN swizzleM swizzleN
  return ({ bidM with bounds := (exactAxisBounds numBidM).or bidM.bounds },
    { bidN with bounds := (exactAxisBounds numBidN).or bidN.bounds })

/-- Leading coordinates, the last varying fastest. -/
def emitLeading : Emitted → List Emitted → Except Failure (List Emitted)
  | _, [] => .ok []
  | lead, [numBid] => .ok [{ lead with bounds := exactAxisBounds numBid }]
  | lead, numBid :: next :: rest => do
    let stride ← rest.foldlM (emitOp .mul) next
    let bid ← emitOp .div lead stride
    let lead ← emitOp .rem lead stride
    let bids ← emitLeading lead (next :: rest)
    return { bid with bounds := exactAxisBounds numBid } :: bids

/-- The trailing two axes are swizzled; the flat id of the others comes first. -/
def emitTrailing (tileId : Emitted) (leading : List Emitted) (numBidM numBidN : Emitted)
    (swizzleM swizzleN : Int) : Except Failure (List Emitted) :=
  if leading.isEmpty then do
    let (bidM, bidN) ← emitSwizzle2d tileId numBidM numBidN swizzleM swizzleN
    return [bidM, bidN]
  else do
    let innerTotal ← emitOp .mul numBidM numBidN
    let lead ← emitOp .div tileId innerTotal
    let innerTileId ← emitOp .rem tileId innerTotal
    let bids ← emitLeading lead leading
    let (bidM, bidN) ← emitSwizzle2d innerTileId numBidM numBidN swizzleM swizzleN
    return bids ++ [bidM, bidN]

/-- An axis of a schedule is its tile count with the dimension of the map. There is
at least one. -/
def emitMappedPartitionSchedule (tileId : Emitted) (axes : List (Emitted × Int)) :
    Except Failure (List Emitted) :=
  let leading := axes.take (axes.length - 2)
  match leading.zipIdx.find? (·.1.2 ≠ 1) with
  | some ((_, dim), axis) =>
    .error (.jitError ("mapped partition schedules group only the trailing two axes: "
      ++ s!"leading map axis {axis} must be 1, got {dim}"))
  | none =>
    match axes.drop (axes.length - 2) with
    | [(numBid, dim)] =>
      if dim ≠ 1 then
        .error (.jitError s!"rank-1 mapped partition maps must be [1], got [{dim}]")
      else .ok [{ tileId with bounds := exactAxisBounds numBid }]
    | [(numBidM, swizzleM), (numBidN, swizzleN)] =>
      emitTrailing tileId (leading.map Prod.fst) numBidM numBidN swizzleM swizzleN
    | _ => .ok []

/-! ## What the arithmetic reads as -/

section Reading

variable {environment : Environment} {tileId numBidM numBidN : Emitted}
  {tile rows columns height : Int} {isTile isRows isColumns : Prop}

section Division

variable {lhs rhs : Emitted} {x y : Int} {first second condition : Prop}
  (left : Tracks environment lhs x first) (right : Tracks environment rhs y second)
  (nonneg : 0 ≤ x) (positive : 0 < y) (means : first ∧ second ↔ condition)

include left right nonneg positive means

/-- A quotient is not above the dividend, so it does not wrap. -/
theorem emitDiv_produces : Produces environment (emitOp .div lhs rhs) (x / y) condition := by
  apply emitOp_within .div left right nofun rfl _ means
  · intro holds
    exact left.represents_of_le (Int.ediv_nonneg nonneg positive.le) (Int.ediv_le_self _ nonneg)
      (means.mpr holds).1
  · exact congrArg some (Int.tdiv_eq_ediv_of_nonneg nonneg)

theorem emitRem_produces : Produces environment (emitOp .rem lhs rhs) (x % y) condition := by
  apply emitOp_within .rem left right nofun rfl _ means
  · intro holds
    exact left.represents_of_le (Int.emod_nonneg _ positive.ne') (emod_le_self nonneg positive)
      (means.mpr holds).1
  · exact congrArg some (Int.tmod_eq_emod_of_nonneg nonneg)

end Division

/-- A band is as the traversal says, and its arithmetic wraps only where the size of a
full band does. -/
theorem emitBand_produces (tracksTile : Tracks environment tileId tile isTile)
    (tracksRows : Tracks environment numBidM rows isRows)
    (tracksColumns : Tracks environment numBidN columns isColumns)
    (columnsPositive : 0 < columns) (heightPositive : 0 < height)
    (heightMachine : i32.Represents height)
    (inside : tile ∈ Ico 0 (rows * columns)) :
    ∃ band, emitBand tileId numBidM numBidN height = .ok band ∧
      Tracks environment band.firstBidM (tile / (height * columns) * height)
        (isTile ∧ isColumns ∧ i32.Represents (height * columns)) ∧
      Tracks environment band.actualGroupSizeM
        (bandRows rows height (tile / (height * columns)))
        (isTile ∧ isRows ∧ isColumns ∧ i32.Represents (height * columns)) ∧
      Tracks environment band.tileInMBand
        (tile - tile / (height * columns) * (height * columns))
        (isTile ∧ isColumns ∧ i32.Represents (height * columns)) := by
  have facts := inBand columnsPositive heightPositive inside
  have bandPositive : 0 < height * columns := mul_pos heightPositive columnsPositive
  have start : tile / (height * columns) * (height * columns) ≤ tile :=
    Int.ediv_mul_le tile bandPositive.ne'
  have firstNonneg := mul_nonneg facts.bandNonneg heightPositive.le
  have firstLe : tile / (height * columns) * height ≤ tile := by
    calc
      tile / (height * columns) * height ≤ tile / (height * columns) * (height * columns) :=
        mul_le_mul_of_nonneg_left (le_mul_of_one_le_right heightPositive.le columnsPositive)
          facts.bandNonneg
      _ ≤ tile := start
  have sizePositive := bandRows_pos heightPositive facts.firstLt
  have sizeLe := (bandRows_le rows height (tile / (height * columns))).2
  unfold emitBand
  rcases compileConstant_produces heightMachine with ⟨swizzleM, isSwizzleM, tracksHeight⟩
  rcases emitOp_produces .mul tracksHeight tracksColumns nofun rfl rfl
    (iff_of_eq (true_and _)) with ⟨numBidInMBand, isBand, tracksBand⟩
  rcases emitDiv_produces tracksTile tracksBand inside.1 bandPositive Iff.rfl
    with ⟨groupMId, isGroup, tracksGroup⟩
  rcases emitOp_within .mul tracksGroup tracksHeight nofun rfl rfl (iff_of_eq (and_true _))
    (fun holds => tracksTile.represents_of_le firstNonneg firstLe holds.1)
    with ⟨firstBidM, isFirst, tracksFirst⟩
  rcases emitOp_within .sub tracksRows tracksFirst nofun rfl rfl and_left_comm
    (fun holds => tracksRows.represents_of_le (sub_nonneg.mpr facts.firstLt.le)
      (sub_le_self rows firstNonneg) holds.2.1) with ⟨remainingM, isRemaining, tracksRemaining⟩
  rcases emitOp_within .min tracksRemaining tracksHeight nofun rfl rfl (iff_of_eq (and_true _))
    (fun holds => tracksRows.represents_of_le sizePositive.le (by omega) holds.2.1)
    with ⟨actualGroupSizeM, isSize, tracksSize⟩
  rcases emitOp_within .mul tracksGroup tracksBand nofun rfl rfl
    (and_iff_left_of_imp fun holds => holds.2)
    (fun holds => tracksTile.represents_of_le
      (mul_nonneg facts.bandNonneg bandPositive.le) start holds.1)
    with ⟨_, isStart, tracksStart⟩
  rcases emitOp_within .sub tracksTile tracksStart nofun rfl rfl
    (and_iff_right_of_imp fun holds => holds.1)
    (fun holds => tracksTile.represents_of_le facts.offsetNonneg
      (sub_le_self tile (mul_nonneg facts.bandNonneg bandPositive.le)) holds.1)
    with ⟨tileInMBand, isInBand, tracksInBand⟩
  refine ⟨⟨firstBidM, actualGroupSizeM, tileInMBand⟩, ?_, tracksFirst, tracksSize, tracksInBand⟩
  simp only [isSwizzleM, isBand, isGroup, isFirst, isRemaining, isSize, isStart, isInBand, bind,
    Except.bind, pure, Except.pure]

theorem emitLinear_produces (tracksTile : Tracks environment tileId tile isTile)
    (tracksColumns : Tracks environment numBidN columns isColumns) (nonneg : 0 ≤ tile)
    (columnsPositive : 0 < columns) :
    ∃ bidM bidN, emitLinear tileId numBidN = .ok (bidM, bidN) ∧
      Tracks environment bidM (tile / columns) (isTile ∧ isColumns) ∧
      Tracks environment bidN (tile % columns) (isTile ∧ isColumns) := by
  unfold emitLinear
  rcases emitDiv_produces tracksTile tracksColumns nonneg columnsPositive Iff.rfl
    with ⟨bidM, isBidM, tracksBidM⟩
  rcases emitRem_produces tracksTile tracksColumns nonneg columnsPositive Iff.rfl
    with ⟨bidN, isBidN, tracksBidN⟩
  refine ⟨bidM, bidN, ?_, tracksBidM, tracksBidN⟩
  simp only [isBidM, isBidN, bind, Except.bind, pure, Except.pure]

/-- The coordinates of an offset in a band. Sizing the band is what may wrap first. -/
structure TracksBand (environment : Environment) (rows columns height : Int) (band : Band)
    (number offset : Int) (located sized : Prop) : Prop where
  inBand : InBand rows columns height number offset
  first : Tracks environment band.firstBidM (number * height) located
  size : Tracks environment band.actualGroupSizeM (bandRows rows height number) sized
  offset : Tracks environment band.tileInMBand offset located
  located_of_sized : sized → located
  rows_of_sized : sized → IntegerFormat.i32.Represents rows

variable {band : Band} {number offset : Int} {located sized : Prop}

theorem emitGroupedM_produces (heightPositive : 0 < height)
    (tracks : TracksBand environment rows columns height band number offset located sized) :
    ∃ bidM bidN, emitGroupedM band = .ok (bidM, bidN) ∧
      Tracks environment bidM (bandPoint rows height number offset).1 sized ∧
      Tracks environment bidN (bandPoint rows height number offset).2 sized := by
  have sizePositive := bandRows_pos heightPositive tracks.inBand.firstLt
  have nonneg := tracks.inBand.offsetNonneg
  have point := bandPoint_mem heightPositive tracks.inBand
  have both : located ∧ sized ↔ sized := and_iff_right_of_imp tracks.located_of_sized
  unfold emitGroupedM
  rcases emitRem_produces tracks.offset tracks.size nonneg sizePositive both
    with ⟨_, isInGroup, tracksInGroup⟩
  rcases emitOp_within .add tracks.first tracksInGroup nofun rfl rfl both
    (fun holds => represents_i32_of_le point.1.1 point.1.2.le
      (tracks.rows_of_sized holds)) with ⟨bidM, isBidM, tracksBidM⟩
  rcases emitDiv_produces tracks.offset tracks.size nonneg sizePositive both
    with ⟨bidN, isBidN, tracksBidN⟩
  refine ⟨bidM, bidN, ?_, tracksBidM, tracksBidN⟩
  simp only [isInGroup, isBidM, isBidN, bind, Except.bind, pure, Except.pure]

/-- Grouping columns leads to the same coordinates, but the capacity of a group may
wrap. -/
theorem emitGroupedMN_produces {width : Int} (heightPositive : 0 < height)
    (widthPositive : 0 < width) (widthMachine : i32.Represents width)
    (tracks : TracksBand environment rows columns height band number offset located sized) :
    ∃ bidM bidN, emitGroupedMN band width = .ok (bidM, bidN) ∧
      Tracks environment bidM (bandPoint rows height number offset).1
        (sized ∧ i32.Represents (bandRows rows height number * width)) ∧
      Tracks environment bidN (bandPoint rows height number offset).2
        (sized ∧ i32.Represents (bandRows rows height number * width)) := by
  have sizePositive := bandRows_pos heightPositive tracks.inBand.firstLt
  have nonneg := tracks.inBand.offsetNonneg
  have point := bandPoint_mem heightPositive tracks.inBand
  let size := bandRows rows height number
  have capacityPositive : 0 < size * width := mul_pos sizePositive widthPositive
  have group := Int.ediv_nonneg nonneg capacityPositive.le
  have inGroup := Int.emod_nonneg offset capacityPositive.ne'
  rcases regroup_columns offset width sizePositive with ⟨sameRow, sameColumn⟩
  let condition := sized ∧ i32.Represents (size * width)
  have offsetSmall {value : Int} (isNonneg : 0 ≤ value) (below : value ≤ offset)
      (holds : condition) : i32.Represents value :=
    tracks.offset.represents_of_le isNonneg below (tracks.located_of_sized holds.1)
  have withLocated : located ∧ condition ↔ condition :=
    and_iff_right_of_imp fun holds => tracks.located_of_sized holds.1
  have withSized : condition ∧ sized ↔ condition := and_iff_left_of_imp And.left
  have columnsLe : offset / size ≤ offset := Int.ediv_le_self _ nonneg
  have firstLe : offset / (size * width) * width ≤ offset :=
    (le_add_of_nonneg_right (Int.ediv_nonneg inGroup sizePositive.le)).trans
      (sameColumn.trans_le columnsLe)
  unfold emitGroupedMN
  rcases compileConstant_produces widthMachine with ⟨_, isSwizzleN, tracksWidth⟩
  rcases emitOp_produces .mul tracks.size tracksWidth nofun rfl rfl
    (and_congr_right fun _ => iff_of_eq (true_and _))
    with ⟨_, isCapacity, tracksCapacity⟩
  rcases emitDiv_produces tracks.offset tracksCapacity nonneg capacityPositive withLocated with
    ⟨_, isGroup, tracksGroup⟩
  rcases emitOp_within .mul tracksGroup tracksWidth nofun rfl rfl (iff_of_eq (and_true _))
    (offsetSmall (mul_nonneg group widthPositive.le) firstLe)
    with ⟨_, isFirst, tracksFirst⟩
  rcases emitRem_produces tracks.offset tracksCapacity nonneg capacityPositive withLocated
    with ⟨_, isInGroup, tracksInGroup⟩
  rcases emitRem_produces tracksInGroup tracks.size inGroup sizePositive withSized
    with ⟨_, isInGroupM, tracksInGroupM⟩
  rw [sameRow] at tracksInGroupM
  rcases emitOp_within .add tracks.first tracksInGroupM nofun rfl rfl withLocated
    (fun holds => represents_i32_of_le point.1.1 point.1.2.le
      (tracks.rows_of_sized holds.1)) with ⟨bidM, isBidM, tracksBidM⟩
  rcases emitDiv_produces tracksInGroup tracks.size inGroup sizePositive withSized
    with ⟨_, isInGroupN, tracksInGroupN⟩
  rcases emitOp_within .add tracksFirst tracksInGroupN nofun rfl (congrArg some sameColumn)
    and_self_iff (offsetSmall (Int.ediv_nonneg nonneg sizePositive.le) columnsLe)
    with ⟨bidN, isBidN, tracksBidN⟩
  refine ⟨bidM, bidN, ?_, tracksBidM, tracksBidN⟩
  simp only [isSwizzleN, isCapacity, isGroup, isFirst, isInGroup, isInGroupM, isBidM,
    isInGroupN, isBidN, bind, Except.bind, pure, Except.pure]

end Reading

/-! ## The swizzle -/

section Swizzle

/-- The coordinates of a tile, row by row or in bands. -/
def swizzle2d (rows columns swizzleM swizzleN tile : Int) : Int × Int :=
  if swizzleM = 1 ∧ swizzleN = 1 then (tile / columns, tile % columns)
  else banded rows columns swizzleM tile

/-- The products of group sizes that a swizzle computes are `i32` values. -/
def GroupsFit (rows columns swizzleM swizzleN tile : Int) : Prop :=
  ¬(swizzleM = 1 ∧ swizzleN = 1) →
    IntegerFormat.i32.Represents (swizzleM * columns) ∧
      (swizzleN ≠ 1 → IntegerFormat.i32.Represents
        (bandRows rows swizzleM (tile / (swizzleM * columns)) * swizzleN))

variable {environment : Environment} {tileId numBidM numBidN : Emitted}
  {tile rows columns swizzleM swizzleN : Int} {isTile isRows isColumns : Prop}

theorem bijOn_swizzle2d (swizzleN : Int) (columnsPositive : 0 < columns)
    (positiveM : 0 < swizzleM) :
    BijOn (swizzle2d rows columns swizzleM swizzleN) (Ico 0 (rows * columns))
      (Ico 0 rows ×ˢ Ico 0 columns) := by
  by_cases linear : swizzleM = 1 ∧ swizzleN = 1
  · have isLinear : swizzle2d rows columns swizzleM swizzleN =
        fun tile => (tile / columns, tile % columns) := by
      funext tile
      exact if_pos linear
    rw [isLinear]
    exact bijOn_rowMajor rows columnsPositive
  · have isBanded : swizzle2d rows columns swizzleM swizzleN =
        banded rows columns swizzleM := by
      funext tile
      exact if_neg linear
    rw [isBanded]
    exact bijOn_banded columnsPositive positiveM

/-- Both coordinates, with the conditions under which they do not wrap. The count of
rows matters only to bands. -/
theorem emitCoordinates2d_produces (tracksTile : Tracks environment tileId tile isTile)
    (tracksRows : Tracks environment numBidM rows isRows)
    (tracksColumns : Tracks environment numBidN columns isColumns)
    (columnsPositive : 0 < columns)
    (positiveM : 0 < swizzleM) (machineM : i32.Represents swizzleM)
    (positiveN : 0 < swizzleN) (machineN : i32.Represents swizzleN)
    (inside : tile ∈ Ico 0 (rows * columns)) :
    ∃ bidM bidN condition,
      emitCoordinates2d tileId numBidM numBidN swizzleM swizzleN = .ok (bidM, bidN) ∧
      Tracks environment bidM (swizzle2d rows columns swizzleM swizzleN tile).1 condition ∧
      Tracks environment bidN (swizzle2d rows columns swizzleM swizzleN tile).2 condition ∧
      (isRows → isColumns →
        (condition ↔ isTile ∧ GroupsFit rows columns swizzleM swizzleN tile)) := by
  unfold emitCoordinates2d swizzle2d
  by_cases linear : swizzleM = 1 ∧ swizzleN = 1
  · simp only [if_pos linear]
    rcases emitLinear_produces tracksTile tracksColumns inside.1 columnsPositive
      with ⟨bidM, bidN, compiled, tracksM, tracksN⟩
    refine ⟨bidM, bidN, _, compiled, tracksM, tracksN, ?_⟩
    intro _ holdsColumns
    exact and_congr_right fun _ =>
      iff_of_true holdsColumns fun grouped => absurd linear grouped
  · simp only [if_neg linear]
    rcases emitBand_produces tracksTile tracksRows tracksColumns columnsPositive positiveM
      machineM inside with ⟨band, isBand, tracksFirst, tracksSize, tracksOffset⟩
    have tracksBand : TracksBand environment rows columns swizzleM band
        (tile / (swizzleM * columns))
        (tile - tile / (swizzleM * columns) * (swizzleM * columns)) _ _ :=
      ⟨inBand columnsPositive positiveM inside, tracksFirst, tracksSize, tracksOffset,
        fun holds => ⟨holds.1, holds.2.2⟩, fun holds => tracksRows.represents holds.2.1⟩
    by_cases single : swizzleN = 1
    · rcases emitGroupedM_produces positiveM tracksBand
        with ⟨bidM, bidN, compiled, tracksM, tracksN⟩
      refine ⟨bidM, bidN, _, ?_, tracksM, tracksN, ?_⟩
      · simp only [isBand, bind, Except.bind, if_pos single, compiled]
      · intro holdsRows holdsColumns
        rw [GroupsFit, imp_iff_right linear]
        simp only [single, holdsRows, holdsColumns, true_and, ne_eq, not_true_eq_false,
          false_implies, and_true]
    · rcases emitGroupedMN_produces positiveM positiveN machineN tracksBand
        with ⟨bidM, bidN, compiled, tracksM, tracksN⟩
      refine ⟨bidM, bidN, _, ?_, tracksM, tracksN, ?_⟩
      · simp only [isBand, bind, Except.bind, if_neg single, compiled]
      · intro holdsRows holdsColumns
        rw [GroupsFit, imp_iff_right linear, imp_iff_right single]
        simp only [holdsRows, holdsColumns, true_and, and_assoc]

/-! ## Ranges of coordinates -/

/-- A coordinate reads as `value` and wraps nowhere exactly under `condition`. -/
structure Mints (environment : Environment) (bid : Emitted) (value : Int)
    (condition : Prop) : Prop extends Reads environment bid value where
  noWrap_iff : bid.NoWrap environment ↔ condition

/-- The range of a coordinate below a known count is true. -/
theorem exactAxisBounds_mem {numBid : Emitted} {count value : Int} {bounds : Bounds Int}
    (reads : Reads environment numBid count) (range : 0 ≤ value ∧ value < count)
    (known : exactAxisBounds numBid = some bounds) : bounds.Fits ∧ value ∈ bounds := by
  rcases Option.map_eq_some_iff.mp known with ⟨exactly, isExactly, rfl⟩
  rcases Option.filter_eq_some_iff.mp isExactly with ⟨isBounds, exact⟩
  rcases of_decide_eq_true exact with ⟨isExact, positive⟩
  rcases reads.interval exactly isBounds with ⟨fits, inside⟩
  have same := Bounds.eq_start_of_mem isExact inside
  have start := fits.1
  rw [represents_i64] at start
  have last : i64.Represents (exactly.start - 1) := by
    rw [represents_i64]
    omega
  have first : i64.Represents 0 := by decide
  exact ⟨⟨first, last⟩, range.1, Int.le_sub_one_of_lt (same ▸ range.2)⟩

theorem Tracks.mints {bid numBid : Emitted} {value count : Int} {condition : Prop}
    {bounds : Option (Bounds Int)} (tracks : Tracks environment bid value condition)
    (reads : Reads environment numBid count) (range : 0 ≤ value ∧ value < count)
    (known : ∀ interval, bounds = some interval →
      exactAxisBounds numBid = some interval ∨ bid.bounds = some interval) :
    Mints environment { bid with bounds := bounds } value condition where
  kind := tracks.kind
  typed := tracks.typed
  code := tracks.code
  interval := by
    intro interval isInterval
    rcases known interval isInterval with ofAxis | own
    · exact exactAxisBounds_mem reads range ofAxis
    · exact tracks.interval interval own
  noWrap_iff := tracks.noWrap_iff

theorem emitSwizzle2d_mints (tracksTile : Tracks environment tileId tile isTile)
    (tracksRows : Tracks environment numBidM rows isRows)
    (tracksColumns : Tracks environment numBidN columns isColumns)
    (columnsPositive : 0 < columns)
    (positiveM : 0 < swizzleM) (machineM : i32.Represents swizzleM)
    (positiveN : 0 < swizzleN) (machineN : i32.Represents swizzleN)
    (inside : tile ∈ Ico 0 (rows * columns)) :
    ∃ bidM bidN condition,
      emitSwizzle2d tileId numBidM numBidN swizzleM swizzleN = .ok (bidM, bidN) ∧
      Mints environment bidM (swizzle2d rows columns swizzleM swizzleN tile).1 condition ∧
      Mints environment bidN (swizzle2d rows columns swizzleM swizzleN tile).2 condition ∧
      (isRows → isColumns →
        (condition ↔ isTile ∧ GroupsFit rows columns swizzleM swizzleN tile)) := by
  rcases emitCoordinates2d_produces tracksTile tracksRows tracksColumns columnsPositive
    positiveM machineM positiveN machineN inside
    with ⟨bidM, bidN, condition, compiled, tracksM, tracksN, means⟩
  have point := (bijOn_swizzle2d swizzleN columnsPositive positiveM).mapsTo inside
  have either (numBid bid : Emitted) (interval : Bounds Int)
      (isInterval : (exactAxisBounds numBid).or bid.bounds = some interval) :
      exactAxisBounds numBid = some interval ∨ bid.bounds = some interval :=
    (Option.or_eq_some_iff.mp isInterval).imp_right And.right
  have ranged : emitSwizzle2d tileId numBidM numBidN swizzleM swizzleN = .ok
      ({ bidM with bounds := (exactAxisBounds numBidM).or bidM.bounds },
        { bidN with bounds := (exactAxisBounds numBidN).or bidN.bounds }) := by
    simp only [emitSwizzle2d, compiled, bind, Except.bind, pure, Except.pure]
  exact ⟨_, _, condition, ranged, tracksM.mints tracksRows.toReads point.1 (either _ _),
    tracksN.mints tracksColumns.toReads point.2 (either _ _), means⟩

end Swizzle

/-! ## Schedules of rank one to three -/

/-- An axis of a schedule: the code of its tile count, the count, and the dimension of
the map. -/
structure ScheduleAxis where
  numBid : Emitted
  count : Int
  dim : Int
  countPositive : 0 < count
  dimPositive : 0 < dim
  dimMachine : IntegerFormat.i32.Represents dim

def ScheduleAxis.operand (axis : ScheduleAxis) : Emitted × Int := (axis.numBid, axis.dim)

def totalTiles (axes : List ScheduleAxis) : Int := (axes.map ScheduleAxis.count).prod

def scheduled : List ScheduleAxis → Int → List Int
  | [], _ => []
  | [_], tile => [tile]
  | [m, n], tile =>
    [(swizzle2d m.count n.count m.dim n.dim tile).1,
      (swizzle2d m.count n.count m.dim n.dim tile).2]
  | _ :: m :: n :: rest, tile =>
    tile / totalTiles (m :: n :: rest) ::
      scheduled (m :: n :: rest) (tile % totalTiles (m :: n :: rest))

theorem totalTiles_pos (axes : List ScheduleAxis) : 0 < totalTiles axes := by
  induction axes with
  | nil => exact Int.one_pos
  | cons axis _ induction => exact mul_pos axis.countPositive induction

theorem bijOn_scheduled {axes : List ScheduleAxis} (nonempty : axes ≠ []) :
    BijOn (scheduled axes) (Ico 0 (totalTiles axes))
      (box (axes.map ScheduleAxis.count)) := by
  induction axes with
  | nil => exact absurd rfl nonempty
  | cons axis rest induction =>
    match rest, induction with
    | [], _ =>
      have total : totalTiles [axis] = axis.count := List.prod_singleton
      rw [total]
      exact bijOn_line axis.count
    | [n], _ =>
      have total : totalTiles [axis, n] = axis.count * n.count := by
        simp [totalTiles]
      rw [total]
      exact (bijOn_plane axis.count n.count).comp
        (bijOn_swizzle2d n.dim n.countPositive axis.dimPositive)
    | m :: n :: rest, induction =>
      exact bijOn_leading axis.count (totalTiles_pos _) (induction (List.cons_ne_nil _ _))

end CuTile
