import Mathlib.Tactic.Ring
import Mathlib.Order.Interval.Set.OrdConnectedLinear

/-! # Traversals of a box

A traversal numbers the points of a box so that counting up to the size of the box
meets every point once. Row-major order, bands of rows, and the strides of a grid of
workers are traversals.
-/

namespace CuTile.Traversal

open Set

/-- Quotient and remainder of a number given by its digits. -/
theorem ediv_emod_of_digits (high : Int) {low size : Int} (nonneg : 0 ≤ low) (small : low < size) :
    (high * size + low) / size = high ∧ (high * size + low) % size = low := by
  have positive : size ≠ 0 := by omega
  rw [add_comm, Int.add_mul_ediv_right _ _ positive, Int.add_mul_emod_self_right,
    Int.ediv_eq_zero_of_lt nonneg small, Int.emod_eq_of_lt nonneg small]
  exact ⟨zero_add high, rfl⟩

theorem emod_le_self {value size : Int} (nonneg : 0 ≤ value) (positive : 0 < size) :
    value % size ≤ value := by
  have quotient := mul_nonneg (Int.ediv_nonneg nonneg positive.le) positive.le
  have split := Int.ediv_mul_add_emod value size
  omega

theorem bijOn_rowMajor (rows : Int) {columns : Int} (positive : 0 < columns) :
    BijOn (fun tile => (tile / columns, tile % columns)) (Ico 0 (rows * columns))
      (Ico 0 rows ×ˢ Ico 0 columns) := by
  have inverse : InvOn (fun point : Int × Int => point.1 * columns + point.2)
      (fun tile => (tile / columns, tile % columns)) (Ico 0 (rows * columns))
      (Ico 0 rows ×ˢ Ico 0 columns) := by
    constructor
    · intro tile _
      exact Int.ediv_mul_add_emod tile columns
    · rintro ⟨row, column⟩ ⟨_, inColumns⟩
      rcases ediv_emod_of_digits row inColumns.1 inColumns.2 with ⟨isRow, isColumn⟩
      exact Prod.ext isRow isColumn
  apply inverse.bijOn
  · intro tile inside
    exact ⟨⟨Int.ediv_nonneg inside.1 positive.le, Int.ediv_lt_of_lt_mul positive inside.2⟩,
      Int.emod_nonneg _ positive.ne', Int.emod_lt_of_pos _ positive⟩
  · rintro ⟨row, column⟩ ⟨inRows, inColumns⟩
    have whole : (row + 1) * columns ≤ rows * columns :=
      mul_le_mul_of_nonneg_right (Int.add_one_le_of_lt inRows.2) positive.le
    have start := mul_nonneg inRows.1 positive.le
    have below : row * columns + column < (row + 1) * columns := by
      rw [add_one_mul]
      exact Int.add_lt_add_left inColumns.2 _
    exact ⟨add_nonneg start inColumns.1, below.trans_le whole⟩

/-! ## Bands of rows -/

section Bands

variable (rows columns height : Int)

/-- The rows of a band; the last band may be short. -/
def bandRows (band : Int) : Int := min (rows - band * height) height

/-- The point at an offset within a band: column after column. -/
def bandPoint (band offset : Int) : Int × Int :=
  (band * height + offset % bandRows rows height band, offset / bandRows rows height band)

def bandOffset (band : Int) (point : Int × Int) : Int :=
  point.2 * bandRows rows height band + (point.1 - band * height)

def banded (tile : Int) : Int × Int :=
  bandPoint rows height (tile / (height * columns))
    (tile - tile / (height * columns) * (height * columns))

def bandedIndex (point : Int × Int) : Int :=
  point.1 / height * (height * columns) + bandOffset rows height (point.1 / height) point

theorem bandRows_le (band : Int) :
    bandRows rows height band ≤ height ∧ band * height + bandRows rows height band ≤ rows := by
  unfold bandRows
  omega

variable {rows columns height}

theorem bandRows_pos {band : Int} (positive : 0 < height) (firstLt : band * height < rows) :
    0 < bandRows rows height band := by
  unfold bandRows
  omega

structure InBand (rows columns height band offset : Int) : Prop where
  bandNonneg : 0 ≤ band
  firstLt : band * height < rows
  offsetNonneg : 0 ≤ offset
  offsetLt : offset < bandRows rows height band * columns

theorem inBand (columnsPositive : 0 < columns) (heightPositive : 0 < height) {tile : Int}
    (inside : tile ∈ Ico 0 (rows * columns)) :
    InBand rows columns height (tile / (height * columns))
      (tile - tile / (height * columns) * (height * columns)) := by
  have bandPositive : 0 < height * columns := mul_pos heightPositive columnsPositive
  have bandNonneg : 0 ≤ tile / (height * columns) := Int.ediv_nonneg inside.1 bandPositive.le
  have start : tile / (height * columns) * (height * columns) ≤ tile :=
    Int.ediv_mul_le tile bandPositive.ne'
  have finish : tile < (tile / (height * columns) + 1) * (height * columns) :=
    Int.lt_ediv_add_one_mul_self tile bandPositive
  generalize tile / (height * columns) = band at *
  have regroup : band * (height * columns) = band * height * columns := (mul_assoc _ _ _).symm
  have firstLt : band * height < rows := by
    apply lt_of_mul_lt_mul_right _ columnsPositive.le
    exact regroup ▸ start.trans_lt inside.2
  refine ⟨bandNonneg, firstLt, sub_nonneg.mpr start, ?_⟩
  -- the band ends with its full height or with the rows
  unfold bandRows
  rcases min_choice (rows - band * height) height with short | full
  · rw [short, sub_mul, regroup]
    exact Int.sub_lt_sub_right inside.2 _
  · rw [full]
    rw [add_one_mul] at finish
    omega

theorem bandPoint_mem (heightPositive : 0 < height) {band offset : Int}
    (facts : InBand rows columns height band offset) :
    bandPoint rows height band offset ∈ Ico 0 rows ×ˢ Ico 0 columns := by
  have sizePositive := bandRows_pos heightPositive facts.firstLt
  have bounds := (bandRows_le rows height band).2
  have first := mul_nonneg facts.bandNonneg heightPositive.le
  have row := Int.emod_nonneg offset sizePositive.ne'
  have rowLt := Int.emod_lt_of_pos offset sizePositive
  have column := facts.offsetLt
  rw [mul_comm] at column
  exact ⟨⟨add_nonneg first row, (Int.add_lt_add_left rowLt _).trans_le bounds⟩,
    Int.ediv_nonneg facts.offsetNonneg sizePositive.le,
    Int.ediv_lt_of_lt_mul sizePositive column⟩

theorem bandPoint_band (heightPositive : 0 < height) {band offset : Int}
    (facts : InBand rows columns height band offset) :
    (bandPoint rows height band offset).1 / height = band := by
  have sizePositive := bandRows_pos heightPositive facts.firstLt
  have rowLt := Int.emod_lt_of_pos offset sizePositive
  have short := (bandRows_le rows height band).1
  exact (ediv_emod_of_digits band (Int.emod_nonneg offset sizePositive.ne')
    (rowLt.trans_le short)).1

theorem bandOffset_bandPoint (band offset : Int) :
    bandOffset rows height band (bandPoint rows height band offset) = offset := by
  rw [bandOffset, bandPoint, add_sub_cancel_left]
  exact Int.ediv_mul_add_emod offset _

/-- A point of the box has an offset in its band, which leads back to it. -/
theorem bandOffset_spec (heightPositive : 0 < height) {point : Int × Int}
    (inside : point ∈ Ico 0 rows ×ˢ Ico 0 columns) :
    InBand rows columns height (point.1 / height)
        (bandOffset rows height (point.1 / height) point) ∧
      bandPoint rows height (point.1 / height)
        (bandOffset rows height (point.1 / height) point) = point := by
  have start : point.1 / height * height ≤ point.1 := Int.ediv_mul_le _ heightPositive.ne'
  have finish : point.1 < point.1 / height * height + height :=
    (Int.lt_ediv_add_one_mul_self _ heightPositive).trans_eq (add_one_mul _ _)
  have bandNonneg := Int.ediv_nonneg inside.1.1 heightPositive.le
  have firstLt := start.trans_lt inside.1.2
  generalize point.1 / height = band at *
  have sizePositive := bandRows_pos heightPositive firstLt
  have rowNonneg : 0 ≤ point.1 - band * height := sub_nonneg.mpr start
  have rowLt : point.1 - band * height < bandRows rows height band := by
    have := inside.1.2
    unfold bandRows
    omega
  have columnSpan : (point.2 + 1) * bandRows rows height band ≤
      columns * bandRows rows height band :=
    mul_le_mul_of_nonneg_right (Int.add_one_le_of_lt inside.2.2) sizePositive.le
  rcases ediv_emod_of_digits point.2 rowNonneg rowLt with ⟨isColumn, isRow⟩
  refine ⟨⟨bandNonneg, firstLt, ?_, ?_⟩, ?_⟩
  · exact add_nonneg (mul_nonneg inside.2.1 sizePositive.le) rowNonneg
  · rw [mul_comm (bandRows rows height band)]
    apply lt_of_lt_of_le _ columnSpan
    rw [add_one_mul]
    exact Int.add_lt_add_left rowLt _
  · rw [bandPoint, bandOffset, isColumn, isRow, add_sub_cancel]

theorem InBand.offset_lt_full (columnsPositive : 0 < columns) {band offset : Int}
    (facts : InBand rows columns height band offset) : offset < height * columns :=
  facts.offsetLt.trans_le
    (mul_le_mul_of_nonneg_right (bandRows_le rows height band).1 columnsPositive.le)

theorem InBand.index_lt (columnsPositive : 0 < columns) {band offset : Int}
    (facts : InBand rows columns height band offset) :
    band * (height * columns) + offset < rows * columns := by
  calc
    band * (height * columns) + offset <
        band * (height * columns) + bandRows rows height band * columns :=
      Int.add_lt_add_left facts.offsetLt _
    _ = (band * height + bandRows rows height band) * columns := by ring
    _ ≤ rows * columns :=
      mul_le_mul_of_nonneg_right (bandRows_le rows height band).2 columnsPositive.le

/-- Bands traverse the box, also when the last one is short. -/
theorem bijOn_banded (columnsPositive : 0 < columns) (heightPositive : 0 < height) :
    BijOn (banded rows columns height) (Ico 0 (rows * columns))
      (Ico 0 rows ×ˢ Ico 0 columns) := by
  have inverse : InvOn (bandedIndex rows columns height) (banded rows columns height)
      (Ico 0 (rows * columns)) (Ico 0 rows ×ˢ Ico 0 columns) := by
    constructor
    · intro tile inside
      have facts := inBand columnsPositive heightPositive inside
      rw [bandedIndex, banded, bandPoint_band heightPositive facts, bandOffset_bandPoint,
        add_sub_cancel]
    · intro point inside
      rcases bandOffset_spec heightPositive inside with ⟨facts, returns⟩
      have isBand := (ediv_emod_of_digits (point.1 / height) facts.offsetNonneg
        (facts.offset_lt_full columnsPositive)).1
      rw [banded, bandedIndex, isBand, add_sub_cancel_left]
      exact returns
  apply inverse.bijOn
  · intro tile inside
    exact bandPoint_mem heightPositive (inBand columnsPositive heightPositive inside)
  · intro point inside
    have facts := (bandOffset_spec heightPositive inside).1
    have bandPositive := mul_pos heightPositive columnsPositive
    exact ⟨add_nonneg (mul_nonneg facts.bandNonneg bandPositive.le) facts.offsetNonneg,
      facts.index_lt columnsPositive⟩

/-- Cutting a band into groups of columns does not change the order. -/
theorem regroup_columns {size : Int} (offset width : Int) (sizePositive : 0 < size) :
    offset % (size * width) % size = offset % size ∧
      offset / (size * width) * width + offset % (size * width) / size = offset / size := by
  refine ⟨Int.emod_emod_of_dvd offset (dvd_mul_right size width), ?_⟩
  have split := Int.ediv_mul_add_emod offset (size * width)
  calc
    offset / (size * width) * width + offset % (size * width) / size =
        (offset % (size * width) + offset / (size * width) * width * size) / size := by
      rw [Int.add_mul_ediv_right _ _ sizePositive.ne', add_comm]
    _ = offset / size := by
      rw [mul_assoc, mul_comm width, add_comm, split]

end Bands

/-! ## Workers -/

/-- Workers that share the numbers by strides of their count. -/
def strides (workers total : Int) : Set (Int × Int) :=
  {visit | (0 ≤ visit.1 ∧ visit.1 < workers) ∧ 0 ≤ visit.2 ∧
    visit.1 + visit.2 * workers < total}

theorem bijOn_strides {workers : Int} (total : Int) (positive : 0 < workers) :
    BijOn (fun visit : Int × Int => visit.1 + visit.2 * workers) (strides workers total)
      (Ico 0 total) := by
  have inverse : InvOn (fun tile => (tile % workers, tile / workers))
      (fun visit : Int × Int => visit.1 + visit.2 * workers) (strides workers total)
      (Ico 0 total) := by
    constructor
    · rintro ⟨worker, round⟩ ⟨isWorker, _⟩
      rcases ediv_emod_of_digits round isWorker.1 isWorker.2 with ⟨isRound, same⟩
      simp only [add_comm worker, isRound, same]
    · intro tile _
      exact Int.emod_add_ediv_mul tile workers
  apply inverse.bijOn
  · rintro ⟨worker, round⟩ ⟨isWorker, isRound, inside⟩
    exact ⟨add_nonneg isWorker.1 (mul_nonneg isRound positive.le), inside⟩
  · intro tile inside
    refine ⟨⟨Int.emod_nonneg _ positive.ne', Int.emod_lt_of_pos _ positive⟩,
      Int.ediv_nonneg inside.1 positive.le, ?_⟩
    rw [Int.emod_add_ediv_mul]
    exact inside.2

/-! ## Boxes of any rank -/

/-- The points whose coordinates are below the counts. -/
def box (counts : List Int) : Set (List Int) :=
  {point | List.Forall₂ (fun coordinate count => 0 ≤ coordinate ∧ coordinate < count)
    point counts}

theorem bijOn_line (count : Int) :
    BijOn (fun tile => [tile]) (Ico 0 count) (box [count]) := by
  refine ⟨?_, ?_, ?_⟩
  · intro tile inside
    exact .cons inside .nil
  · intro tile _ other _ same
    exact List.head_eq_of_cons_eq same
  · rintro _ (_ | ⟨inside, _ | _⟩)
    exact ⟨_, inside, rfl⟩

theorem bijOn_plane (rows columns : Int) :
    BijOn (fun point : Int × Int => [point.1, point.2])
      (Ico 0 rows ×ˢ Ico 0 columns) (box [rows, columns]) := by
  refine ⟨?_, ?_, ?_⟩
  · rintro ⟨row, column⟩ ⟨inRows, inColumns⟩
    exact .cons inRows (.cons inColumns .nil)
  · rintro ⟨row, column⟩ _ ⟨_, _⟩ _ same
    rcases List.cons_eq_cons.mp same with ⟨sameRow, sameRest⟩
    exact Prod.ext sameRow (List.head_eq_of_cons_eq sameRest)
  · rintro _ (_ | ⟨inRows, _ | ⟨inColumns, _ | _⟩⟩)
    exact ⟨(_, _), ⟨inRows, inColumns⟩, rfl⟩

/-- A leading coordinate that changes once the rest has been traversed. -/
theorem bijOn_leading (count : Int) {counts : List Int} {inner : Int} {visit : Int → List Int}
    (positive : 0 < inner) (rest : BijOn visit (Ico 0 inner) (box counts)) :
    BijOn (fun tile => tile / inner :: visit (tile % inner)) (Ico 0 (count * inner))
      (box (count :: counts)) := by
  have digits := bijOn_rowMajor count positive
  refine ⟨?_, ?_, ?_⟩
  · intro tile inside
    have point := digits.mapsTo inside
    exact .cons point.1 (rest.mapsTo point.2)
  · intro tile inside tile' inside' same
    have point := digits.mapsTo inside
    have point' := digits.mapsTo inside'
    rcases List.cons_eq_cons.mp same with ⟨sameHead, sameRest⟩
    exact digits.injOn inside inside'
      (Prod.ext sameHead (rest.injOn point.2 point'.2 sameRest))
  · rintro _ (_ | ⟨inCount, inRest⟩)
    rcases rest.surjOn inRest with ⟨_, inInner, rfl⟩
    rcases digits.surjOn (mk_mem_prod inCount inInner) with ⟨tile, inside, isPoint⟩
    refine ⟨tile, inside, ?_⟩
    rw [Prod.ext_iff] at isPoint
    exact congrArg₂ _ isPoint.1 (congrArg visit isPoint.2)

end CuTile.Traversal
