import CuTile.Foundation.Division

/-! # Tiles within slabs

An extent is cut into slabs and each slab into tiles, while the tiles are numbered
through the whole extent. This module says when numbering the tiles slab by slab
keeps every tile inside its slab.
-/

namespace CuTile.Tiling

open Division

/-- Tile number `tile` starts within the extent, and what it covers of the extent
lies in slab number `block`. -/
structure Confined (extent slabSize tileSize block tile : Int) : Prop where
  nonneg : 0 ≤ tile * tileSize
  starts : tile * tileSize < extent
  covered : ∀ element, tile * tileSize ≤ element → element < (tile + 1) * tileSize →
    element < extent → block * slabSize ≤ element ∧ element < (block + 1) * slabSize

/-- Tiles of different slabs have no element of the extent in common. -/
theorem Confined.disjoint {extent slabSize tileSize block block' tile tile' : Int}
    (positive : 0 < slabSize)
    (first : Confined extent slabSize tileSize block tile)
    (second : Confined extent slabSize tileSize block' tile') (different : block ≠ block')
    {element : Int} (inside : element < extent)
    (inFirst : tile * tileSize ≤ element ∧ element < (tile + 1) * tileSize)
    (inSecond : tile' * tileSize ≤ element ∧ element < (tile' + 1) * tileSize) : False := by
  have owner := first.covered element inFirst.1 inFirst.2 inside
  have owner' := second.covered element inSecond.1 inSecond.2 inside
  have below : block < block' + 1 :=
    lt_of_mul_lt_mul_right (owner.1.trans_lt owner'.2) positive.le
  have above : block' < block + 1 :=
    lt_of_mul_lt_mul_right (owner'.1.trans_lt owner.2) positive.le
  omega

section Numbering

variable {extent slabSize tileSize : Int} {locate : Int → Int → Int}

/-- `locate` numbers the tiles slab by slab, as far as the extent reaches. -/
def Numbers (extent slabSize tileSize : Int) (locate : Int → Int → Int) : Prop :=
  ∀ block index, 0 ≤ block → 0 ≤ index →
    block * ceilQuotient slabSize tileSize + index ≤ extent →
      locate block index = block * ceilQuotient slabSize tileSize + index

/-- Every local tile of every slab is confined to it. -/
def AllConfined (extent slabSize tileSize : Int) (locate : Int → Int → Int) : Prop :=
  ∀ block index, 0 ≤ block → block < ceilQuotient extent slabSize → 0 ≤ index →
    index * tileSize < slabSize →
      Confined extent slabSize tileSize block (locate block index)

theorem count_pos {size tile : Int} (sizePositive : 0 < size) (tilePositive : 0 < tile) :
    0 < ceilQuotient size tile := by
  rw [lt_ceilQuotient_iff tilePositive]
  omega

theorem AllConfined.last_starts (extentPositive : 0 < extent) (slabPositive : 0 < slabSize)
    (tilePositive : 0 < tileSize) (numbers : Numbers extent slabSize tileSize locate)
    (confined : AllConfined extent slabSize tileSize locate) :
    (ceilQuotient extent slabSize * ceilQuotient slabSize tileSize - 1) * tileSize <
      extent := by
  by_contra beyond
  -- the first tile that starts outside is one of those the slabs address
  let first := ceilQuotient extent tileSize
  let perSlab := ceilQuotient slabSize tileSize
  have perSlabPositive : 0 < perSlab := count_pos slabPositive tilePositive
  have firstNonneg : 0 ≤ first := ceilQuotient_nonneg extentPositive.le tilePositive
  have addressed : first ≤ ceilQuotient extent slabSize * perSlab - 1 :=
    (ceilQuotient_le_iff tilePositive).mpr (not_lt.mp beyond)
  have split := Int.mul_ediv_add_emod first perSlab
  have blockNonneg : 0 ≤ first / perSlab := Int.ediv_nonneg firstNonneg perSlabPositive.le
  have blockInGrid : first / perSlab < ceilQuotient extent slabSize :=
    Int.ediv_lt_of_lt_mul perSlabPositive (by omega)
  have indexNonneg : 0 ≤ first % perSlab := Int.emod_nonneg _ perSlabPositive.ne'
  have indexAccepted : first % perSlab * tileSize < slabSize :=
    (lt_ceilQuotient_iff tilePositive).mp (Int.emod_lt_of_pos _ perSlabPositive)
  have isFirst : first / perSlab * perSlab + first % perSlab = first := by
    rw [mul_comm]
    exact split
  have small : first ≤ extent := ceilQuotient_le_self extentPositive.le tilePositive
  have located := numbers _ _ blockNonneg indexNonneg (isFirst.trans_le small)
  have starts := (confined _ _ blockNonneg blockInGrid indexNonneg indexAccepted).starts
  rw [located, isFirst] at starts
  exact absurd starts (not_lt.mpr ((ceilQuotient_le_iff tilePositive).mp le_rfl))

section

variable (slabPositive : 0 < slabSize)
  (tilePositive : 0 < tileSize)
  (numbers : Numbers extent slabSize tileSize locate)

include slabPositive tilePositive numbers

/-- When there is more than one slab, tiles fill slabs exactly. -/
theorem AllConfined.dvd (confined : AllConfined extent slabSize tileSize locate)
    (several : slabSize < extent) : tileSize ∣ slabSize := by
  let perSlab := ceilQuotient slabSize tileSize
  have perSlabPositive : 0 < perSlab := count_pos slabPositive tilePositive
  have accepted : (perSlab - 1) * tileSize < slabSize :=
    (lt_ceilQuotient_iff tilePositive).mp (sub_one_lt perSlab)
  have perSlabSmall : perSlab ≤ slabSize :=
    ceilQuotient_le_self slabPositive.le tilePositive
  have located := numbers 0 (perSlab - 1) le_rfl (by omega) (by omega)
  have tile := confined 0 (perSlab - 1) le_rfl
    (count_pos (slabPositive.trans several) slabPositive) (by omega) accepted
  rw [located, zero_mul, zero_add] at tile
  have covers : slabSize ≤ perSlab * tileSize :=
    (ceilQuotient_le_iff tilePositive).mp le_rfl
  by_contra ragged
  -- the element just after the first slab is in the last tile of the first slab
  have overhang : slabSize < (perSlab - 1 + 1) * tileSize := by
    rw [sub_add_cancel]
    exact lt_of_le_of_ne covers fun equal => ragged ⟨perSlab, by rw [equal, mul_comm]⟩
  have owner := tile.covered slabSize accepted.le overhang several
  rw [zero_add, one_mul] at owner
  exact absurd owner.2 (lt_irrefl _)

theorem allConfined_of (filled : extent ≤ slabSize ∨ tileSize ∣ slabSize)
    (lastStarts : (ceilQuotient extent slabSize * ceilQuotient slabSize tileSize - 1) *
      tileSize < extent) : AllConfined extent slabSize tileSize locate := by
  intro block index blockNonneg blockInGrid indexNonneg indexAccepted
  let perSlab := ceilQuotient slabSize tileSize
  have perSlabPositive : 0 < perSlab := count_pos slabPositive tilePositive
  have indexBelow : index < perSlab := (lt_ceilQuotient_iff tilePositive).mpr indexAccepted
  have tileNonneg : 0 ≤ block * perSlab + index :=
    add_nonneg (mul_nonneg blockNonneg perSlabPositive.le) indexNonneg
  have atMostLast : block * perSlab + index ≤ ceilQuotient extent slabSize * perSlab - 1 := by
    nlinarith
  have starts : (block * perSlab + index) * tileSize < extent :=
    (mul_le_mul_of_nonneg_right atMostLast tilePositive.le).trans_lt lastStarts
  have located := numbers block index blockNonneg indexNonneg (by nlinarith)
  have covers : slabSize ≤ perSlab * tileSize :=
    (ceilQuotient_le_iff tilePositive).mp le_rfl
  rw [located]
  refine ⟨mul_nonneg tileNonneg tilePositive.le, starts, ?_⟩
  intro element above below inside
  constructor
  · calc
      block * slabSize ≤ block * (perSlab * tileSize) :=
        mul_le_mul_of_nonneg_left covers blockNonneg
      _ = block * perSlab * tileSize := (mul_assoc _ _ _).symm
      _ ≤ (block * perSlab + index) * tileSize :=
        mul_le_mul_of_nonneg_right (by omega) tilePositive.le
      _ ≤ element := above
  · rcases filled with single | ⟨count, isCount⟩
    · have onlyBlock : block < 1 :=
        blockInGrid.trans_le ((ceilQuotient_le_iff slabPositive).mpr (by omega))
      have isFirst : block = 0 := by omega
      rw [isFirst]
      omega
    · have exactCount : perSlab ≤ count :=
        (ceilQuotient_le_iff tilePositive).mpr (by rw [isCount, mul_comm])
      calc
        element < (block * perSlab + index + 1) * tileSize := below
        _ ≤ (block * perSlab + perSlab) * tileSize :=
          mul_le_mul_of_nonneg_right (by omega) tilePositive.le
        _ = (block + 1) * (perSlab * tileSize) := by ring
        _ ≤ (block + 1) * slabSize := by
          apply mul_le_mul_of_nonneg_left _ (by omega)
          rw [isCount, mul_comm]
          exact mul_le_mul_of_nonneg_left exactCount tilePositive.le

end

/-- Numbering tiles slab by slab is confined exactly when tiles fill the slabs
(unless there is one slab only) and the last tile of the last slab starts inside. -/
theorem allConfined_iff (extentPositive : 0 < extent) (slabPositive : 0 < slabSize)
    (tilePositive : 0 < tileSize) (numbers : Numbers extent slabSize tileSize locate) :
    AllConfined extent slabSize tileSize locate ↔
      (extent ≤ slabSize ∨ tileSize ∣ slabSize) ∧
        (ceilQuotient extent slabSize * ceilQuotient slabSize tileSize - 1) * tileSize <
          extent := by
  constructor
  · intro confined
    refine ⟨?_, confined.last_starts extentPositive slabPositive tilePositive numbers⟩
    rcases le_or_gt extent slabSize with single | several
    · exact .inl single
    · exact .inr (confined.dvd slabPositive tilePositive numbers several)
  · rintro ⟨filled, lastStarts⟩
    exact allConfined_of slabPositive tilePositive numbers filled lastStarts

end Numbering

end CuTile.Tiling
