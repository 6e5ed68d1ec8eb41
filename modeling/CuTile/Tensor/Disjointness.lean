import CuTile.Foundation.MultiIndex
import CuTile.Tensor.Specialization

/-! # The disjointness flag

The specialization of a tensor says whether its elements are disjoint: in the order of
the strides, each axis has to step over the axis before it. The comparison is made with
products of `i32`, which wrap.
-/

namespace CuTile

open MultiIndex IntegerFormat List

def sortedAxes (shape strides : List Int) : List (Int × Int) :=
  (strides.zip shape).mergeSort fun left right =>
    left.1 < right.1 || (left.1 == right.1 && left.2 ≤ right.2)

/-- The reach of every axis but the widest is an `i32`. -/
def ReachesFit (shape strides : List Int) : Prop :=
  ∀ axis ∈ (sortedAxes shape strides).dropLast, axis.1 * axis.2 ≤ 2147483647

/-- A layout as a tensor holds it: machine values, a stride for every axis and no empty
axis. -/
structure LayoutFacts (shape strides : List Int) : Prop where
  rank : shape.length ≤ strides.length
  positive : ∀ dim ∈ shape, 0 < dim
  machine : ∀ stride ∈ strides, IntegerFormat.i32.Represents stride

def toAxis (axis : Int × Int) : Axis := (axis.1, axis.2.toNat)

section Flag

variable {shape strides : List Int}

/-- What the flag says of two axes that follow one another. -/
def Follows (narrow wide : Int × Int) : Prop :=
  0 < wide.1 ∧ IntegerFormat.i32.wrap (narrow.1 * narrow.2) ≤ wide.1

theorem all_zip_tail_iff_isChain {α : Type} {test : α × α → Bool} {axes : List α} :
    (axes.zip axes.tail).all test = true ↔
      axes.IsChain fun narrow wide => test (narrow, wide) = true := by
  induction axes with
  | nil => simp
  | cons _ axes induction =>
    cases axes with
    | nil => simp
    | cons =>
      rw [isChain_cons_cons, ← induction]
      simp

theorem elementsDisjoint_iff :
    elementsDisjoint shape strides = true ↔
      (∀ axis ∈ (sortedAxes shape strides).head?, 0 < axis.1) ∧
        (sortedAxes shape strides).IsChain Follows := by
  rw [elementsDisjoint, Bool.and_eq_true]
  apply and_congr
  · change (sortedAxes shape strides).head?.all (fun axis => 0 < axis.1) = true ↔ _
    cases (sortedAxes shape strides).head? <;> simp
  · apply all_zip_tail_iff_isChain.trans
    apply IsChain.iff
    intro _ _
    simp [Follows]

theorem map_toAxis_zip (shape strides : List Int) : (strides.zip shape).map toAxis =
    (strides.take shape.length).zip (shape.map Int.toNat) := by
  induction shape generalizing strides with
  | nil => simp
  | cons dim _ induction =>
    cases strides with
    | nil => rfl
    | cons stride strides =>
      exact congrArg (toAxis (stride, dim) :: ·) (induction strides)

theorem sortedAxes_perm (shape strides : List Int) :
    ((sortedAxes shape strides).map toAxis).Perm
      ((strides.take shape.length).zip (shape.map Int.toNat)) := by
  rw [← map_toAxis_zip]
  exact (mergeSort_perm _ _).map toAxis

theorem mem_sortedAxes {axis : Int × Int} (isMem : axis ∈ sortedAxes shape strides) :
    axis.1 ∈ strides ∧ axis.2 ∈ shape :=
  of_mem_zip ((mergeSort_perm _ _).subset isMem)

theorem positive_of_follows {axes : List (Int × Int)}
    (first : ∀ axis ∈ axes.head?, 0 < axis.1) (chain : axes.IsChain Follows) :
    ∀ axis ∈ axes, 0 < axis.1 := by
  induction axes with
  | nil => exact nofun
  | cons axis axes induction =>
    have firstRest : ∀ next ∈ axes.head?, 0 < next.1 := by
      intro _ isNext
      cases axes with
      | nil => cases isNext
      | cons =>
        cases isNext
        exact (isChain_cons_cons.mp chain).1.1
    rw [forall_mem_cons]
    exact ⟨first axis rfl, induction firstRest chain.tail⟩

/-- Products that do not wrap are compared as they are. -/
theorem covers_of_follows {axes : List (Int × Int)} (positive : ∀ axis ∈ axes, 0 < axis.1)
    (inhabited : ∀ axis ∈ axes, 0 < axis.2) (chain : axes.IsChain Follows)
    (fits : ∀ axis ∈ axes.dropLast, axis.1 * axis.2 ≤ 2147483647) :
    (axes.map toAxis).IsChain Covers := by
  induction axes with
  | nil => exact .nil
  | cons axis axes induction =>
    cases axes with
    | nil => exact .singleton _
    | cons next axes =>
      rcases isChain_cons_cons.mp chain with ⟨follows, chainRest⟩
      rcases forall_mem_cons.mp positive with ⟨here, positiveRest⟩
      rcases forall_mem_cons.mp inhabited with ⟨dim, inhabitedRest⟩
      rw [dropLast_cons_cons] at fits
      rcases forall_mem_cons.mp fits with ⟨fitsHere, fitsRest⟩
      have machine : i32.Represents (axis.1 * axis.2) := by
        have product : 0 < axis.1 * axis.2 := mul_pos here dim
        rw [represents_i32]
        omega
      have covers : Covers (toAxis axis) (toAxis next) := by
        have compared := follows.2
        rw [wrap_of_represents _ machine] at compared
        rw [Covers, toAxis, toAxis, Int.toNat_of_nonneg dim.le]
        exact compared
      exact isChain_cons_cons.mpr
        ⟨covers, induction positiveRest inhabitedRest chainRest fitsRest⟩

theorem disjoint_take_iff {dims : List Nat} :
    Disjoint dims (strides.take dims.length) ↔ Disjoint dims strides := by
  have same (index : List Nat) (within : Within index dims) :
      offset index (strides.take dims.length) = offset index strides := by
    induction within generalizing strides with
    | nil => rfl
    | cons _ _ induction =>
      cases strides with
      | nil => rfl
      | cons =>
        rw [length_cons, take_succ_cons, offset_cons, offset_cons, induction]
  constructor
  · intro disjoint first second isFirst isSecond sameOffset
    apply disjoint first second isFirst isSecond
    rw [same first isFirst, same second isSecond, sameOffset]
  · intro disjoint first second isFirst isSecond sameOffset
    apply disjoint first second isFirst isSecond
    rw [← same first isFirst, ← same second isSecond, sameOffset]

theorem disjoint_of_reachesFit (facts : LayoutFacts shape strides)
    (flag : elementsDisjoint shape strides = true) (fits : ReachesFit shape strides) :
    Disjoint (shape.map Int.toNat) strides := by
  rcases elementsDisjoint_iff.mp flag with ⟨first, chain⟩
  have positive := positive_of_follows first chain
  have inhabited : ∀ axis ∈ sortedAxes shape strides, 0 < axis.2 := by
    intro _ isMem
    exact facts.positive _ (mem_sortedAxes isMem).2
  have sameRank : (strides.take shape.length).length = (shape.map Int.toNat).length := by
    simp [facts.rank]
  rw [← disjoint_take_iff, length_map]
  apply disjoint_of_covers sameRank (sortedAxes_perm shape strides) _
    (covers_of_follows positive inhabited chain fits)
  intro _ isMem
  rcases mem_map.mp isMem with ⟨source, isSource, rfl⟩
  exact positive source isSource

theorem exists_split_of_mem_dropLast {α : Type} {axes : List α} {axis : α}
    (isMem : axis ∈ axes.dropLast) :
    ∃ before next after, axes = before ++ axis :: next :: after := by
  rcases append_of_mem isMem with ⟨before, between, isSplit⟩
  have nonempty : axes ≠ [] := by
    intro isEmpty
    rw [isEmpty] at isMem
    cases isMem
  have whole := dropLast_append_getLast nonempty
  rw [isSplit] at whole
  cases between with
  | nil => exact ⟨before, axes.getLast nonempty, [], by rw [append_cons, whole]⟩
  | cons next between =>
    refine ⟨before, next, between ++ [axes.getLast nonempty], ?_⟩
    rw [← cons_append, ← cons_append, ← append_assoc, whole]

/-- Where strides are multiples of one another, a wrapped product hides an overlap. -/
theorem reachesFit_of_disjoint (facts : LayoutFacts shape strides)
    (flag : elementsDisjoint shape strides = true)
    (several : ∀ dim ∈ shape, 2 ≤ dim)
    (multiples : (sortedAxes shape strides).IsChain fun narrow wide => narrow.1 ∣ wide.1)
    (disjoint : Disjoint (shape.map Int.toNat) strides) : ReachesFit shape strides := by
  rcases elementsDisjoint_iff.mp flag with ⟨first, chain⟩
  have positive := positive_of_follows first chain
  have sameRank : (strides.take shape.length).length = (shape.map Int.toNat).length := by
    simp [facts.rank]
  intro axis isMem
  rcases exists_split_of_mem_dropLast isMem with ⟨before, next, after, isSplit⟩
  have axisMem : axis ∈ sortedAxes shape strides := by simp [isSplit]
  have nextMem : next ∈ sortedAxes shape strides := by simp [isSplit]
  have perm := sortedAxes_perm shape strides
  rw [isSplit, map_append, map_cons, map_cons] at perm
  rw [isSplit, isChain_append_cons_cons] at multiples
  have inhabited : ∀ found ∈ before.map toAxis ++ toAxis axis :: toAxis next ::
      after.map toAxis, 0 < found.2 := by
    intro found isFound
    rw [← map_cons, ← map_cons, ← map_append, ← isSplit] at isFound
    rcases mem_map.mp isFound with ⟨source, isSource, rfl⟩
    have dim := facts.positive _ (mem_sortedAxes isSource).2
    change 0 < source.2.toNat
    omega
  have covers : Covers (toAxis axis) (toAxis next) := by
    apply covers_of_dvd sameRank perm inhabited _ (positive axis axisMem)
      (positive next nextMem) multiples.2.1
    · rw [← length_map (f := Int.toNat)]
      exact disjoint_take_iff.mpr disjoint
    · have dim := several _ (mem_sortedAxes nextMem).2
      change 2 ≤ next.2.toNat
      omega
  have dim := facts.positive _ (mem_sortedAxes axisMem).2
  have machine := facts.machine _ (mem_sortedAxes nextMem).1
  rw [Covers, toAxis, toAxis, Int.toNat_of_nonneg dim.le] at covers
  rw [represents_i32] at machine
  exact covers.trans machine.2

end Flag

/-- When the products of strides and extents are `i32` values, tensors with the flag have
disjoint elements. For strides that are multiples of one another there is no other case. -/
theorem elementsDisjoint_sound {shape strides : List Int} (ptr : Nat)
    (facts : LayoutFacts shape strides)
    (flag : (computeSpec ptr shape strides).elementsDisjoint = true) :
    (ReachesFit shape strides → Disjoint (shape.map Int.toNat) strides) ∧
      ((∀ dim ∈ shape, 2 ≤ dim) →
        (sortedAxes shape strides).IsChain (fun narrow wide => narrow.1 ∣ wide.1) →
        (Disjoint (shape.map Int.toNat) strides ↔ ReachesFit shape strides)) := by
  constructor
  · intro fits
    exact disjoint_of_reachesFit facts flag fits
  · intro several multiples
    constructor
    · intro disjoint
      exact reachesFit_of_disjoint facts flag several multiples disjoint
    · intro fits
      exact disjoint_of_reachesFit facts flag fits

/-- The axes of a column-major layout are sorted already. -/
theorem sortedAxes_of_pairwise {shape strides : List Int}
    (sorted : (strides.zip shape).Pairwise fun left right =>
      (left.1 < right.1 || (left.1 == right.1 && left.2 ≤ right.2)) = true) :
    sortedAxes shape strides = strides.zip shape :=
  mergeSort_of_pairwise sorted

theorem elementsDisjoint_sound_matrix :
    ∃ shape strides : List Int, (computeSpec 256 shape strides).elementsDisjoint = true ∧
      Disjoint (shape.map Int.toNat) strides := by
  have sorted : sortedAxes [4, 3] [1, 4] = [(1, 4), (4, 3)] :=
    sortedAxes_of_pairwise (by decide)
  have flag : (computeSpec 256 [4, 3] [1, 4]).elementsDisjoint = true := by
    rw [computeSpec, elementsDisjoint_iff, sorted]
    exact ⟨by decide, isChain_pair.mpr ⟨by decide, by decide⟩⟩
  refine ⟨[4, 3], [1, 4], flag, (elementsDisjoint_sound 256 ?_ flag).1 ?_⟩
  · exact ⟨by decide, by decide, by decide⟩
  · rw [ReachesFit, sorted]
    decide

/-- The product of the first stride and extent wraps to zero, so that the second stride
seems to step over it. -/
theorem elementsDisjoint_overlapping :
    ∃ shape strides first second, LayoutFacts shape strides ∧
      (computeSpec 256 shape strides).elementsDisjoint = true ∧
      Within first (shape.map Int.toNat) ∧ Within second (shape.map Int.toNat) ∧
      offset first strides = offset second strides ∧ first ≠ second := by
  have sorted : sortedAxes [65536, 2] [65536, 131072] = [(65536, 65536), (131072, 2)] :=
    sortedAxes_of_pairwise (by decide)
  have flag : (computeSpec 256 [65536, 2] [65536, 131072]).elementsDisjoint = true := by
    rw [computeSpec, elementsDisjoint_iff, sorted]
    exact ⟨by decide, isChain_pair.mpr ⟨by decide, by decide⟩⟩
  refine ⟨[65536, 2], [65536, 131072], [2, 0], [0, 1], ?_, flag, ?_, ?_, ?_, ?_⟩
  · exact ⟨by decide, by decide, by decide⟩
  · exact .cons (by decide) (.cons (by decide) .nil)
  · exact .cons (by decide) (.cons (by decide) .nil)
  · decide
  · decide

end CuTile
