import CuTile.Foundation.MultiIndex
import CuTile.Tensor.View

/-! # Which elements a view addresses

A slice keeps the strides of its source and moves its start; a view of another shape
computes new strides, and requires its source to be contiguous. Along any chain of such
calls the elements stay those of the tensor the chain began with.
-/

namespace CuTile

open MultiIndex IntegerFormat Fallible

/-- Where the elements of a tensor or of a view lie, from the start of its storage. -/
structure Layout where
  elementSize : Nat
  offsetBytes : Nat
  shape : List Int
  strides : List Int

def Tensor.layout (tensor : Tensor) : Layout :=
  ⟨tensor.elementSize, 0, tensor.shape, tensor.strides⟩

def TensorView.layout (view : TensorView) : Layout :=
  ⟨view.base.elementSize, view.offsetBytes, view.shape, view.strides⟩

namespace Layout

variable (layout : Layout)

def dims : List Nat := layout.shape.map Int.toNat

def byteOffset (index : List Nat) : Int :=
  layout.offsetBytes + layout.elementSize * offset index layout.strides

def elements : List Int := (all layout.dims).map layout.byteOffset

def Inside (bytes : Nat) : Prop :=
  ∀ index, Within index layout.dims →
    0 ≤ layout.byteOffset index ∧ layout.byteOffset index + layout.elementSize ≤ bytes

/-- A layout with elements, all of them in the storage. -/
structure Populated (bytes : Nat) : Prop where
  positive : ∀ dim ∈ layout.shape, 0 < dim
  count : layout.dims.prod < 2 ^ 31
  nonneg : ∀ stride ∈ layout.strides, 0 ≤ stride
  machine : ∀ stride ∈ layout.strides, IntegerFormat.i32.Represents stride
  inside : layout.Inside bytes

/-- A layout that fits a storage of so many bytes. An axis of extent zero leaves it
without elements, whatever the other axes are. -/
structure Fits (bytes : Nat) : Prop where
  sized : 0 < layout.elementSize
  storage : bytes < 2 ^ 64
  sameRank : layout.strides.length = layout.shape.length
  content : 0 ∈ layout.shape ∨ layout.Populated bytes

variable {layout}

theorem inside_iff_elements {bytes : Nat} :
    layout.Inside bytes ↔
      ∀ start ∈ layout.elements, 0 ≤ start ∧ start + layout.elementSize ≤ bytes := by
  simp only [elements, List.forall_mem_map, mem_all_iff]
  rfl

theorem not_within_of_zero_mem (empty : 0 ∈ layout.shape) (index : List Nat) :
    ¬Within index layout.dims := by
  intro within
  exact absurd (within.dim_pos 0 (List.mem_map.mpr ⟨0, empty, rfl⟩)) (lt_irrefl 0)

theorem Fits.inside {bytes : Nat} (fits : layout.Fits bytes) : layout.Inside bytes := by
  rcases fits.content with empty | populated
  · intro index within
    exact absurd within (not_within_of_zero_mem empty index)
  · exact populated.inside

theorem elements_of_zero_mem (empty : 0 ∈ layout.shape) : layout.elements = [] := by
  rw [elements, List.map_eq_nil_iff, List.eq_nil_iff_forall_not_mem]
  intro index isMem
  exact not_within_of_zero_mem empty index (mem_all_iff.mp isMem)

end Layout

/-! ## Slices -/

def sliceStarts : List SliceRange → List Int → List Nat
  | range :: ranges, _ :: shape => range.start :: sliceStarts ranges shape
  | [], _ :: shape => 0 :: sliceStarts [] shape
  | _, [] => []

inductive Cut : List SliceRange → List Int → List Int → Prop
  | whole (shape : List Int) : Cut [] shape shape
  | range {range : SliceRange} {dim : Int} {ranges : List SliceRange}
      {shape newShape : List Int} (ordered : range.start ≤ range.stop)
      (inAxis : range.stop ≤ Usize.ofI32 dim) (rest : Cut ranges shape newShape) :
      Cut (range :: ranges) (dim :: shape)
        (IntegerFormat.i32.wrap ((range.stop - range.start : Nat) : Int) :: newShape)

section Slices

variable {ranges : List SliceRange} {shape strides newShape : List Int}

@[simp] theorem sliceStarts_length (ranges : List SliceRange) (shape : List Int) :
    (sliceStarts ranges shape).length = shape.length := by
  induction shape generalizing ranges with
  | nil => cases ranges <;> rfl
  | cons _ _ induction =>
    cases ranges with
    | nil => exact congrArg (· + 1) (induction [])
    | cons _ ranges => exact congrArg (· + 1) (induction ranges)

theorem sliceStarts_nil (shape : List Int) :
    sliceStarts [] shape = List.replicate shape.length 0 := by
  induction shape with
  | nil => rfl
  | cons _ _ induction => exact congrArg (0 :: ·) induction

theorem Usize.ofI32_of_nonneg {value : Int} (nonneg : 0 ≤ value)
    (machine : i32.Represents value) : Usize.ofI32 value = value.toNat := by
  rw [represents_i32] at machine
  rw [Usize.ofI32, Int.emod_eq_of_lt nonneg (by omega)]

theorem sliceAxes_spec {skipped total : Nat}
    {cut : {newShape : List Int // newShape.length = shape.length}}
    (ok : sliceAxes skipped ranges shape strides = .ok (total, cut))
    (enough : ranges.length ≤ shape.length) (sameRank : strides.length = shape.length) :
    Cut ranges shape cut.1 ∧
      ((∀ stride ∈ strides, 0 ≤ stride) →
        (∀ stride ∈ strides, i32.Represents stride) →
        Usize.wrap total =
          Usize.wrap (skipped + (offset (sliceStarts ranges shape) strides).toNat)) := by
  induction ranges generalizing shape strides skipped with
  | nil =>
    have isWhole : sliceAxes skipped [] shape strides = .ok (skipped, ⟨shape, rfl⟩) := by
      rw [sliceAxes]
      intros
      contradiction
    rw [isWhole] at ok
    cases ok
    refine ⟨.whole shape, fun _ _ => ?_⟩
    rw [sliceStarts_nil, offset_zeros, Int.toNat_zero, add_zero]
  | cons range ranges induction =>
    cases shape with
    | nil => exact absurd enough (by simp)
    | cons dim shape =>
      rcases List.exists_cons_of_length_eq_add_one sameRank with ⟨stride, rest, rfl⟩
      rw [sliceAxes] at ok
      split_ifs at ok with outside
      rw [not_or, not_lt, not_lt] at outside
      rcases bind_eq_ok_iff.mp ok with ⟨⟨found, later⟩, isLater, built⟩
      cases built
      rcases induction isLater (Nat.le_of_succ_le_succ enough) (Nat.succ.inj sameRank)
        with ⟨cutRest, offsetRest⟩
      refine ⟨.range outside.1 outside.2 cutRest, ?_⟩
      intro nonneg machine
      rcases List.forall_mem_cons.mp nonneg with ⟨here, nonnegRest⟩
      rcases List.forall_mem_cons.mp machine with ⟨hereMachine, machineRest⟩
      have laterNonneg := offset_nonneg nonnegRest (sliceStarts ranges shape)
      have product : (range.start : Int) * stride =
          ((range.start * stride.toNat : Nat) : Int) := by
        rw [Int.natCast_mul, Int.toNat_of_nonneg here]
      have split : ((range.start : Int) * stride +
          offset (sliceStarts ranges shape) rest).toNat =
          range.start * stride.toNat + (offset (sliceStarts ranges shape) rest).toNat := by
        rw [product, Int.toNat_add (Int.natCast_nonneg _) laterNonneg, Int.toNat_natCast]
      rw [offsetRest nonnegRest machineRest, Usize.ofI32_of_nonneg here hereMachine,
        sliceStarts, offset_cons, split]
      unfold Usize.wrap
      omega

theorem Cut.zero_mem (cut : Cut ranges shape newShape) (empty : 0 ∈ shape) : 0 ∈ newShape := by
  induction cut with
  | whole shape => exact empty
  | @range range dim _ _ _ ordered inAxis _ induction =>
    rcases List.mem_cons.mp empty with here | later
    · rw [← here] at inAxis
      have stops : range.stop = 0 := Nat.le_zero.mp inAxis
      have nothing : range.stop - range.start = 0 := by omega
      rw [nothing]
      exact List.mem_cons_self
    · exact List.mem_cons_of_mem _ (induction later)

/-- Extents as they are when none is negative. -/
def Extents (shape : List Int) : Prop :=
  ∀ dim ∈ shape, 0 ≤ dim ∧ IntegerFormat.i32.Represents dim

theorem slice_extent {range : SliceRange} {dim : Int} (nonneg : 0 ≤ dim)
    (machine : i32.Represents dim) (inAxis : range.stop ≤ Usize.ofI32 dim) :
    i32.wrap ((range.stop - range.start : Nat) : Int) =
      (range.stop - range.start : Nat) ∧ range.stop ≤ dim.toNat := by
  rw [Usize.ofI32_of_nonneg nonneg machine] at inAxis
  rw [represents_i32] at machine
  exact ⟨wrap_i32 (by omega), inAxis⟩

/-- The elements of a slice are elements of its source. -/
theorem Cut.within_add (cut : Cut ranges shape newShape) (extents : Extents shape)
    {index : List Nat} (within : Within index (newShape.map Int.toNat)) :
    Within (List.zipWith (· + ·) index (sliceStarts ranges shape)) (shape.map Int.toNat) := by
  induction cut generalizing index with
  | whole shape =>
    have sameLength : index.length = shape.length :=
      within.length_eq.trans (List.length_map _)
    rw [sliceStarts_nil, ← sameLength, zipWith_add_zeros]
    exact within
  | @range range dim _ _ _ ordered inAxis _ induction =>
    rcases List.forall_mem_cons.mp extents with ⟨here, rest⟩
    rcases slice_extent here.1 here.2 inAxis with ⟨isExtent, inside⟩
    rw [List.map_cons, isExtent, Int.toNat_natCast] at within
    cases within with
    | @cons i _ index _ below within =>
      have moved : i + range.start < dim.toNat := by omega
      exact .cons moved (induction rest within)

theorem Cut.extents (cut : Cut ranges shape newShape) (extents : Extents shape) :
    Extents newShape := by
  induction cut with
  | whole => exact extents
  | range _ inAxis _ induction =>
    rcases List.forall_mem_cons.mp extents with ⟨here, rest⟩
    rcases slice_extent here.1 here.2 inAxis with ⟨isExtent, _⟩
    apply List.forall_mem_cons.mpr ⟨⟨_, wrap_represents _ _⟩, induction rest⟩
    rw [isExtent]
    exact Int.natCast_nonneg _

theorem Cut.prod_le (cut : Cut ranges shape newShape) (extents : Extents shape) :
    (newShape.map Int.toNat).prod ≤ (shape.map Int.toNat).prod := by
  induction cut with
  | whole => exact le_rfl
  | range _ inAxis _ induction =>
    rcases List.forall_mem_cons.mp extents with ⟨here, rest⟩
    rcases slice_extent here.1 here.2 inAxis with ⟨isExtent, inside⟩
    rw [List.map_cons, List.map_cons, List.prod_cons, List.prod_cons, isExtent,
      Int.toNat_natCast]
    exact Nat.mul_le_mul ((Nat.sub_le _ _).trans inside) (induction rest)

end Slices

namespace Layout

variable {before : Layout} {bytes skipped : Nat} {ranges : List SliceRange}
  {newShape : List Int}

def slice (before : Layout) (skipped : Nat) (newShape : List Int) : Layout :=
  { before with
    offsetBytes := Usize.wrap (before.offsetBytes + skipped)
    shape := newShape }

theorem Populated.dims_pos (populated : before.Populated bytes) :
    ∀ dim ∈ before.dims, 0 < dim := by
  intro dim isDim
  rcases List.mem_map.mp isDim with ⟨extent, isExtent, rfl⟩
  have positive := populated.positive extent isExtent
  omega

theorem Populated.extents (populated : before.Populated bytes) : Extents before.shape := by
  intro dim isDim
  have positive := populated.positive dim isDim
  have atMost : dim.toNat ≤ before.dims.prod :=
    dim_le_prod populated.dims_pos _ (List.mem_map_of_mem isDim)
  have small := populated.count
  rw [represents_i32]
  omega

/-- An element of a slice is an element of its source, so that nothing wraps. -/
theorem slice_byteOffset {total : Nat} {start index : List Nat}
    (populated : before.Populated bytes) (storage : bytes < 2 ^ 64)
    (wrapped : Usize.wrap total = Usize.wrap (offset start before.strides).toNat)
    (sameLength : index.length = start.length)
    (within : Within (List.zipWith (· + ·) index start) before.dims) :
    (before.slice (Usize.wrap (total * before.elementSize)) newShape).byteOffset index =
      before.byteOffset (List.zipWith (· + ·) index start) := by
  have inside := (populated.inside _ within).2
  have indexNonneg := offset_nonneg populated.nonneg index
  have isStart := Int.toNat_of_nonneg (offset_nonneg populated.nonneg start)
  generalize (offset start before.strides).toNat = first at wrapped isStart
  rw [byteOffset, offset_add sameLength, ← isStart, mul_add] at inside
  have fits : before.offsetBytes + before.elementSize * first < 2 ^ 64 := by
    have product : 0 ≤ (before.elementSize : Int) * offset index before.strides :=
      mul_nonneg (Int.natCast_nonneg _) indexNonneg
    have bound : (before.offsetBytes : Int) + (before.elementSize * first : Nat) ≤ bytes := by
      push_cast
      linarith
    omega
  have product : Usize.wrap (total * before.elementSize) =
      Usize.wrap (before.elementSize * first) := by
    rw [mul_comm before.elementSize]
    exact Nat.ModEq.mul_right before.elementSize wrapped
  have skips : Usize.wrap (before.offsetBytes + Usize.wrap (total * before.elementSize)) =
      before.offsetBytes + before.elementSize * first := by
    rw [product]
    unfold Usize.wrap
    omega
  rw [byteOffset, byteOffset, offset_add sameLength, ← isStart, slice]
  simp only [skips]
  push_cast
  ring

/-- A slice of a layout that fits its storage fits it too, and moves each index by the
starts of the ranges. -/
theorem slice_spec {kept : {newShape : List Int // newShape.length = before.shape.length}}
    (fits : before.Fits bytes)
    (ok : sliceBytes before.elementSize ranges before.shape before.strides =
      .ok (skipped, kept)) :
    (before.slice skipped kept.1).Fits bytes ∧
      ∀ index, Within index (before.slice skipped kept.1).dims →
        Within (List.zipWith (· + ·) index (sliceStarts ranges before.shape)) before.dims ∧
        (before.slice skipped kept.1).byteOffset index =
          before.byteOffset (List.zipWith (· + ·) index (sliceStarts ranges before.shape)) := by
  rw [sliceBytes] at ok
  by_cases more : before.shape.length < ranges.length
  · rw [if_pos more] at ok
    cases ok
  rw [if_neg more] at ok
  rcases bind_eq_ok_iff.mp ok with ⟨⟨total, found⟩, isSliced, built⟩
  cases built
  have enough : ranges.length ≤ before.shape.length := not_lt.mp more
  rcases sliceAxes_spec isSliced enough fits.sameRank with ⟨cut, skips⟩
  have sameRank : before.strides.length = kept.1.length :=
    fits.sameRank.trans kept.2.symm
  rcases fits.content with empty | populated
  · -- neither layout has elements
    refine ⟨⟨fits.sized, fits.storage, sameRank, .inl (cut.zero_mem empty)⟩, ?_⟩
    intro index within
    exact absurd within (not_within_of_zero_mem (cut.zero_mem empty) index)
  · have wrapped := skips populated.nonneg populated.machine
    rw [zero_add] at wrapped
    have moves : ∀ index, Within index (kept.1.map Int.toNat) →
        Within (List.zipWith (· + ·) index (sliceStarts ranges before.shape)) before.dims ∧
        (before.slice (Usize.wrap (total * before.elementSize)) kept.1).byteOffset index =
          before.byteOffset
            (List.zipWith (· + ·) index (sliceStarts ranges before.shape)) := by
      intro index within
      have moved := cut.within_add populated.extents within
      have sameLength : index.length = (sliceStarts ranges before.shape).length := by
        rw [sliceStarts_length, within.length_eq, List.length_map, kept.2]
      exact ⟨moved, slice_byteOffset populated fits.storage wrapped sameLength moved⟩
    refine ⟨⟨fits.sized, fits.storage, sameRank, ?_⟩, moves⟩
    by_cases empty : 0 ∈ kept.1
    · exact .inl empty
    · right
      constructor
      · intro dim isDim
        have nonneg := (cut.extents populated.extents dim isDim).1
        have nonzero : dim ≠ 0 := fun isZero => empty (isZero ▸ isDim)
        omega
      · exact (cut.prod_le populated.extents).trans_lt populated.count
      · exact populated.nonneg
      · exact populated.machine
      · intro index within
        rcases moves index within with ⟨moved, isMoved⟩
        rw [isMoved]
        exact populated.inside _ moved

end Layout

/-! ## Views of another shape -/

section Views

theorem stridesAndSize_eq {dims : List Nat} (positive : ∀ dim ∈ dims, 0 < dim)
    (small : dims.prod < 2 ^ 31) :
    stridesAndSize (dims.map Nat.cast) = (rowMajorStrides dims, (dims.prod : Int)) := by
  induction dims with
  | nil => rfl
  | cons dim dims induction =>
    rcases List.forall_mem_cons.mp positive with ⟨here, rest⟩
    rw [List.prod_cons] at small
    have smallRest : dims.prod < 2 ^ 31 :=
      (Nat.le_mul_of_pos_left dims.prod here).trans_lt small
    have machine : i32.Represents ((dims.prod : Int) * dim) := by
      rw [represents_i32, mul_comm]
      omega
    rw [List.map_cons, stridesAndSize, induction rest smallRest]
    simp only [rowMajorStrides, List.prod_cons, wrap_of_represents _ machine]
    rw [mul_comm, Nat.cast_mul]

theorem contiguousStrides_represents (shape : List Int) :
    ∀ stride ∈ contiguousStrides shape, i32.Represents stride := by
  have size (shape : List Int) : i32.Represents (stridesAndSize shape).2 := by
    cases shape with
    | nil => decide
    | cons => exact wrap_represents _ _
  induction shape with
  | nil => exact List.forall_mem_nil _
  | cons _ shape induction => exact List.forall_mem_cons.mpr ⟨size shape, induction⟩

theorem contiguousStrides_eq {dims : List Nat} (positive : ∀ dim ∈ dims, 0 < dim)
    (small : dims.prod < 2 ^ 31) :
    contiguousStrides (dims.map Nat.cast) = rowMajorStrides dims := by
  rw [contiguousStrides, stridesAndSize_eq positive small]

theorem viewShape_eq {target : List Nat} (small : ∀ dim ∈ target, dim < 2 ^ 31) :
    viewShape target = target.map Nat.cast := by
  rw [viewShape_eq_map]
  apply List.map_congr_left
  intro dim isDim
  have below := small dim isDim
  exact wrap_i32 (by omega)

theorem map_cast_toNat {shape : List Int} (nonneg : ∀ dim ∈ shape, 0 ≤ dim) :
    (shape.map Int.toNat).map Nat.cast = shape := by
  rw [List.map_map]
  apply (List.map_congr_left _).trans (List.map_id shape)
  intro dim isDim
  exact Int.toNat_of_nonneg (nonneg dim isDim)

end Views

namespace Layout

variable {before : Layout} {bytes : Nat} {target : List Nat}

def view (before : Layout) (target : List Nat) : Layout :=
  { before with
    shape := viewShape target
    strides := contiguousStrides (viewShape target) }

theorem elements_eq {layout : Layout} {dims : List Nat} (isDims : layout.dims = dims)
    (contiguous : layout.strides = rowMajorStrides dims) :
    layout.elements = (List.range dims.prod).map fun position : Nat =>
      (layout.offsetBytes : Int) + layout.elementSize * (position : Int) := by
  have numbered := congrArg (List.map fun position : Int =>
    (layout.offsetBytes : Int) + layout.elementSize * position) (map_offset_all dims)
  rw [List.map_map, List.map_map, ← contiguous] at numbered
  rw [elements, isDims]
  exact numbered

/-- A view without elements, of a layout without elements. -/
theorem zero_mem_view (empty : 0 ∈ before.shape) (sameCount : target.prod = before.dims.prod) :
    0 ∈ (before.view target).shape := by
  have noElements : before.dims.prod = 0 :=
    List.prod_eq_zero (List.mem_map.mpr ⟨0, empty, rfl⟩)
  have emptyTarget : 0 ∈ target := List.prod_eq_zero_iff.mp (sameCount.trans noElements)
  rw [view, viewShape_eq_map]
  exact List.mem_map.mpr ⟨0, emptyTarget, by decide⟩

/-- A view of a layout that fits its storage fits it too, and has the same elements. -/
theorem view_spec (fits : before.Fits bytes)
    (ok : validateViewShapeFor before.elementSize before.shape before.strides target =
      .ok ()) :
    (before.view target).Fits bytes ∧ (before.view target).elements = before.elements := by
  rcases validateViewShapeFor_eq_ok ok fits.sized with ⟨contiguous, nonneg, sameCount⟩
  have sameRank : (before.view target).strides.length = (before.view target).shape.length :=
    contiguousStrides_length _
  rcases fits.content with empty | populated
  · have emptyTarget := zero_mem_view empty sameCount
    refine ⟨⟨fits.sized, fits.storage, sameRank, .inl emptyTarget⟩, ?_⟩
    rw [elements_of_zero_mem emptyTarget, elements_of_zero_mem empty]
  · have count : target.prod < 2 ^ 31 := sameCount.trans_lt populated.count
    have positive : ∀ dim ∈ target, 0 < dim := by
      intro _ isDim
      apply Nat.pos_of_ne_zero
      intro isZero
      have noElements : before.dims.prod = 0 :=
        sameCount.symm.trans (List.prod_eq_zero (isZero ▸ isDim))
      exact lt_irrefl 0 (populated.dims_pos 0 (List.prod_eq_zero_iff.mp noElements))
    have isShape : (before.view target).shape = target.map Nat.cast := by
      apply viewShape_eq
      intro dim isDim
      exact (dim_le_prod positive dim isDim).trans_lt count
    have isDims : (before.view target).dims = target := by
      rw [dims, isShape, List.map_map]
      exact List.map_id target
    have isStrides : (before.view target).strides = rowMajorStrides target := by
      rw [← contiguousStrides_eq positive count, ← isShape]
      rfl
    have wasContiguous : before.strides = rowMajorStrides before.dims := by
      rw [contiguous, ← contiguousStrides_eq populated.dims_pos populated.count, dims,
        map_cast_toNat nonneg]
    have sameElements : (before.view target).elements = before.elements := by
      rw [elements_eq isDims isStrides, elements_eq rfl wasContiguous, sameCount]
      rfl
    refine ⟨⟨fits.sized, fits.storage, sameRank, .inr ⟨?_, ?_, ?_, ?_, ?_⟩⟩, sameElements⟩
    · intro dim isDim
      rw [isShape] at isDim
      rcases List.mem_map.mp isDim with ⟨extent, isExtent, rfl⟩
      exact Int.natCast_pos.mpr (positive extent isExtent)
    · rw [isDims]
      exact count
    · rw [isStrides]
      exact rowMajorStrides_nonneg target
    · exact contiguousStrides_represents _
    · rw [inside_iff_elements, sameElements]
      exact inside_iff_elements.mp populated.inside

end Layout

/-! ## Chains of calls -/

/-- What a call owes to its source: a slice's element is the source's element moved by
the starts of the ranges, and a view's elements are the source's, both in row-major
order. -/
def ViewCall.Keeps (before after : Layout) : ViewCall → Prop
  | .slice ranges => ∀ index, Within index after.dims →
      Within (List.zipWith (· + ·) index (sliceStarts ranges before.shape)) before.dims ∧
      after.byteOffset index =
        before.byteOffset (List.zipWith (· + ·) index (sliceStarts ranges before.shape))
  | .view _ => after.elements = before.elements

theorem sliceBytes_lt {elementSize skipped : Nat} {ranges : List SliceRange}
    {shape strides : List Int}
    {kept : {newShape : List Int // newShape.length = shape.length}}
    (ok : sliceBytes elementSize ranges shape strides = .ok (skipped, kept)) :
    skipped < 2 ^ 64 := by
  rw [sliceBytes] at ok
  by_cases more : shape.length < ranges.length
  · rw [if_pos more] at ok
    cases ok
  rw [if_neg more] at ok
  rcases bind_eq_ok_iff.mp ok with ⟨⟨_, _⟩, _, built⟩
  cases built
  exact Nat.mod_lt _ (by decide)

variable {tensor : Tensor} {view : TensorView} {bytes : Nat}

theorem ViewCall.onTensor_spec {call : ViewCall} (fits : tensor.layout.Fits bytes)
    (ok : call.onTensor tensor = .ok view) :
    view.layout.Fits bytes ∧ call.Keeps tensor.layout view.layout := by
  cases call with
  | view =>
    rcases bind_eq_ok_iff.mp ok with ⟨_, valid, built⟩
    cases built
    exact Layout.view_spec fits valid
  | slice =>
    rcases bind_eq_ok_iff.mp ok with ⟨⟨skipped, _⟩, sliced, built⟩
    cases built
    have starts : Usize.wrap (tensor.layout.offsetBytes + skipped) = skipped := by
      rw [Tensor.layout, zero_add, Usize.wrap, Nat.mod_eq_of_lt (sliceBytes_lt sliced)]
    have spec := Layout.slice_spec fits sliced
    rw [Layout.slice, starts] at spec
    exact spec

theorem ViewCall.onView_spec {call : ViewCall} {before : TensorView}
    (fits : before.layout.Fits bytes) (ok : call.onView before = .ok view) :
    view.layout.Fits bytes ∧ call.Keeps before.layout view.layout := by
  cases call with
  | view =>
    rcases bind_eq_ok_iff.mp ok with ⟨_, valid, built⟩
    cases built
    exact Layout.view_spec fits valid
  | slice =>
    rcases bind_eq_ok_iff.mp ok with ⟨⟨_, _⟩, sliced, built⟩
    cases built
    exact Layout.slice_spec fits sliced

theorem Tensor.run_fits {first : ViewCall} {rest : List ViewCall}
    (fits : tensor.layout.Fits bytes) (ok : tensor.run first rest = .ok view) :
    view.layout.Fits bytes := by
  induction rest using List.reverseRecOn generalizing view with
  | nil =>
    rw [Tensor.run_nil] at ok
    exact (ViewCall.onTensor_spec fits ok).1
  | append_singleton _ _ induction =>
    rw [Tensor.run_concat] at ok
    rcases bind_eq_ok_iff.mp ok with ⟨_, isBefore, isView⟩
    exact (ViewCall.onView_spec (induction isBefore) isView).1

/-- A tensor of fewer than `2 ^ 31` elements whose shape and strides fit a storage of so
many bytes. -/
structure Tensor.Stored (tensor : Tensor) (bytes : Nat) : Prop where
  sized : 0 < tensor.elementSize
  storage : bytes < 2 ^ 64
  extents : ∀ dim ∈ tensor.shape, 0 ≤ dim
  count : tensor.layout.dims.prod < 2 ^ 31
  nonneg : ∀ stride ∈ tensor.strides, 0 ≤ stride
  machine : ∀ stride ∈ tensor.strides, IntegerFormat.i32.Represents stride
  inside : tensor.layout.Inside bytes

theorem Tensor.Stored.fits (stored : tensor.Stored bytes) : tensor.layout.Fits bytes := by
  refine ⟨stored.sized, stored.storage, tensor.sameRank, ?_⟩
  by_cases empty : 0 ∈ tensor.shape
  · exact .inl empty
  · right
    refine ⟨?_, stored.count, stored.nonneg, stored.machine, stored.inside⟩
    intro dim isDim
    have nonneg := stored.extents dim isDim
    have nonzero : dim ≠ 0 := fun isZero => empty (isZero ▸ isDim)
    omega

/-- Along a chain of slices and views every element lies in the tensor's storage, and
every call keeps the elements of what it was called on. -/
theorem run_addresses {tensor : Tensor} {bytes : Nat} (stored : tensor.Stored bytes) :
    (∀ first rest view, tensor.run first rest = .ok view → view.layout.Inside bytes) ∧
    (∀ (first : ViewCall) view, first.onTensor tensor = .ok view →
      first.Keeps tensor.layout view.layout) ∧
    ∀ first rest before (call : ViewCall) view, tensor.run first rest = .ok before →
      call.onView before = .ok view → call.Keeps before.layout view.layout := by
  refine ⟨?_, ?_, ?_⟩
  · intro first rest view ok
    exact (Tensor.run_fits stored.fits ok).inside
  · intro first view ok
    exact (ViewCall.onTensor_spec stored.fits ok).2
  · intro first rest before call view isBefore isView
    exact (ViewCall.onView_spec (Tensor.run_fits stored.fits isBefore) isView).2

/-- A view of the last four of eight elements. -/
theorem run_addresses_slice :
    ∃ view, eightFloats.run (.slice [⟨4, 8⟩]) [.view [2, 2]] = .ok view ∧
      view.layout.Inside 32 ∧ view.layout.elements = [16, 20, 24, 28] := by
  have stored : eightFloats.Stored 32 := by
    refine ⟨by decide, by decide, by decide, by decide, by decide, by decide, ?_⟩
    rw [Layout.inside_iff_elements]
    decide
  have ok : ∃ view, eightFloats.run (.slice [⟨4, 8⟩]) [.view [2, 2]] = .ok view ∧
      view.layout.elements = [16, 20, 24, 28] := ⟨_, rfl, by decide⟩
  rcases ok with ⟨view, ok, isElements⟩
  exact ⟨view, ok, (run_addresses stored).1 _ _ view ok, isElements⟩

end CuTile
