import CuTile.Tensor.Addressing
import Mathlib.Algebra.BigOperators.Ring.Finset

/-! # Reshaping a tensor

Reshapes, reinterpretations and views take a shape of `usize` extents, compare its size
with that of the source and store the extents as `i32`. This module says when what is
stored is what was asked for.
-/

namespace CuTile

open IntegerFormat Fallible

/-- The same storage under a shape that is stored row-major. -/
def Tensor.reshapeUnchecked (tensor : Tensor) (shape : List Nat) : Tensor :=
  let newShape := viewShape shape
  { tensor with
    shape := newShape
    strides := contiguousStrides newShape
    sameRank := contiguousStrides_length newShape }

def Tensor.reshape (tensor : Tensor) (shape : List Nat) : Except String Tensor := do
  validateViewShapeFor tensor.elementSize tensor.shape tensor.strides shape
  return tensor.reshapeUnchecked shape

def Tensor.reshapeShared (tensor : Tensor) (shape : List Nat) : Except String Tensor := do
  validateViewShapeFor tensor.elementSize tensor.shape tensor.strides shape
  let newShape := viewShape shape
  return {
    storage := tensor.storage
    elementSize := tensor.elementSize
    shape := newShape
    strides := contiguousStrides newShape
    sameRank := contiguousStrides_length newShape }

/-- The bytes a tensor's shape stands for. The source panics on an invalid shape; here
that is an error. -/
def Tensor.typedNumBytes (tensor : Tensor) : Except String Nat :=
  match checkedNumElementsI32 tensor.shape >>= checkedNumBytes tensor.elementSize with
  | .ok bytes => .ok bytes
  | .error _ => .error "Tensor shape contains invalid dimensions or overflows."

structure ElementKind where
  size : Nat
  alignment : Nat

def Tensor.validateReinterpretShape (tensor : Tensor) (kind : ElementKind)
    (shape : List Nat) : Except String Unit := do
  if tensor.strides ≠ contiguousStrides tensor.shape then
    throw "Zero-copy reinterpret requires contiguous storage."
  let targetNumBytes ← checkedNumBytes kind.size (← checkedNumElements shape)
  if targetNumBytes ≠ (← tensor.typedNumBytes) then
    throw "Reinterpret shape must preserve total byte size."
  if 1 < kind.alignment ∧ ¬kind.alignment ∣ tensor.storage.specPtr then
    throw "Tensor storage alignment is incompatible with reinterpret target type."

def Tensor.reinterpret (tensor : Tensor) (kind : ElementKind) (shape : List Nat) :
    Except String Tensor := do
  tensor.validateReinterpretShape kind shape
  let newShape := viewShape shape
  return {
    storage := tensor.storage
    elementSize := kind.size
    shape := newShape
    strides := contiguousStrides newShape
    sameRank := contiguousStrides_length newShape }

/-- A call that gives a tensor or a view the requested shape, with the layouts of its
source and of its result. -/
inductive Accepts (requested : List Nat) : Layout → Layout → Prop
  | reshape {tensor result : Tensor} (ok : tensor.reshape requested = .ok result) :
      Accepts requested tensor.layout result.layout
  | reshapeShared {tensor result : Tensor} (ok : tensor.reshapeShared requested = .ok result) :
      Accepts requested tensor.layout result.layout
  | reinterpret {tensor result : Tensor} (kind : ElementKind)
      (ok : tensor.reinterpret kind requested = .ok result) :
      Accepts requested tensor.layout result.layout
  | tensorView {tensor : Tensor} {view : TensorView} (ok : tensor.view requested = .ok view) :
      Accepts requested tensor.layout view.layout
  | viewView {before view : TensorView} (ok : before.view requested = .ok view) :
      Accepts requested before.layout view.layout

def Layout.numBytes (layout : Layout) : Int := layout.shape.prod * layout.elementSize

/-- The result has the requested extents, as many bytes as its source and, for elements of
the same size, as many elements. -/
structure Layout.HasShape (requested : List Nat) (source result : Layout) : Prop where
  extents : result.shape = requested.map Nat.cast
  bytes : result.numBytes = source.numBytes
  elements : result.elementSize = source.elementSize → result.shape.prod = source.shape.prod

section Accepted

variable {requested : List Nat}

theorem viewShape_eq_iff :
    viewShape requested = requested.map Nat.cast ↔ ∀ dim ∈ requested, dim ≤ 2147483647 := by
  rw [viewShape_eq_map, List.map_inj_left]
  apply forall₂_congr
  intro dim _
  constructor
  · intro same
    have machine := wrap_represents i32 (dim : Int)
    rw [same, represents_i32] at machine
    omega
  · intro small
    exact wrap_i32 (by omega)

theorem prod_eq_of_nonneg {shape : List Int} (nonneg : ∀ dim ∈ shape, 0 ≤ dim) :
    shape.prod = ((shape.map Int.toNat).prod : Nat) := by
  rw [Nat.cast_list_prod, map_cast_toNat nonneg]

/-- What every accepting call has checked, and what it stores. -/
structure Checked (requested : List Nat) (source result : Layout) : Prop where
  stored : result.shape = viewShape requested
  nonneg : ∀ dim ∈ source.shape, 0 ≤ dim
  sameBytes : requested.prod * result.elementSize = source.dims.prod * source.elementSize

theorem checked_of_view {source result : Layout} (sized : 0 < source.elementSize)
    (valid : validateViewShapeFor source.elementSize source.shape source.strides requested =
      .ok ())
    (stored : result.shape = viewShape requested)
    (sameSize : result.elementSize = source.elementSize) :
    Checked requested source result := by
  rcases validateViewShapeFor_eq_ok valid sized with ⟨_, nonneg, sameCount⟩
  exact ⟨stored, nonneg, by rw [sameCount, sameSize, Layout.dims]⟩

theorem checked_of_reinterpret {tensor result : Tensor} {kind : ElementKind}
    (ok : tensor.reinterpret kind requested = .ok result) :
    Checked requested tensor.layout result.layout := by
  rcases bind_eq_ok_iff.mp ok with ⟨_, valid, built⟩
  cases built
  rw [Tensor.validateReinterpretShape] at valid
  by_cases strided : tensor.strides ≠ contiguousStrides tensor.shape
  · rw [if_pos strided] at valid
    cases valid
  rw [if_neg strided] at valid
  simp only [bind_eq_ok_iff] at valid
  rcases valid with ⟨_, isCount, targetBytes, isTarget, bytes, isBytes, valid⟩
  have same : targetBytes = bytes := by
    by_contra differ
    rw [if_pos differ] at valid
    cases valid
  have source : ∃ elements, checkedNumElementsI32 tensor.shape = .ok elements ∧
      checkedNumBytes tensor.elementSize elements = .ok bytes := by
    rw [Tensor.typedNumBytes] at isBytes
    split at isBytes
    · rename_i found isFound
      cases isBytes
      exact bind_eq_ok_iff.mp isFound
    · cases isBytes
  rcases source with ⟨elements, isElements, isBytes⟩
  rcases checkedNumElementsI32_eq_ok isElements with ⟨nonneg, elementsEq⟩
  refine ⟨rfl, nonneg, ?_⟩
  have targetEq := (checkedMul_elim_eq_ok.mp isTarget).1
  have bytesEq := (checkedMul_elim_eq_ok.mp isBytes).1
  rw [checkedNumElements_eq_ok isCount] at targetEq
  rw [elementsEq] at bytesEq
  exact targetEq.symm.trans (same.trans bytesEq)

theorem Accepts.checked {source result : Layout} (accepts : Accepts requested source result)
    (sized : 0 < source.elementSize) : Checked requested source result := by
  cases accepts with
  | reinterpret _ ok => exact checked_of_reinterpret ok
  | reshape ok | reshapeShared ok | tensorView ok | viewView ok =>
    rcases bind_eq_ok_iff.mp ok with ⟨_, valid, built⟩
    cases built
    exact checked_of_view sized valid rfl rfl

/-- The bytes of the result, when its extents are stored as requested. -/
theorem Checked.numBytes {source result : Layout} (checked : Checked requested source result)
    (exact : result.shape = requested.map Nat.cast) : result.numBytes = source.numBytes := by
  rw [Layout.numBytes, Layout.numBytes, exact, ← Nat.cast_list_prod,
    prod_eq_of_nonneg checked.nonneg]
  exact_mod_cast checked.sameBytes

end Accepted

/-- An accepted shape is stored as requested exactly when its extents are `i32` values. -/
theorem accepted_hasShape_iff {requested : List Nat} {source result : Layout}
    (accepts : Accepts requested source result) (sized : 0 < source.elementSize) :
    Layout.HasShape requested source result ↔ ∀ dim ∈ requested, dim ≤ 2147483647 := by
  have checked := accepts.checked sized
  rw [← viewShape_eq_iff, ← checked.stored]
  constructor
  · intro hasShape
    exact hasShape.extents
  · intro exact
    have bytes := checked.numBytes exact
    refine ⟨exact, bytes, ?_⟩
    intro sameSize
    rw [Layout.numBytes, Layout.numBytes, sameSize] at bytes
    exact mul_right_cancel₀ (Int.natCast_pos.mpr sized).ne' bytes

theorem accepted_hasShape_iff_matrix :
    ∃ result, eightFloats.reshape [2, 4] = .ok result ∧
      Layout.HasShape [2, 4] eightFloats.layout result.layout := by
  have ok : ∃ result, eightFloats.reshape [2, 4] = .ok result := ⟨_, rfl⟩
  rcases ok with ⟨result, ok⟩
  exact ⟨result, ok, (accepted_hasShape_iff (.reshape ok) (by decide)).mpr (by decide)⟩

/-- A tensor without elements takes any shape without elements, but does not store it. -/
theorem reshape_truncates :
    ∃ tensor result : Tensor, 0 < tensor.elementSize ∧
      tensor.reshape [0, 4294967299] = .ok result ∧ result.shape = [0, 3] ∧
      ¬Layout.HasShape [0, 4294967299] tensor.layout result.layout := by
  refine ⟨⟨.device 256, 4, [0], [1], rfl⟩, _, by decide, rfl, by decide, ?_⟩
  intro hasShape
  exact absurd hasShape.extents (by decide)

end CuTile
