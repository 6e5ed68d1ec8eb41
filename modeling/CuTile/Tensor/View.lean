import CuTile.Foundation.Fallible
import CuTile.Tensor.Specialization

/-! # Tensor views

A view borrows the memory of a tensor under another shape. Slicing moves the start of
the memory, and every view records a specialization of its own. This module says for
which chains of views the specialization describes the pointer a launch receives.
-/

namespace CuTile

open Fallible Usize

/-! ## Tensors and their views -/

inductive Allocation where
  | device (ptr : Fin (2 ^ 64))
  | metaOnly
deriving DecidableEq, Repr

/-- The pointer that specializations are computed from. -/
def Allocation.specPtr : Allocation → Nat
  | .device ptr => ptr
  | .metaOnly => 16

/-- The pointer that is launched; metadata has none. -/
def Allocation.cuDeviceptr : Allocation → Option Nat
  | .device ptr => some ptr
  | .metaOnly => none

theorem Allocation.specPtr_lt (storage : Allocation) : storage.specPtr < 2 ^ 64 := by
  cases storage with
  | device ptr => exact ptr.isLt
  | metaOnly => decide

structure Tensor where
  storage : Allocation
  elementSize : Nat
  shape : List Int
  strides : List Int
  sameRank : strides.length = shape.length

structure TensorView where
  base : Tensor
  offsetBytes : Nat
  shape : List Int
  strides : List Int
  spec : SpecializationBits
  sameRank : strides.length = shape.length

/-- The pointer a launch receives for a view. -/
def TensorView.devicePtr (view : TensorView) : Option Nat :=
  view.base.storage.cuDeviceptr.map fun ptr => Usize.wrap (ptr + view.offsetBytes)

/-- Row-major strides, and the product of the extents. -/
def stridesAndSize : List Int → List Int × Int
  | [] => ([], 1)
  | dim :: rest =>
    let (strides, size) := stridesAndSize rest
    (size :: strides, IntegerFormat.i32.wrap (size * dim))

def contiguousStrides (shape : List Int) : List Int := (stridesAndSize shape).1

@[simp] theorem contiguousStrides_length (shape : List Int) :
    (contiguousStrides shape).length = shape.length := by
  induction shape with
  | nil => rfl
  | cons _ _ induction => exact congrArg (· + 1) induction

/-! ## Views of another shape -/

def checkedNumElements (shape : List Nat) : Except String Nat :=
  shape.foldlM (fun count dim =>
    (Usize.checkedMul count dim).elim (.error "Tensor shape overflowed usize.") .ok) 1

/-- Extents kept as `i32` may be negative. -/
def checkedNumElementsI32 (shape : List Int) : Except String Nat :=
  shape.foldlM (fun count dim =>
    if dim < 0 then .error "Tensor shape contains negative dimension."
    else (Usize.checkedMul count dim.toNat).elim
      (.error "Tensor shape overflowed usize.") .ok) 1

def checkedNumBytes (elementSize count : Nat) : Except String Nat :=
  (Usize.checkedMul count elementSize).elim
    (.error "Tensor byte size overflowed usize.") .ok

def validateViewShapeFor (elementSize : Nat) (shape strides : List Int) (target : List Nat) :
    Except String Unit := do
  if strides ≠ contiguousStrides shape then
    throw (s!"Zero-copy tensor views require contiguous storage (shape {shape}, "
      ++ s!"strides {strides}).")
  let targetNumBytes ← checkedNumBytes elementSize (← checkedNumElements target)
  let currentNumBytes ← checkedNumBytes elementSize (← checkedNumElementsI32 shape)
  if targetNumBytes ≠ currentNumBytes then
    throw (s!"View shape must preserve tensor size: {target} does not have the same "
      ++ s!"number of elements as {shape}.")

/-! The sizes that are compared are those of the two shapes. -/

theorem checkedMul_elim_eq_ok {left right result : Nat} {message : String} :
    (checkedMul left right).elim (.error message) .ok = Except.ok result ↔
      result = left * right ∧ left * right < 2 ^ 64 := by
  unfold checkedMul
  split_ifs with small
  · rw [Option.elim_some, Except.ok.injEq, and_iff_left small, eq_comm]
  · constructor
    · nofun
    · intro product
      exact absurd product.2 small

variable {shape : List Nat} {count : Nat}

theorem foldlM_checkedNumElements {result : Nat}
    (ok : shape.foldlM (fun count dim =>
      (checkedMul count dim).elim (.error "Tensor shape overflowed usize.") .ok) count =
        Except.ok result) : result = count * shape.prod := by
  induction shape generalizing count with
  | nil =>
    cases ok
    exact (mul_one _).symm
  | cons _ _ induction =>
    rw [List.foldlM_cons] at ok
    rcases bind_eq_ok_iff.mp ok with ⟨_, isNext, ok⟩
    rw [induction ok, (checkedMul_elim_eq_ok.mp isNext).1, List.prod_cons, mul_assoc]

theorem checkedNumElements_eq_ok (ok : checkedNumElements shape = .ok count) :
    count = shape.prod := by
  rw [foldlM_checkedNumElements ok, one_mul]

theorem foldlM_checkedNumElementsI32 {shape : List Int} {result : Nat}
    (ok : shape.foldlM (fun count dim =>
      if dim < 0 then .error "Tensor shape contains negative dimension."
      else (checkedMul count dim.toNat).elim
        (.error "Tensor shape overflowed usize.") .ok) count = Except.ok result) :
    (∀ dim ∈ shape, 0 ≤ dim) ∧ result = count * (shape.map Int.toNat).prod := by
  induction shape generalizing count with
  | nil =>
    cases ok
    exact ⟨List.forall_mem_nil _, (mul_one _).symm⟩
  | cons _ _ induction =>
    rw [List.foldlM_cons] at ok
    rcases bind_eq_ok_iff.mp ok with ⟨_, isNext, ok⟩
    split_ifs at isNext with negative
    rcases induction ok with ⟨nonneg, isResult⟩
    refine ⟨List.forall_mem_cons.mpr ⟨not_lt.mp negative, nonneg⟩, ?_⟩
    rw [isResult, (checkedMul_elim_eq_ok.mp isNext).1, List.map_cons, List.prod_cons,
      mul_assoc]

theorem checkedNumElementsI32_eq_ok {shape : List Int}
    (ok : checkedNumElementsI32 shape = .ok count) :
    (∀ dim ∈ shape, 0 ≤ dim) ∧ count = (shape.map Int.toNat).prod := by
  rcases foldlM_checkedNumElementsI32 ok with ⟨nonneg, isCount⟩
  exact ⟨nonneg, by rw [isCount, one_mul]⟩

/-- An accepted view shape has as many elements as its source, which is contiguous. -/
theorem validateViewShapeFor_eq_ok {elementSize : Nat} {shape strides : List Int}
    {target : List Nat} (ok : validateViewShapeFor elementSize shape strides target = .ok ())
    (sized : 0 < elementSize) :
    strides = contiguousStrides shape ∧ (∀ dim ∈ shape, 0 ≤ dim) ∧
      target.prod = (shape.map Int.toNat).prod := by
  rw [validateViewShapeFor] at ok
  by_cases strided : strides ≠ contiguousStrides shape
  · rw [if_pos strided] at ok
    cases ok
  rw [if_neg strided] at ok
  simp only [bind_eq_ok_iff] at ok
  rcases ok with ⟨targetCount, isTarget, targetBytes, isTargetBytes, count, isCount, bytes,
    isBytes, ok⟩
  split_ifs at ok with differ
  rw [not_not] at strided differ
  rcases checkedNumElementsI32_eq_ok isCount with ⟨nonneg, countEq⟩
  refine ⟨strided, nonneg, ?_⟩
  rw [(checkedMul_elim_eq_ok.mp isTargetBytes).1, (checkedMul_elim_eq_ok.mp isBytes).1,
    checkedNumElements_eq_ok isTarget, countEq] at differ
  exact Nat.eq_of_mul_eq_mul_right sized differ

/-- Extents are cast to `i32`. -/
def viewShape (shape : List Nat) : List Int := shape.map fun dim => IntegerFormat.i32.wrap dim

theorem viewShape_eq_map (shape : List Nat) :
    viewShape shape = shape.map fun dim : Nat => IntegerFormat.i32.wrap (dim : Int) := by
  induction shape with
  | nil => rfl
  | cons dim _ induction => exact congrArg (IntegerFormat.i32.wrap (dim : Int) :: ·) induction

def Tensor.view (tensor : Tensor) (shape : List Nat) : Except String TensorView := do
  validateViewShapeFor tensor.elementSize tensor.shape tensor.strides shape
  let newShape := viewShape shape
  return {
    base := tensor
    offsetBytes := 0
    shape := newShape
    strides := contiguousStrides newShape
    spec := computeSpec tensor.storage.specPtr newShape (contiguousStrides newShape)
    sameRank := contiguousStrides_length newShape }

/-- The offset of the view is kept, but the specialization is that of the storage. -/
def TensorView.view (view : TensorView) (shape : List Nat) : Except String TensorView := do
  validateViewShapeFor view.base.elementSize view.shape view.strides shape
  let newShape := viewShape shape
  return {
    base := view.base
    offsetBytes := view.offsetBytes
    shape := newShape
    strides := contiguousStrides newShape
    spec := computeSpec view.base.storage.specPtr newShape (contiguousStrides newShape)
    sameRank := contiguousStrides_length newShape }

/-! ## Slices -/

structure SliceRange where
  start : Nat
  stop : Nat
deriving DecidableEq, Repr

/-- The new extents and the elements skipped. Axes without a range are left whole. -/
def sliceAxes (offset : Nat) : List SliceRange → (shape strides : List Int) →
    Except String (Nat × {newShape : List Int // newShape.length = shape.length})
  | range :: ranges, dim :: shape, stride :: strides =>
    if range.stop < range.start ∨ Usize.ofI32 dim < range.stop then
      .error "slice: range out of bounds."
    else do
      let skipped := Usize.wrap (range.start * Usize.ofI32 stride)
      let (total, rest) ← sliceAxes (Usize.wrap (offset + skipped)) ranges shape strides
      let extent := IntegerFormat.i32.wrap ((range.stop - range.start : Nat) : Int)
      return (total, ⟨extent :: rest.1, congrArg (· + 1) rest.2⟩)
  | _, shape, _ => .ok (offset, ⟨shape, rfl⟩)

/-- The bytes skipped and the new extents of a slice. -/
def sliceBytes (elementSize : Nat) (ranges : List SliceRange) (shape strides : List Int) :
    Except String (Nat × {newShape : List Int // newShape.length = shape.length}) := do
  if shape.length < ranges.length then
    throw "slice: more ranges than axes."
  let (offset, newShape) ← sliceAxes 0 ranges shape strides
  return (Usize.wrap (offset * elementSize), newShape)

def Tensor.slice (tensor : Tensor) (ranges : List SliceRange) : Except String TensorView := do
  let (skipped, newShape) ←
    sliceBytes tensor.elementSize ranges tensor.shape tensor.strides
  return {
    base := tensor
    offsetBytes := skipped
    shape := newShape.1
    strides := tensor.strides
    spec := computeSpec (Usize.wrap (tensor.storage.specPtr + skipped)) newShape.1
      tensor.strides
    sameRank := tensor.sameRank.trans newShape.2.symm }

def TensorView.slice (view : TensorView) (ranges : List SliceRange) :
    Except String TensorView := do
  let (skipped, newShape) ←
    sliceBytes view.base.elementSize ranges view.shape view.strides
  let offsetBytes := Usize.wrap (view.offsetBytes + skipped)
  return {
    base := view.base
    offsetBytes
    shape := newShape.1
    strides := view.strides
    spec := computeSpec (Usize.wrap (view.base.storage.specPtr + offsetBytes)) newShape.1
      view.strides
    sameRank := view.sameRank.trans newShape.2.symm }

/-! ## What each call records -/

/-- The specialization is that of the pointer a launch receives, which is then as
aligned as recorded. -/
def TensorView.Described (view : TensorView) : Prop :=
  ∀ ptr, view.devicePtr = some ptr →
    view.spec = computeSpec ptr view.shape view.strides ∧
      view.spec.basePtrDiv.divisor ∣ ptr

variable {view : TensorView}

theorem TensorView.described_of_metaOnly (noMemory : view.base.storage = .metaOnly) :
    view.Described := by
  intro _ isPtr
  rw [devicePtr, noMemory] at isPtr
  cases isPtr

theorem TensorView.described_iff {start : Fin (2 ^ 64)}
    (device : view.base.storage = .device start) :
    view.Described ↔ view.spec =
      computeSpec (wrap (start.val + view.offsetBytes)) view.shape view.strides := by
  have launched : view.devicePtr = some (wrap (start.val + view.offsetBytes)) := by
    rw [devicePtr, device]
    rfl
  constructor
  · intro described
    exact (described _ launched).1
  · intro recorded ptr isPtr
    rw [launched] at isPtr
    cases isPtr
    rw [recorded]
    exact ⟨rfl, (DivHint.fromPtr_largest _).dvd⟩

theorem TensorView.described_of_spec
    (recorded : view.spec =
      computeSpec (wrap (view.base.storage.specPtr + view.offsetBytes)) view.shape
        view.strides) : view.Described := by
  cases storage : view.base.storage with
  | device =>
    rw [storage] at recorded
    exact (described_iff storage).mpr recorded
  | metaOnly => exact described_of_metaOnly storage

theorem Tensor.view_eq_ok {tensor : Tensor} (ok : tensor.view shape = .ok view) :
    view.base = tensor ∧ view.offsetBytes = 0 ∧
      view.spec = computeSpec tensor.storage.specPtr view.shape view.strides := by
  rcases bind_eq_ok_iff.mp ok with ⟨_, _, built⟩
  cases built
  exact ⟨rfl, rfl, rfl⟩

theorem TensorView.view_eq_ok {before : TensorView} (ok : before.view shape = .ok view) :
    view.base = before.base ∧ view.offsetBytes = before.offsetBytes ∧
      view.spec = computeSpec before.base.storage.specPtr view.shape view.strides := by
  rcases bind_eq_ok_iff.mp ok with ⟨_, _, built⟩
  cases built
  exact ⟨rfl, rfl, rfl⟩

theorem Tensor.slice_eq_ok {tensor : Tensor} {ranges : List SliceRange}
    (ok : tensor.slice ranges = .ok view) :
    view.base = tensor ∧
      view.spec = computeSpec (wrap (tensor.storage.specPtr + view.offsetBytes))
        view.shape view.strides := by
  rcases bind_eq_ok_iff.mp ok with ⟨⟨_, _⟩, _, built⟩
  cases built
  exact ⟨rfl, rfl⟩

theorem TensorView.slice_eq_ok {before : TensorView} {ranges : List SliceRange}
    (ok : before.slice ranges = .ok view) :
    view.base = before.base ∧
      view.spec = computeSpec (wrap (before.base.storage.specPtr + view.offsetBytes))
        view.shape view.strides := by
  rcases bind_eq_ok_iff.mp ok with ⟨⟨_, _⟩, _, built⟩
  cases built
  exact ⟨rfl, rfl⟩

/-! ## Chains of calls -/

/-- A call that makes a view, of a tensor or of another view. -/
inductive ViewCall where
  | view (shape : List Nat)
  | slice (ranges : List SliceRange)
deriving DecidableEq, Repr

namespace ViewCall

def onTensor (tensor : Tensor) : ViewCall → Except String TensorView
  | .view shape => tensor.view shape
  | .slice ranges => tensor.slice ranges

def onView (before : TensorView) : ViewCall → Except String TensorView
  | .view shape => before.view shape
  | .slice ranges => before.slice ranges

/-- The first call of a chain records the pointer it launches. -/
theorem described_of_onTensor {call : ViewCall} {tensor : Tensor} {view : TensorView}
    (ok : call.onTensor tensor = .ok view) : view.Described := by
  apply TensorView.described_of_spec
  cases call with
  | view =>
    rcases Tensor.view_eq_ok ok with ⟨base, offset, recorded⟩
    rw [base, offset, recorded, add_zero, wrap,
      Nat.mod_eq_of_lt tensor.storage.specPtr_lt]
  | slice =>
    rcases Tensor.slice_eq_ok ok with ⟨base, recorded⟩
    rw [base]
    exact recorded

/-- A slice records the pointer it launches. A view does when skipping the offset
does not change how the storage is aligned. -/
def Aligned (before : TensorView) : ViewCall → Prop
  | .slice _ => True
  | .view _ => ∀ ptr, before.base.storage = .device ptr →
      ∀ exponent ≤ 4, 2 ^ exponent ∣ ptr.val ↔ 2 ^ exponent ∣ ptr.val + before.offsetBytes

theorem described_iff_of_onView {call : ViewCall} {before view : TensorView}
    (ok : call.onView before = .ok view) : view.Described ↔ call.Aligned before := by
  cases call with
  | slice ranges =>
    rcases TensorView.slice_eq_ok ok with ⟨base, recorded⟩
    rw [← base] at recorded
    exact iff_of_true (TensorView.described_of_spec recorded) trivial
  | view shape =>
    rcases TensorView.view_eq_ok ok with ⟨base, offset, recorded⟩
    have alike (start : Fin (2 ^ 64)) (device : before.base.storage = .device start) :
        view.Described ↔ ∀ exponent ≤ 4,
          2 ^ exponent ∣ start.val ↔ 2 ^ exponent ∣ start.val + before.offsetBytes := by
      rw [TensorView.described_iff (base ▸ device), recorded, device, offset,
        Allocation.specPtr, computeSpec_eq_iff]
      refine forall₂_congr fun exponent small => iff_congr Iff.rfl ?_
      exact two_pow_dvd_wrap_iff (small.trans (by decide)) _
    constructor
    · intro described start device
      exact (alike start device).mp described
    · intro aligned
      cases storage : before.base.storage with
      | device start => exact (alike start storage).mpr (aligned start storage)
      | metaOnly => exact TensorView.described_of_metaOnly (base ▸ storage)

end ViewCall

/-- A chain of calls, the first of them on the tensor itself. -/
def Tensor.run (tensor : Tensor) (first : ViewCall) (rest : List ViewCall) :
    Except String TensorView := do
  rest.foldlM ViewCall.onView (← first.onTensor tensor)

theorem Tensor.run_nil (tensor : Tensor) (first : ViewCall) :
    tensor.run first [] = first.onTensor tensor := by
  rw [run]
  cases first.onTensor tensor <;> rfl

theorem Tensor.run_concat (tensor : Tensor) (first last : ViewCall) (init : List ViewCall) :
    tensor.run first (init ++ [last]) =
      tensor.run first init >>= fun before => last.onView before := by
  rw [run, run, bind_assoc]
  apply bind_congr
  intro _
  rw [List.foldlM_append]
  apply bind_congr
  intro before
  rw [List.foldlM_cons]
  cases last.onView before <;> rfl

/-- A chain of calls ends with a specialization that describes the launched pointer
exactly when its last call is aligned with what the calls before it made. -/
theorem run_described_iff {tensor : Tensor} {first : ViewCall} {rest : List ViewCall}
    {view : TensorView} (ok : tensor.run first rest = .ok view) :
    view.Described ↔ ∀ init last before, rest = init ++ [last] →
      tensor.run first init = .ok before → last.Aligned before := by
  rcases rest.eq_nil_or_concat with rfl | ⟨init, last, rfl⟩
  · rw [Tensor.run_nil] at ok
    apply iff_of_true (ViewCall.described_of_onTensor ok)
    intro init _ _ isSplit
    exact absurd isSplit.symm (List.append_ne_nil_of_right_ne_nil init (List.cons_ne_nil _ _))
  · rw [List.concat_eq_append] at ok ⊢
    rw [Tensor.run_concat] at ok
    rcases bind_eq_ok_iff.mp ok with ⟨before, isBefore, isView⟩
    rw [ViewCall.described_iff_of_onView isView]
    constructor
    · intro aligned init' last' before' isSplit isBefore'
      rcases List.append_inj' isSplit rfl with ⟨rfl, sameLast⟩
      cases sameLast
      rw [isBefore] at isBefore'
      cases isBefore'
      exact aligned
    · intro aligned
      exact aligned init last before rfl isBefore

def eightFloats : Tensor := ⟨.device 256, 4, [8], [1], rfl⟩

theorem run_described_iff_aligned :
    ∃ view, eightFloats.run (.slice [⟨4, 8⟩]) [.view [2, 2]] = .ok view ∧ view.Described := by
  have ok : ∃ view, eightFloats.run (.slice [⟨4, 8⟩]) [.view [2, 2]] = .ok view := ⟨_, rfl⟩
  rcases ok with ⟨view, ok⟩
  refine ⟨view, ok, (run_described_iff ok).mpr ?_⟩
  intro init last before isSplit isBefore
  replace isSplit : [] ++ [ViewCall.view [2, 2]] = init ++ [last] := isSplit
  rcases List.append_inj' isSplit rfl with ⟨rfl, isLast⟩
  cases isLast
  cases isBefore
  rintro start ⟨⟩
  decide

/-- A view of a slice that starts one element in is recorded as sixteen-byte aligned,
though its pointer is not. -/
theorem run_view_misdescribed :
    ∃ view, eightFloats.run (.slice [⟨1, 5⟩]) [.view [2, 2]] = .ok view ∧
      view.devicePtr = some 260 ∧ view.spec.basePtrDiv.divisor = 16 ∧ ¬view.Described := by
  refine ⟨_, rfl, rfl, rfl, ?_⟩
  intro described
  exact absurd (described 260 rfl).2 (by decide)

end CuTile
