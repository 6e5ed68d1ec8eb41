import CuTile.Foundation.Segments
import CuTile.Launch.Checks
import CuTile.Tensor.LaunchGrid
import CuTile.Tensor.Specialization

/-! # Marshalling a launch

How a generated launcher turns the arguments bound to its kernel's parameters into the
argument slots that the driver reads, and into the extents that launch checks read.
-/

namespace CuTile

open List

/-! ## Argument storage -/

/-- A 16-byte value slot. -/
abbrev Slot := BitVec 128

/-- The values pushed so far, and the first slot of each. -/
structure KernelArgStorage where
  values : List Slot
  offsets : List Nat
deriving DecidableEq

namespace KernelArgStorage

def empty : KernelArgStorage := ⟨[], []⟩

/-- A value of `size` bytes takes as many zeroed slots as it needs, and at least one. -/
def push (storage : KernelArgStorage) (size : Nat) (value : BitVec (8 * size)) :
    KernelArgStorage where
  values := storage.values ++ (List.range (max 1 ((size + 15) / 16))).map fun slot =>
    (value >>> (128 * slot)).setWidth 128
  offsets := storage.offsets ++ [storage.values.length]

def pushI32s (storage : KernelArgStorage) (values : List Int) : KernelArgStorage :=
  values.foldl (fun storage value => storage.push 4 (BitVec.ofInt 32 value)) storage

def argCount (storage : KernelArgStorage) : Nat := storage.offsets.length

def extend (storage : KernelArgStorage) (slots : List Slot) : KernelArgStorage where
  values := storage.values ++ slots
  offsets := storage.offsets ++ List.range' storage.values.length slots.length

section

variable (storage : KernelArgStorage)

include storage

@[simp] theorem extend_nil : storage.extend [] = storage := by
  simp [extend]

theorem extend_extend (slots others : List Slot) :
    (storage.extend slots).extend others = storage.extend (slots ++ others) := by
  simp [extend, append_assoc]

theorem push_eq_extend {size : Nat} (value : BitVec (8 * size)) (small : size ≤ 16) :
    storage.push size value = storage.extend [value.setWidth 128] := by
  have single : max 1 ((size + 15) / 16) = 1 := by omega
  simp [push, extend, single]

theorem push_pointer (ptr : BitVec 64) : storage.push 8 ptr = storage.extend [ptr.setWidth 128] :=
  push_eq_extend storage _ (by decide)

theorem pushI32s_eq_extend (values : List Int) :
    storage.pushI32s values =
      storage.extend (values.map fun value => (BitVec.ofInt 32 value).setWidth 128) := by
  induction values generalizing storage with
  | nil => exact (extend_nil storage).symm
  | cons value rest induction =>
    calc (storage.push 4 (BitVec.ofInt 32 value)).pushI32s rest
        = (storage.extend [(BitVec.ofInt 32 value).setWidth 128]).pushI32s rest :=
          congrArg (pushI32s · rest) (push_eq_extend storage _ (by decide))
      _ = _ := by rw [induction, extend_extend]; rfl

end

end KernelArgStorage

/-! ## Arguments -/

inductive DTypeId where
  | bool | u8 | u16 | u32 | u64 | i8 | i16 | i32 | i64
  | f16 | bf16 | f32 | tf32 | f64
  | f8e4m3fn | f8e5m2 | f8e8m0fnu | f8e5m3fnu | f4e2m1fnx2
deriving DecidableEq, Repr

namespace DTypeId

def sizeInBytes : DTypeId → Nat
  | bool | u8 | i8 => 1
  | u16 | i16 | f16 | bf16 => 2
  | u32 | i32 | f32 | tf32 => 4
  | u64 | i64 | f64 => 8
  | f8e4m3fn | f8e5m2 | f8e8m0fnu | f8e5m3fnu | f4e2m1fnx2 => 1

/-- The scalar types whose divisibility a kernel is specialized on. -/
def isIntegerScalar : DTypeId → Bool
  | u8 | u16 | u32 | u64 | i8 | i16 | i32 | i64 => true
  | _ => false

def isSigned : DTypeId → Bool
  | i8 | i16 | i32 | i64 => true
  | _ => false

theorem sizeInBytes_le (dtype : DTypeId) : dtype.sizeInBytes ≤ 16 := by
  cases dtype <;> decide

end DTypeId

structure ScalarValue where
  dtype : DTypeId
  bits : BitVec (8 * dtype.sizeInBytes)
deriving DecidableEq

namespace ScalarValue

def asI32 (value : ScalarValue) : Int :=
  IntegerFormat.i32.wrap (if value.dtype.isSigned then value.bits.toInt else value.bits.toNat)

/-- The hint a launcher computes for the value: integers have one. -/
def divHint (value : ScalarValue) : Option DivHint :=
  if value.dtype.isIntegerScalar then some (DivHint.fromValue value.asI32) else none

/-- The bytes of the value in a zeroed slot. -/
def scalarBits (value : ScalarValue) : Slot := value.bits.setWidth 128

end ScalarValue

structure PartitionParts where
  shape : List Nat
  strides : List Nat
  prefixCoverage : Bool
deriving DecidableEq, Repr

namespace PartitionParts

def shapeAsI32 (partition : PartitionParts) : List Int :=
  partition.shape.map fun dim => IntegerFormat.i32.wrap dim

def stridesAsI32 (partition : PartitionParts) : List Int :=
  partition.strides.map fun stride => IntegerFormat.i32.wrap stride

end PartitionParts

/-- A tensor or view passed for a parameter. An output comes with its partition. -/
structure TensorArg where
  dtype : DTypeId
  deviceId : Nat
  devicePtr : BitVec 64
  shape : List Int
  strides : List Int
  spec : SpecializationBits
  partition : Option PartitionParts
deriving DecidableEq

namespace TensorArg

def pushKernelArgs (arg : TensorArg) (storage : KernelArgStorage) : KernelArgStorage :=
  let whole := ((storage.push 8 arg.devicePtr).pushI32s arg.shape).pushI32s arg.strides
  match arg.partition with
  | none => whole
  | some partition => (whole.pushI32s partition.shapeAsI32).pushI32s partition.stridesAsI32

/-- The extents the kernel body sees: the slab of an output, otherwise the tensor. -/
def viewShape (arg : TensorArg) : List Int :=
  match arg.partition with
  | none => arg.shape
  | some partition => partition.shapeAsI32

end TensorArg

/-- What a launcher is given for one parameter. A binding that plans cannot record is
known only by its name, the values it pushes and its extents. -/
inductive Binding where
  | tensor (arg : TensorArg)
  | scalar (value : ScalarValue)
  | pointer (dtype : DTypeId) (ptr : BitVec 64)
  | unrecorded (what : String) (values : List (Σ size, BitVec (8 * size)))
      (shape view : List Int)

namespace Binding

def push (storage : KernelArgStorage) : Binding → KernelArgStorage
  | tensor arg => arg.pushKernelArgs storage
  | scalar value => storage.push value.dtype.sizeInBytes value.bits
  | pointer _ ptr => storage.push 8 ptr
  | unrecorded _ values _ _ =>
    values.foldl (fun storage value => storage.push value.1 value.2) storage

/-- The extents of parameters that are not tensors stay empty. -/
def paramShape : Binding → List Int
  | tensor arg => arg.shape
  | scalar _ | pointer _ _ => []
  | unrecorded _ _ shape _ => shape

def viewShape : Binding → List Int
  | tensor arg => arg.viewShape
  | scalar _ | pointer _ _ => []
  | unrecorded _ _ _ view => view

end Binding

/-- A parameter of the entry point as its signature declares it: a scalar of a concrete
type, a scalar of one of the type parameters, or anything else. -/
inductive ParamKind where
  | scalar (dtype : DTypeId)
  | anyScalar
  | other
deriving DecidableEq, Repr

/-- The launcher computes hints for the parameters declared with an integer type. -/
def ParamKind.hinted : ParamKind → Bool
  | scalar dtype => dtype.isIntegerScalar
  | anyScalar | other => false

structure Parameter where
  kind : ParamKind
  binding : Binding

/-! ## The launcher -/

/-- Storage filled so far, with the argument count before each parameter. -/
structure Marshalling where
  storage : KernelArgStorage
  starts : List Nat

def marshalParameter (state : Marshalling) (parameter : Parameter) : Marshalling where
  storage := parameter.binding.push state.storage
  starts := state.starts ++ [state.storage.argCount]

def marshal (parameters : List Parameter) : Marshalling :=
  parameters.foldl marshalParameter ⟨.empty, []⟩

/-- Extents are recorded only for a kernel that has launch checks. -/
def launchFrame (checks : List LaunchCheck) (parameters : List Parameter) (grid : Grid) :
    LaunchFrame :=
  if checks.isEmpty then ⟨[], [], grid⟩
  else
    { paramShapes := parameters.map fun parameter => parameter.binding.paramShape
      viewShapes := parameters.map fun parameter => parameter.binding.viewShape
      grid }

/-! ## What is marshalled -/

def i32Slot (value : Int) : Slot := (BitVec.ofInt 32 value).setWidth 128

namespace TensorArg

def layoutSlots (arg : TensorArg) : List Slot :=
  arg.shape.map i32Slot ++ arg.strides.map i32Slot ++
    match arg.partition with
    | none => []
    | some partition => partition.shapeAsI32.map i32Slot ++ partition.stridesAsI32.map i32Slot

theorem pushKernelArgs_eq_extend (arg : TensorArg) (storage : KernelArgStorage) :
    arg.pushKernelArgs storage =
      storage.extend (arg.devicePtr.setWidth 128 :: arg.layoutSlots) := by
  unfold pushKernelArgs layoutSlots
  rw [storage.push_pointer]
  cases arg.partition with
  | none =>
    simp only [KernelArgStorage.pushI32s_eq_extend, KernelArgStorage.extend_extend,
      append_nil, cons_append]
    rfl
  | some =>
    simp only [KernelArgStorage.pushI32s_eq_extend, KernelArgStorage.extend_extend,
      cons_append, append_assoc]
    rfl

end TensorArg

namespace Binding

/-- One slot for every argument of a binding that plans can record: the pointer or
scalar, then what its layout determines. -/
def slots : Binding → List Slot
  | tensor arg => arg.devicePtr.setWidth 128 :: arg.layoutSlots
  | scalar value => [value.scalarBits]
  | pointer _ ptr => [ptr.setWidth 128]
  | unrecorded .. => []

/-- The pointer or scalar of a binding that plans can record. -/
def firstArgument : Binding → Option Slot
  | tensor arg => some (arg.devicePtr.setWidth 128)
  | scalar value => some value.scalarBits
  | pointer _ ptr => some (ptr.setWidth 128)
  | unrecorded .. => none

theorem head?_slots (binding : Binding) : binding.slots.head? = binding.firstArgument := by
  cases binding <;> rfl

def Recorded : Binding → Prop
  | unrecorded .. => False
  | _ => True

theorem push_eq_extend {binding : Binding} (recorded : binding.Recorded)
    (storage : KernelArgStorage) : binding.push storage = storage.extend binding.slots := by
  cases binding with
  | tensor arg => exact arg.pushKernelArgs_eq_extend storage
  | scalar value => exact storage.push_eq_extend _ value.dtype.sizeInBytes_le
  | pointer _ ptr => exact storage.push_pointer ptr
  | unrecorded => exact recorded.elim

theorem slots_ne_nil {binding : Binding} (recorded : binding.Recorded) : binding.slots ≠ [] := by
  cases binding with
  | tensor => exact cons_ne_nil _ _
  | scalar => exact cons_ne_nil _ _
  | pointer => exact cons_ne_nil _ _
  | unrecorded => exact recorded.elim

end Binding

def parameterSlots (parameters : List Parameter) : List (List Slot) :=
  parameters.map fun parameter => parameter.binding.slots

/-- As long as every binding is recorded, each argument has its own slot and each
parameter starts where its first slot is. -/
theorem marshal_eq {parameters : List Parameter}
    (recorded : ∀ parameter ∈ parameters, parameter.binding.Recorded) :
    (marshal parameters).storage =
        KernelArgStorage.empty.extend (parameterSlots parameters).flatten ∧
      (marshal parameters).starts = Segments.startsFrom 0 (parameterSlots parameters) := by
  -- the launcher appends, so the induction peels the last parameter off
  induction parameters using reverseRecOn with
  | nil => exact ⟨rfl, rfl⟩
  | append_singleton front last induction =>
    rw [forall_mem_append, forall_mem_singleton] at recorded
    rcases induction recorded.1 with ⟨storage, starts⟩
    have step : marshal (front ++ [last]) = marshalParameter (marshal front) last := by
      rw [marshal, foldl_append]
      rfl
    have split :
        parameterSlots (front ++ [last]) = parameterSlots front ++ [last.binding.slots] :=
      map_append
    have count : (marshal front).storage.argCount = (parameterSlots front).flatten.length := by
      rw [storage]
      simp [KernelArgStorage.argCount, KernelArgStorage.extend, KernelArgStorage.empty]
    rw [step, split]
    constructor
    · calc last.binding.push (marshal front).storage
          = (marshal front).storage.extend last.binding.slots :=
            Binding.push_eq_extend recorded.2 _
        _ = _ := by
            rw [storage, KernelArgStorage.extend_extend, flatten_append,
              flatten_singleton]
    · calc (marshal front).starts ++ [(marshal front).storage.argCount]
          = Segments.startsFrom 0 (parameterSlots front) ++
              [(parameterSlots front).flatten.length] := by
            rw [starts, count]
        _ = _ := by
            rw [Segments.startsFrom_append, Nat.zero_add]
            rfl

theorem marshal_storage {parameters : List Parameter}
    (recorded : ∀ parameter ∈ parameters, parameter.binding.Recorded) :
    (marshal parameters).storage.values = (parameterSlots parameters).flatten ∧
      (marshal parameters).storage.offsets =
        range (parameterSlots parameters).flatten.length := by
  rw [(marshal_eq recorded).1, range_eq_range']
  exact ⟨rfl, rfl⟩

end CuTile
