import CuTile.Bytecode.Format

/-! # Types of the tile IR

The types of values and functions, and the types that each of them refers to.
-/

namespace CuTile.IR

open Bytecode (BytecodeVersion TypeTag)

inductive ScalarType where
  | i1 | i4 | i8 | i16 | i32 | i64 | f16 | bf16 | f32 | tf32 | f64
  | f8e4m3fn | f8e5m2 | f8e8m0fnu | f4e2m1fn | f8e5m3fnu
deriving DecidableEq, Repr

namespace ScalarType

def typeTag : ScalarType → TypeTag
  | i1 => .i1
  | i4 => .i4
  | i8 => .i8
  | i16 => .i16
  | i32 => .i32
  | i64 => .i64
  | f16 => .f16
  | bf16 => .bf16
  | f32 => .f32
  | tf32 => .tf32
  | f64 => .f64
  | f8e4m3fn => .f8e4m3fn
  | f8e5m2 => .f8e5m2
  | f8e8m0fnu => .f8e8m0fnu
  | f4e2m1fn => .f4e2m1fn
  | f8e5m3fnu => .f8e5m3fnu

def minimumVersion : ScalarType → BytecodeVersion
  | i4 | f4e2m1fn => .v13_3
  | f8e5m3fnu => .v13_4
  | _ => .v13_2

def variantName : ScalarType → String
  | i1 => "I1"
  | i4 => "I4"
  | i8 => "I8"
  | i16 => "I16"
  | i32 => "I32"
  | i64 => "I64"
  | f16 => "F16"
  | bf16 => "BF16"
  | f32 => "F32"
  | tf32 => "TF32"
  | f64 => "F64"
  | f8e4m3fn => "F8E4M3FN"
  | f8e5m2 => "F8E5M2"
  | f8e8m0fnu => "F8E8M0FNU"
  | f4e2m1fn => "F4E2M1FN"
  | f8e5m3fnu => "F8E5M3FNU"

end ScalarType

structure PointerType where
  pointee : ScalarType
deriving DecidableEq, Repr

inductive TileElementType where
  | scalar (type : ScalarType)
  | pointer (type : PointerType)
deriving DecidableEq, Repr

structure TileType where
  shape : List Int64
  elementType : TileElementType
deriving DecidableEq, Repr

structure TensorViewType where
  elementType : ScalarType
  shape : List Int64
  strides : List Int64
deriving DecidableEq, Repr

inductive PaddingValue where
  | zero | negZero | nan | posInf | negInf
deriving DecidableEq, Repr

def PaddingValue.code : PaddingValue → Nat
  | zero => 0
  | negZero => 1
  | nan => 2
  | posInf => 3
  | negInf => 4

structure PartitionViewType where
  tileShape : List Int32
  tensorView : TensorViewType
  dimMap : List Int32
  paddingValue : Option PaddingValue
deriving DecidableEq, Repr

structure GatherScatterViewType where
  tileShape : List Int32
  tensorView : TensorViewType
  sparseDim : Int32
  paddingValue : Option PaddingValue
deriving DecidableEq, Repr

structure StridedViewType where
  tileShape : List Int32
  traversalStrides : List Int32
  tensorView : TensorViewType
  dimMap : List Int32
  paddingValue : Option PaddingValue
deriving DecidableEq, Repr

inductive PointerAttribute where
  | none
deriving DecidableEq, Repr

def PointerAttribute.code : PointerAttribute → Nat
  | none => 0

mutual

inductive Ty where
  | scalar (type : ScalarType)
  | pointer (type : PointerType)
  | tile (type : TileType)
  | tensorView (type : TensorViewType)
  | partitionView (type : PartitionViewType)
  | gatherScatterView (type : GatherScatterViewType)
  | stridedView (type : StridedViewType)
  | func (inputs results : Tys)
  | token
  | withPointerAttribute (base : Ty) (attr : PointerAttribute)

inductive Tys where
  | nil
  | cons (head : Ty) (tail : Tys)

end

deriving instance DecidableEq for Ty
deriving instance DecidableEq for Tys

def Tys.toList : Tys → List Ty
  | .nil => []
  | .cons head tail => head :: tail.toList

theorem Tys.sizeOf_lt_of_mem {member : Ty} :
    ∀ {types : Tys}, member ∈ types.toList → sizeOf member < sizeOf types
  | .cons head tail, isMember => by
    rcases List.mem_cons.mp isMember with isHead | inTail
    · rw [isHead, Tys.cons.sizeOf_spec]
      omega
    · have smaller := Tys.sizeOf_lt_of_mem inTail
      rw [Tys.cons.sizeOf_spec]
      omega

namespace Ty

/-- `pointer_dependency`: the part of a type that a pointer attribute is passed on to. -/
def pointerDependency : Ty → Option Ty
  | tile ⟨_, .pointer type⟩ => some (pointer type)
  | partitionView type => some (tensorView type.tensorView)
  | gatherScatterView type => some (tensorView type.tensorView)
  | stridedView type => some (tensorView type.tensorView)
  | _ => none

/-- What a type with a pointer attribute refers to. -/
def qualifiedDependencies (attr : PointerAttribute) : Ty → List Ty
  | pointer type => [scalar type.pointee]
  | tensorView type => [scalar type.elementType]
  | other => (other.pointerDependency.map (withPointerAttribute · attr)).toList

/-- What `register_deps` registers before the type itself. -/
def dependencies : Ty → List Ty
  | withPointerAttribute base attr => base.qualifiedDependencies attr
  | pointer type => [scalar type.pointee]
  | tile ⟨_, .scalar type⟩ => [scalar type]
  | tile ⟨_, .pointer type⟩ => [pointer type]
  | tensorView type => [scalar type.elementType]
  | partitionView type => [tensorView type.tensorView]
  | gatherScatterView type => [tensorView type.tensorView]
  | stridedView type => [tensorView type.tensorView]
  | func inputs results => inputs.toList ++ results.toList
  | scalar _ | token => []

theorem sizeOf_pointerDependency {type dependency : Ty} {attr : PointerAttribute}
    (isDependency : type.pointerDependency = some dependency) :
    sizeOf (withPointerAttribute dependency attr) < sizeOf (withPointerAttribute type attr) := by
  unfold pointerDependency at isDependency
  split at isDependency <;> cases isDependency
  · simp
    omega
  · rename_i type
    cases type
    simp
    omega
  · rename_i type
    cases type
    simp
    omega
  · rename_i type
    cases type
    simp
    omega

theorem sizeOf_dependency {type dependency : Ty}
    (isDependency : dependency ∈ type.dependencies) : sizeOf dependency < sizeOf type := by
  cases type with
  | scalar _ => cases isDependency
  | token => cases isDependency
  | pointer type =>
    cases type
    cases List.mem_singleton.mp isDependency
    simp
  | tile type =>
    rcases type with ⟨shape, scalar | pointer⟩ <;>
      · cases List.mem_singleton.mp isDependency
        simp
        omega
  | tensorView type | partitionView type | gatherScatterView type | stridedView type =>
    cases type
    cases List.mem_singleton.mp isDependency
    simp
    omega
  | func inputs results =>
    rw [func.sizeOf_spec]
    rcases List.mem_append.mp isDependency with isInput | isResult
    · have smaller := Tys.sizeOf_lt_of_mem isInput
      omega
    · have smaller := Tys.sizeOf_lt_of_mem isResult
      omega
  | withPointerAttribute base attr =>
    rw [dependencies, qualifiedDependencies.eq_def] at isDependency
    split at isDependency
    · rename_i type
      cases type
      cases List.mem_singleton.mp isDependency
      simp
      omega
    · rename_i type
      cases type
      cases List.mem_singleton.mp isDependency
      simp
      omega
    · cases found : base.pointerDependency with
      | none =>
        rw [found] at isDependency
        cases isDependency
      | some =>
        rw [found] at isDependency
        cases List.mem_singleton.mp isDependency
        exact sizeOf_pointerDependency found

end Ty

end CuTile.IR
