import CuTile.Compiler.Bounds
import CuTile.Predicate.Term

/-! # Compiled values

A compiled value is a handle into the generated code together with what the
compiler knows about it. The handle type is a parameter: the facts below do not
depend on how the generated code is represented.
-/

namespace CuTile

inductive ElementType where
  | bool
  | i4
  | i8
  | u8
  | i16
  | u16
  | i32
  | u32
  | i64
  | u64
  | usize
  | f16
  | bf16
  | f32
  | f64
deriving DecidableEq, Repr

/-- Scalar types of the generated code, which has no unsigned integers. -/
inductive ScalarType where
  | i1
  | i4
  | i8
  | i16
  | i32
  | i64
  | f16
  | bf16
  | f32
  | f64
deriving DecidableEq, Repr

namespace ElementType

def name : ElementType → String
  | bool => "bool"
  | i4 => "i4"
  | i8 => "i8"
  | u8 => "u8"
  | i16 => "i16"
  | u16 => "u16"
  | i32 => "i32"
  | u32 => "u32"
  | i64 => "i64"
  | u64 => "u64"
  | usize => "usize"
  | f16 => "f16"
  | bf16 => "bf16"
  | f32 => "f32"
  | f64 => "f64"

/-- The generated type of an element. `usize` has none of its own. -/
def cudaTile : ElementType → Option ScalarType
  | bool => some .i1
  | i4 => some .i4
  | i8 | u8 => some .i8
  | i16 | u16 => some .i16
  | i32 | u32 => some .i32
  | i64 | u64 => some .i64
  | usize => none
  | f16 => some .f16
  | bf16 => some .bf16
  | f32 => some .f32
  | f64 => some .f64

/-- The signedness attribute an operation on this type carries. `usize` keeps
the signed lowering. -/
def signed : ElementType → Bool
  | bool | u8 | u16 | u32 | u64 => false
  | _ => true

end ElementType

/-- The machine format of an integer type under a signedness attribute. -/
def ScalarType.format (signed : Bool) : ScalarType → Option IntegerFormat
  | i1 => some ⟨1, signed, by decide⟩
  | i4 => some ⟨4, signed, by decide⟩
  | i8 => some ⟨8, signed, by decide⟩
  | i16 => some ⟨16, signed, by decide⟩
  | i32 => some ⟨32, signed, IntegerFormat.i32.positive⟩
  | i64 => some ⟨64, signed, IntegerFormat.i64.positive⟩
  | f16 | bf16 | f32 | f64 => none

def ElementType.format (type : ElementType) : Option IntegerFormat :=
  type.cudaTile.bind (ScalarType.format type.signed)

inductive Kind where
  | primitiveType
  | structuredType
  | compound
  | struct
  | string
  | enum
deriving DecidableEq, Repr

def Kind.debugName : Kind → String
  | .primitiveType => "PrimitiveType"
  | .structuredType => "StructuredType"
  | .compound => "Compound"
  | .struct => "Struct"
  | .string => "String"
  | .enum => "Enum"

/-- The tile walk of a tensor axis that an index was drawn from. -/
structure PartitionAxisOrigin where
  tensor : String
  axis : Nat
  tileDim : Int
deriving DecidableEq, Repr

/-- Where a bounded dimension or index came from. -/
inductive DimOrigin (Handle : Type) where
  | partitionAxis (view : Handle) (axis : Nat) (tileDim : Int)
  | value (handle : Handle)
deriving DecidableEq

def DimOrigin.map (transform : α → β) : DimOrigin α → DimOrigin β
  | partitionAxis view axis tileDim => .partitionAxis (transform view) axis tileDim
  | value handle => .value (transform handle)

/-- `floor(numerator / divisor)`, kept beside the linear terms because division
is not linear. -/
structure FloorDiv where
  numerator : Term
  divisor : Int
deriving DecidableEq

/-- A compiled scalar or view with the facts attached to it. -/
structure TileRustValue (Handle : Type) where
  kind : Kind
  value : Option Handle
  type : ElementType
  bounds : Option (Bounds Int) := none
  term : Option Term := none
  floorDiv : Option FloorDiv := none
  tensorOrigin : Option String := none
  partitionAxisOrigin : Option PartitionAxisOrigin := none
  /-- What the value counts, when it is a dimension. -/
  dimOrigin : Option (DimOrigin Handle) := none
  /-- What the value walks, when it is an index. -/
  indexOrigin : Option (DimOrigin Handle) := none

/-- A value of the generated code, by its position in the value arena. -/
abbrev SsaValue := Nat

/-- The same value under another representation of the generated code. -/
def TileRustValue.mapHandle (transform : α → β) (value : TileRustValue α) :
    TileRustValue β :=
  { value with
    value := value.value.map transform
    dimOrigin := value.dimOrigin.map (DimOrigin.map transform)
    indexOrigin := value.indexOrigin.map (DimOrigin.map transform) }

/-- Why a compilation stops: a reported error, or a panic of the compiler. -/
inductive Failure where
  | jitError (message : String)
  | panic (message : String)
deriving DecidableEq, Repr

end CuTile
