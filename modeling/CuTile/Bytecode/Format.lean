import Mathlib.Order.Basic

/-! # Constants of the bytecode format -/

namespace CuTile.Bytecode

def magic : List UInt8 := [0x7F, 0x54, 0x69, 0x6C, 0x65, 0x49, 0x52, 0x00]

inductive Section where
  | endOfBytecode
  | string
  | func
  | debug
  | constant
  | type
  | global
  | producer
deriving DecidableEq, Repr

def Section.id : Section → Nat
  | .endOfBytecode => 0
  | .string => 1
  | .func => 2
  | .debug => 3
  | .constant => 4
  | .type => 5
  | .global => 6
  | .producer => 7

def numSections : Nat := 8

inductive TypeTag where
  | i1 | i8 | i16 | i32 | i64 | f16 | bf16 | f32 | tf32 | f64 | f8e4m3fn | f8e5m2
  | pointer | tile | tensorView | partitionView | func | token | f8e8m0fnu | f4e2m1fn
  | gatherScatterView | stridedView | i4 | f8e5m3fnu
deriving DecidableEq, Repr

namespace TypeTag

def code : TypeTag → Nat
  | .i1 => 0
  | .i8 => 1
  | .i16 => 2
  | .i32 => 3
  | .i64 => 4
  | .f16 => 5
  | .bf16 => 6
  | .f32 => 7
  | .tf32 => 8
  | .f64 => 9
  | .f8e4m3fn => 10
  | .f8e5m2 => 11
  | .pointer => 12
  | .tile => 13
  | .tensorView => 14
  | .partitionView => 15
  | .func => 16
  | .token => 17
  | .f8e8m0fnu => 18
  | .f4e2m1fn => 19
  | .gatherScatterView => 20
  | .stridedView => 21
  | .i4 => 22
  | .f8e5m3fnu => 0x82

def all : List TypeTag :=
  [.i1, .i8, .i16, .i32, .i64, .f16, .bf16, .f32, .tf32, .f64, .f8e4m3fn, .f8e5m2, .pointer,
    .tile, .tensorView, .partitionView, .func, .token, .f8e8m0fnu, .f4e2m1fn, .gatherScatterView,
    .stridedView, .i4, .f8e5m3fnu]

def ofCode (code : Nat) : Option TypeTag :=
  all.find? fun tag => tag.code = code

end TypeTag

inductive DebugTag where
  | unknown
  | diCompileUnit
  | diFile
  | diLexicalBlock
  | diLoc
  | diSubprogram
  | callSite
deriving DecidableEq, Repr

namespace DebugTag

def code : DebugTag → UInt8
  | .unknown => 0
  | .diCompileUnit => 1
  | .diFile => 2
  | .diLexicalBlock => 3
  | .diLoc => 4
  | .diSubprogram => 5
  | .callSite => 6

def all : List DebugTag :=
  [.unknown, .diCompileUnit, .diFile, .diLexicalBlock, .diLoc, .diSubprogram, .callSite]

def ofCode (code : UInt8) : Option DebugTag :=
  all.find? fun tag => tag.code = code

end DebugTag

/-! ## Versions -/

structure BytecodeVersion where
  major : UInt8
  minor : UInt8
  tag : UInt16
deriving DecidableEq, Repr

namespace BytecodeVersion

/-- `Ord::cmp` is not `Less`: major, then minor, then tag. -/
def atLeast (version other : BytecodeVersion) : Bool :=
  other.major < version.major || other.major = version.major &&
    (other.minor < version.minor || other.minor = version.minor && other.tag ≤ version.tag)

def v13_2 : BytecodeVersion := ⟨13, 2, 0⟩

def v13_3 : BytecodeVersion := ⟨13, 3, 0⟩

def v13_4 : BytecodeVersion := ⟨13, 4, 0⟩

def minSupported : BytecodeVersion := v13_2

def supported : List BytecodeVersion := [v13_2, v13_3, v13_4]

def text (version : BytecodeVersion) : String :=
  toString version.major.toNat ++ "." ++ toString version.minor.toNat ++
    if version.tag ≠ 0 then "." ++ toString version.tag.toNat else ""

end BytecodeVersion

end CuTile.Bytecode
