import CuTile.Foundation.ByteCodec
import CuTile.IR.Types

/-! # Attributes and locations of the tile IR -/

namespace CuTile.IR

mutual

inductive Attribute where
  | integer (value : Int64) (type : Ty)
  /-- A float by the bytes that `write_ap_float` gives it for its type. -/
  | float (encoded : Bytes) (type : Ty)
  | bool (value : Bool)
  | type (type : Ty)
  | string (text : String)
  | array (elements : Attributes)
  | denseElements (elementType : Ty) (data : Bytes)
  | denseI32Array (values : List Int32)
  | divBy (divisor : UInt64) (every along : Option Int64)
  | sameElements (values : List Int64)
  | dictionary (entries : NamedAttributes)
  | optimizationHints (entries : HintTable)
  | bounded (lb ub : Option Int64)

inductive Attributes where
  | nil
  | cons (head : Attribute) (tail : Attributes)

inductive NamedAttributes where
  | nil
  | cons (name : String) (value : Attribute) (tail : NamedAttributes)

/-- `OptimizationHints`: named attributes for each architecture. -/
inductive HintTable where
  | nil
  | cons (arch : String) (hints : NamedAttributes) (tail : HintTable)

end

def Attributes.length : Attributes → Nat
  | .nil => 0
  | .cons _ tail => tail.length + 1

namespace NamedAttributes

def length : NamedAttributes → Nat
  | .nil => 0
  | .cons _ _ tail => tail.length + 1

/-- `find_map` over the entries with this name. -/
def findMap {α : Type} (name : String) (choose : Attribute → Option α) :
    NamedAttributes → Option α
  | .nil => none
  | .cons key value tail =>
    if key = name then (choose value).or (tail.findMap name choose)
    else tail.findMap name choose

def findString (name : String) (attributes : NamedAttributes) : Option String :=
  attributes.findMap name fun
    | .string text => some text
    | _ => none

def findType (name : String) (attributes : NamedAttributes) : Option Ty :=
  attributes.findMap name fun
    | .type type => some type
    | _ => none

def find (name : String) (attributes : NamedAttributes) : Option Attribute :=
  attributes.findMap name some

def hasName (name : String) : NamedAttributes → Bool
  | .nil => false
  | .cons key _ tail => key = name || tail.hasName name

end NamedAttributes

namespace HintTable

def length : HintTable → Nat
  | .nil => 0
  | .cons _ _ tail => tail.length + 1

def hasName (name : String) : HintTable → Bool
  | .nil => false
  | .cons _ hints tail => hints.hasName name || tail.hasName name

end HintTable

/-! ## Locations -/

structure DIFile where
  name : String
  directory : String

structure DISubprogram where
  file : DIFile
  line : UInt32
  name : String
  linkageName : String
  compileUnit : DIFile
  scopeLine : UInt32

inductive DebugScope where
  | subprogram (subprogram : DISubprogram)
  | lexicalBlock (parent : DebugScope) (file : DIFile) (line column : UInt32)

inductive Location where
  | unknown
  | fileLineCol (filename : String) (line column : UInt32)
  | debugInfo (filename : String) (line column : UInt32) (scope : DebugScope)
  | callSite (callee caller : Location)

end CuTile.IR
