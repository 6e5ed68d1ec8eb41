import Mathlib.Algebra.Group.Int.Defs
import Mathlib.Algebra.Group.Nat.Defs
import Mathlib.Data.List.Basic

/-! # Operations of the tile IR

The arenas of a module are nested here: an operation holds its regions, a region its
blocks, a block its operations. Values stay handles into the value arena, which says what
produced each of them.
-/

namespace CuTile.IR

/-- `Opcode`, in the order of the wire values. -/
inductive Opcode where
  | absF | absI | addF | addI | andI | assert | assume | atomicCAS | atomicRMW | bitcast
  | breakOp | broadcast | cat | ceil | cmpF | cmpI | constant | continueOp | cos | cosH | divF
  | divI | entry | exp | exp2 | extI | extract | floor | fma | forOp | fToF | fToI | getGlobal
  | getIndexSpaceShape | getNumTileBlocks | getTensorShape | getTileBlockId | globalOp | ifOp
  | intToPtr | iota | iToF | joinTokens | loadPtrTko | loadViewTko | log | log2 | loop
  | makePartitionView | makeTensorView | makeToken | maxF | maxI | minF | minI | mmaF | mmaI
  | moduleOp | mulF | mulhiI | mulI | negF | negI | offset | orI | permute | pow | print
  | ptrToInt | ptrToPtr | reduce | remF | remI | reshape | returnOp | rsqrt | scan | select
  | shLI | shRI | sin | sinH | sqrt | storePtrTko | storeViewTko | subF | subI | tan | tanH
  | truncI | xOrI | yield | atan2 | pack | unpack | alloca | mmaFScaled | makeGatherScatterView
  | makeStridedView | atomicRedViewTko | insert | gdcLaunchDependentsTko | gdcWaitTko | fPowI
  | memoryFenceAliasTko
deriving DecidableEq, Repr

/-- The number of results the bytecode format fixes for an opcode. -/
def Opcode.fixedResultCount : Opcode → Option Nat
  | .breakOp | .continueOp | .extract | .insert | .forOp | .getIndexSpaceShape
  | .getTensorShape | .ifOp | .joinTokens | .loadViewTko | .loop | .makeTensorView | .print
  | .reduce | .returnOp | .scan | .storeViewTko | .yield => none
  | .assert | .globalOp | .moduleOp => some 0
  | .absF | .absI | .addF | .addI | .andI | .assume | .atan2 | .bitcast | .broadcast | .cat
  | .ceil | .cmpF | .cmpI | .constant | .cos | .cosH | .divF | .divI | .exp | .exp2 | .extI
  | .floor | .fPowI | .gdcLaunchDependentsTko | .gdcWaitTko | .fma | .fToF | .fToI
  | .getGlobal | .intToPtr | .iota | .iToF | .log | .log2 | .makeGatherScatterView
  | .makePartitionView | .makeStridedView | .makeToken | .memoryFenceAliasTko | .maxF | .maxI
  | .minF | .minI | .mmaF | .mmaFScaled | .mmaI | .mulF | .mulhiI | .mulI | .negF | .negI
  | .offset | .orI | .pack | .permute | .pow | .ptrToInt | .ptrToPtr | .reshape | .remF
  | .remI | .rsqrt | .select | .shLI | .shRI | .sin | .sinH | .sqrt | .subF | .subI | .tan
  | .tanH | .truncI | .unpack | .xOrI => some 1
  | .atomicCAS | .atomicRMW | .loadPtrTko => some 2
  | .atomicRedViewTko | .storePtrTko => some 1
  | .getTileBlockId | .getNumTileBlocks => some 3
  | .alloca => some 1
  | .entry => some 0

abbrev Value := Nat

inductive ValueProducer where
  | opResult (op resultIndex : Nat)
  | blockArg (block argIndex : Nat)
deriving DecidableEq, Repr

structure ValueData where
  /-- The type is `Type::Token`. -/
  token : Bool
  producer : ValueProducer
deriving DecidableEq, Repr

inductive SegmentSizes where
  | absent
  /-- It is there, but not an array. -/
  | malformed
  | sizes (sizes : List Int)
deriving DecidableEq, Repr

/-- An operation without its regions; of the result types only their number matters. -/
structure OpHeader where
  id : Nat
  opcode : Opcode
  operands : List Value
  segments : SegmentSizes
  resultTypes : Nat
  symName : Option String
deriving DecidableEq, Repr

mutual

inductive Operation where
  | mk (header : OpHeader) (regions : Regions)

inductive Regions where
  | nil
  | cons (blocks : Blocks) (rest : Regions)

inductive Blocks where
  | nil
  | cons (args : List Value) (ops : Operations) (rest : Blocks)

inductive Operations where
  | nil
  | cons (head : Operation) (tail : Operations)

end

structure Module where
  values : List ValueData
  functions : List Operation

/-- `find_op_result`: the first value with that producer. -/
def findOpResult (values : List ValueData) (op resultIndex : Nat) : Option Value :=
  values.findIdx? fun data => data.producer = .opResult op resultIndex

def OpHeader.results (values : List ValueData) (header : OpHeader) : List (Option Value) :=
  (List.range header.resultTypes).map fun index => findOpResult values header.id index

def OpHeader.functionName (header : OpHeader) : String :=
  match header.symName with
  | some name => "String(" ++ name.quote ++ ")"
  | none => "op#" ++ toString header.id

end CuTile.IR
