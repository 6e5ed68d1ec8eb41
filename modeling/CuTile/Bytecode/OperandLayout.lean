import CuTile.IR.Operation
import Mathlib.Algebra.GroupWithZero.Nat

/-! # Operands in an operation's body

`write_op_body` as far as operands and regions go: which operands an opcode's body lists,
in which order, and whether the regions follow. A group that reaches beyond the operand
list is cut off here; the source stops there with a failed bounds check.
-/

namespace CuTile.IR

def OpHeader.segmentSizes (header : OpHeader) : List Int :=
  match header.segments with
  | .sizes sizes => sizes
  | .absent | .malformed => List.replicate header.operands.length 1

def asUsize (size : Int) : Nat :=
  (size % 2 ^ 64).toNat

def OpHeader.groupOffset (header : OpHeader) (group : Nat) : Nat :=
  ((header.segmentSizes.take group).map asUsize).sum % 2 ^ 64

/-- How a body refers to one group of operands. -/
inductive OperandGroup where
  /-- `write_operand_group` with an expected size of one. -/
  | single (index : Nat)
  /-- `write_variadic_operand_group`. -/
  | variadic (index : Nat)
  /-- A single operand behind `flag_if_operand_group`. -/
  | optional (index : Nat)
deriving DecidableEq, Repr

def OpHeader.segmentSize (header : OpHeader) (group : Nat) : Int :=
  (header.segmentSizes[group]?).getD 0

def OpHeader.operandGroup (header : OpHeader) : OperandGroup → List Value
  | .single index => (header.operands.drop (header.groupOffset index)).take 1
  | .variadic index =>
    (header.operands.drop (header.groupOffset index)).take (asUsize (header.segmentSize index))
  | .optional index =>
    if 0 < header.segmentSize index then
      (header.operands.drop (header.groupOffset index)).take 1
    else []

inductive OperandLayout where
  /-- `write_operands`. -/
  | all
  /-- The format arguments, then the token if there is one. -/
  | print
  | groups (groups : List OperandGroup)
deriving DecidableEq, Repr

/-- The arms of `write_op_body`. -/
def Opcode.operandLayout : Opcode → OperandLayout
  | .alloca | .iota | .constant | .getNumTileBlocks | .getTileBlockId | .makeToken | .getGlobal
  | .globalOp | .moduleOp | .entry => .groups []
  | .print => .print
  | .makeTensorView => .groups [.single 0, .variadic 1, .variadic 2]
  | .atomicCAS => .groups [.single 0, .single 1, .single 2, .optional 3, .optional 4]
  | .atomicRMW => .groups [.single 0, .single 1, .optional 2, .optional 3]
  | .atomicRedViewTko => .groups [.single 0, .variadic 1, .single 2, .optional 3]
  | .loadPtrTko => .groups [.single 0, .optional 1, .optional 2, .optional 3]
  | .loadViewTko => .groups [.single 0, .variadic 1, .optional 2]
  | .storePtrTko => .groups [.single 0, .single 1, .optional 2, .optional 3]
  | .storeViewTko => .groups [.single 0, .single 1, .variadic 2, .optional 3]
  | _ => .all

/-- `print_operand_groups`: how many format arguments there are, and whether a token
follows. -/
def OpHeader.printOperandGroups (values : List ValueData) (header : OpHeader) : Nat × Bool :=
  match header.segments with
  | .absent =>
    let token := match header.operands.getLast? with
      | some operand => ((values[operand]?).map ValueData.token).getD false
      | none => false
    (header.operands.length - token.toNat, token)
  | .malformed | .sizes _ =>
    let sizes := header.segmentSizes
    (min (sizes.head?.getD 0).toNat header.operands.length, decide (0 < header.segmentSize 1))

/-- The operands that `write_op_body` writes. -/
def OpHeader.writtenOperands (values : List ValueData) (header : OpHeader) : List Value :=
  match header.opcode.operandLayout with
  | .all => header.operands
  | .print =>
    let groups := header.printOperandGroups values
    header.operands.take groups.1 ++
      if groups.2 then (header.operands.drop groups.1).take 1 else []
  | .groups groups => groups.flatMap header.operandGroup

/-- The opcodes whose body ends with `write_regions`. -/
def Opcode.writesRegions : Opcode → Bool
  | .moduleOp | .forOp | .loop | .ifOp | .reduce | .scan | .entry => true
  | _ => false

theorem mem_operands_of_mem_operandGroup {header : OpHeader} {group : OperandGroup}
    {operand : Value} (member : operand ∈ header.operandGroup group) :
    operand ∈ header.operands := by
  cases group with
  | single | variadic => exact List.mem_of_mem_drop (List.mem_of_mem_take member)
  | optional =>
    rw [OpHeader.operandGroup] at member
    split at member
    · exact List.mem_of_mem_drop (List.mem_of_mem_take member)
    · cases member

theorem mem_operands_of_mem_writtenOperands {values : List ValueData} {header : OpHeader}
    {operand : Value} (member : operand ∈ header.writtenOperands values) :
    operand ∈ header.operands := by
  unfold OpHeader.writtenOperands at member
  split at member
  · exact member
  · rcases List.mem_append.mp member with arg | token
    · exact List.mem_of_mem_take arg
    · split at token
      · exact List.mem_of_mem_drop (List.mem_of_mem_take token)
      · cases token
  · rcases List.mem_flatMap.mp member with ⟨_, -, inGroup⟩
    exact mem_operands_of_mem_operandGroup inGroup

end CuTile.IR
