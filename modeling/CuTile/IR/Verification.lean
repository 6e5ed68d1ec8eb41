import CuTile.Bytecode.OperandLayout
import CuTile.Foundation.ScopedNumbering

/-! # Verification before serialisation

`Module::verify_dominance` and `Module::verify_bytecode_indices`. The second one numbers
values as it walks; besides its errors the model reports the index it has for every operand
that serialisation writes, in the order in which they are written.
-/

namespace CuTile.IR

/-! ## Dominance -/

/-- "operand .. of .. references value .. which does not dominate this use" -/
structure DominanceError where
  function : String
  operand : Nat
  opcode : Opcode
  op : Nat
  value : Value
deriving DecidableEq, Repr

def OpHeader.operandErrors (header : OpHeader) (function : String) (visible : List Value) :
    List DominanceError :=
  (header.operands.zipIdx.filter fun operand => operand.1 ∉ visible).map fun operand =>
    ⟨function, operand.2, header.opcode, header.id, operand.1⟩

mutual

/-- `verify_region`, for the regions of an operation. -/
def Regions.verify (values : List ValueData) (function : String) :
    Regions → List Value → List DominanceError
  | .nil, _ => []
  | .cons blocks rest, visible =>
    blocks.verify values function visible ++ rest.verify values function visible

/-- `verify_block`, for the blocks of a region. -/
def Blocks.verify (values : List ValueData) (function : String) :
    Blocks → List Value → List DominanceError
  | .nil, _ => []
  | .cons args ops rest, visible =>
    ops.verify values function (args ++ visible) ++ rest.verify values function visible

def Operations.verify (values : List ValueData) (function : String) :
    Operations → List Value → List DominanceError
  | .nil, _ => []
  | .cons (.mk header regions) tail, visible =>
    -- An operation's results are visible in its own regions too.
    let visibleAfter := (header.results values).reduceOption ++ visible
    header.operandErrors function visible ++ regions.verify values function visibleAfter ++
      tail.verify values function visibleAfter

end

def Module.verifyDominance (module : Module) : List DominanceError :=
  module.functions.flatMap fun function =>
    match function with
    | .mk header regions => regions.verify module.values header.functionName []

/-! ## Bytecode indices -/

inductive IndexError where
  /-- The operand "is not in the bytecode value map". -/
  | unmapped (function : String) (operand : Nat) (opcode : Opcode) (op : Nat) (value : Value)
      (nextIdx mapSize : Nat)
  /-- "has .. result types but the bytecode reader expects exactly .." -/
  | resultCount (function : String) (opcode : Opcode) (op declared expected : Nat)
  /-- "result .. has no Value in the arena" -/
  | missingResult (function : String) (opcode : Opcode) (op declared result : Nat)
deriving DecidableEq, Repr

/-- `computed` holds the indices of the operands that serialisation writes. -/
structure IndexWalk where
  numbering : Numbering Value
  errors : List IndexError
  computed : List (Value × Option Nat)

def OpHeader.unmappedErrors (header : OpHeader) (function : String)
    (numbering : Numbering Value) : List IndexError :=
  (header.operands.zipIdx.filter fun operand => (numbering.lookup operand.1).isNone).map
    fun operand => .unmapped function operand.2 header.opcode header.id operand.1 numbering.next
      numbering.table.entries.length

def OpHeader.countErrors (header : OpHeader) (function : String) : List IndexError :=
  match header.opcode.fixedResultCount with
  | some expected =>
    if header.resultTypes = expected then []
    else [.resultCount function header.opcode header.id header.resultTypes expected]
  | none => []

def OpHeader.resultErrors (values : List ValueData) (header : OpHeader) (function : String) :
    List IndexError :=
  ((header.results values).zipIdx.filter fun result => result.1.isNone).map fun result =>
    .missingResult function header.opcode header.id header.resultTypes result.2

/-- A result without a value takes up an index all the same. -/
def registerResult (numbering : Numbering Value) : Option Value → Numbering Value
  | some value => numbering.register value
  | none => { numbering with next := numbering.next + 1 }

/-- The indices of the operands that the body of the operation lists. -/
def OpHeader.computedIndices (values : List ValueData) (header : OpHeader)
    (numbering : Numbering Value) : List (Value × Option Nat) :=
  (header.writtenOperands values).map fun operand => (operand, numbering.lookup operand)

mutual

/-- `verify_bc_operation`; `serialised` says that the writer comes here. -/
def Operation.verifyBc (values : List ValueData) (function : String) (serialised : Bool) :
    Operation → Numbering Value → IndexWalk
  | .mk header regions, numbering =>
    let registered := (header.results values).foldl registerResult numbering
    let inner := regions.verifyBc values function (serialised && header.opcode.writesRegions)
      registered
    { numbering := inner.numbering
      errors := header.unmappedErrors function numbering ++ header.countErrors function ++
        header.resultErrors values function ++ inner.errors
      computed := (if serialised then header.computedIndices values numbering else []) ++
        inner.computed }

def Regions.verifyBc (values : List ValueData) (function : String) (serialised : Bool) :
    Regions → Numbering Value → IndexWalk
  | .nil, numbering => ⟨numbering, [], []⟩
  | .cons blocks rest, numbering =>
    let first := blocks.verifyBc values function serialised numbering
    let others := rest.verifyBc values function serialised first.numbering
    ⟨others.numbering, first.errors ++ others.errors, first.computed ++ others.computed⟩

/-- `verify_bc_block`, for the blocks of a region. -/
def Blocks.verifyBc (values : List ValueData) (function : String) (serialised : Bool) :
    Blocks → Numbering Value → IndexWalk
  | .nil, numbering => ⟨numbering, [], []⟩
  | .cons args ops rest, numbering =>
    let body := ops.verifyBc values function serialised (numbering.registerAll args)
    let others := rest.verifyBc values function serialised
      (body.numbering.rollback numbering.next)
    ⟨others.numbering, body.errors ++ others.errors, body.computed ++ others.computed⟩

def Operations.verifyBc (values : List ValueData) (function : String) (serialised : Bool) :
    Operations → Numbering Value → IndexWalk
  | .nil, numbering => ⟨numbering, [], []⟩
  | .cons head tail, numbering =>
    let first := head.verifyBc values function serialised numbering
    let others := tail.verifyBc values function serialised first.numbering
    ⟨others.numbering, first.errors ++ others.errors, first.computed ++ others.computed⟩

end

/-- The entry block of a function: the first block of its first region. -/
def Operation.entryBlock : Operation → Option (List Value × Operations)
  | .mk _ (.cons (.cons args ops _) _) => some (args, ops)
  | _ => none

def Operation.header : Operation → OpHeader
  | .mk header _ => header

def Operation.verifyFunctionBc (values : List ValueData) (function : Operation) : IndexWalk :=
  match function.entryBlock with
  | some (args, ops) =>
    ops.verifyBc values function.header.functionName true (Numbering.empty.registerAll args)
  | none => ⟨.empty, [], []⟩

def Module.verifyBytecodeIndices (module : Module) : List IndexError :=
  module.functions.flatMap fun function => (function.verifyFunctionBc module.values).errors

/-- The indices it computes for the operands that the writer writes. -/
def Module.computedIndices (module : Module) : List (Value × Option Nat) :=
  module.functions.flatMap fun function => (function.verifyFunctionBc module.values).computed

structure Module.Accepted (module : Module) : Prop where
  dominance : module.verifyDominance = []
  indices : module.verifyBytecodeIndices = []

end CuTile.IR
