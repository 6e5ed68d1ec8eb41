import CuTile.IR.Verification

/-! # Value indices in the writer

`WriterCtx::write_operation`, `write_region` and `write_block`, with the indices they write
for operands. An operation's results are registered after its regions have been written.
Whatever else a body holds (attributes, types, version gates) may fail to encode; which
operations do is the parameter `encodes`.
-/

namespace CuTile.IR

inductive WriteError where
  /-- "operand .. not found in value map for op .." -/
  | missingOperand (value : Value) (opcode : Opcode)
  | other
deriving DecidableEq, Repr

/-- The bytecode value indices of the operands of a body. -/
def OpHeader.writeOperands (header : OpHeader) (numbering : Numbering Value) :
    List Value → Except WriteError (List (Value × Nat))
  | [] => .ok []
  | operand :: rest =>
    match numbering.lookup operand with
    | none => .error (.missingOperand operand header.opcode)
    | some index => do
      let others ← header.writeOperands numbering rest
      return (operand, index) :: others

mutual

def Operation.write (values : List ValueData) (encodes : OpHeader → Bool) :
    Operation → Numbering Value → Except WriteError (Numbering Value × List (Value × Nat))
  | .mk header regions, numbering =>
    if encodes header then do
      let operands ← header.writeOperands numbering (header.writtenOperands values)
      let inner ← (if header.opcode.writesRegions then regions.write values encodes numbering
        else .ok (numbering, []))
      return (inner.1.registerAll (header.results values).reduceOption, operands ++ inner.2)
    else .error .other

/-- `write_regions`, with `write_region` for each of them. -/
def Regions.write (values : List ValueData) (encodes : OpHeader → Bool) :
    Regions → Numbering Value → Except WriteError (Numbering Value × List (Value × Nat))
  | .nil, numbering => .ok (numbering, [])
  | .cons blocks rest, numbering => do
    let first ← blocks.write values encodes numbering
    let others ← rest.write values encodes first.1
    return (others.1, first.2 ++ others.2)

/-- `write_block`, for the blocks of a region. -/
def Blocks.write (values : List ValueData) (encodes : OpHeader → Bool) :
    Blocks → Numbering Value → Except WriteError (Numbering Value × List (Value × Nat))
  | .nil, numbering => .ok (numbering, [])
  | .cons args ops rest, numbering => do
    let body ← ops.write values encodes (numbering.registerAll args)
    let others ← rest.write values encodes (body.1.rollback numbering.next)
    return (others.1, body.2 ++ others.2)

def Operations.write (values : List ValueData) (encodes : OpHeader → Bool) :
    Operations → Numbering Value → Except WriteError (Numbering Value × List (Value × Nat))
  | .nil, numbering => .ok (numbering, [])
  | .cons head tail, numbering => do
    let first ← head.write values encodes numbering
    let others ← tail.write values encodes first.1
    return (others.1, first.2 ++ others.2)

end

/-- `write_function_body`, on a cleared value map. -/
def Operation.writeFunctionBody (values : List ValueData) (encodes : OpHeader → Bool)
    (function : Operation) : Except WriteError (List (Value × Nat)) :=
  match function.entryBlock with
  | some (args, ops) => do
    let body ← ops.write values encodes (Numbering.empty.registerAll args)
    return body.2
  | none => .ok []

/-- The operand indices of all functions, in the order of the function section. -/
def writeFunctions (values : List ValueData) (encodes : OpHeader → Bool) :
    List Operation → Except WriteError (List (Value × Nat))
  | [] => .ok []
  | function :: rest => do
    let body ← function.writeFunctionBody values encodes
    let others ← writeFunctions values encodes rest
    return body ++ others

/-- The writer finds every operand, and writes the index that was computed for it. -/
def Module.Predicted (module : Module) (encodes : OpHeader → Bool) : Prop :=
  (∀ value opcode, writeFunctions module.values encodes module.functions ≠
    .error (.missingOperand value opcode)) ∧
  ∀ written, writeFunctions module.values encodes module.functions = .ok written →
    written.map (fun operand => (operand.1, some operand.2)) = module.computedIndices

end CuTile.IR
