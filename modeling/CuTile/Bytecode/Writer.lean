import CuTile.Bytecode.Emission
import CuTile.Bytecode.OperandLayout
import CuTile.Bytecode.Reader
import CuTile.Foundation.Segments

/-! # The bytecode writer

`write_bytecode_version`: a first pass interns what a module mentions, then its sections
are written one after the other. What an operation writes before its regions is up to
each operation; the version gates on nested regions are the parameter `gate`.
-/

namespace CuTile.Bytecode

open IR Emission

/-! ## Encoding -/

def signedVarint (value : Int64) : Bytes :=
  varint ((value.toBitVec <<< 1) ^^^ value.toBitVec.sshiftRight 63).toNat

def longBytes (value : Int64) : Bytes := littleEndian 8 value.toBitVec.toNat

def intBytes (value : Int32) : Bytes := littleEndian 4 value.toBitVec.toNat

/-- `write_le_var_size_i64`. -/
def longArray (values : List Int64) : Bytes :=
  varint64 values.length ++ values.flatMap longBytes

/-- `write_le_var_size_i32`. -/
def intArray (values : List Int32) : Bytes :=
  varint64 values.length ++ values.flatMap intBytes

def padding (alignment position : Nat) : Bytes :=
  List.replicate (paddingTo alignment position) alignmentByte

def alignTo (alignment : Nat) (buffer : Bytes) : Bytes :=
  buffer ++ padding alignment buffer.length

def requireVersion (feature : String) (required target : BytecodeVersion) : Emission Unit :=
  if target.atLeast required then pure ()
  else .fail (feature ++ " requires bytecode version " ++ required.text ++ " or newer, requested "
    ++ target.text)

/-! ## Attributes -/

inductive AttributeTag where
  | integer | float | bool | type | string | array | denseElements | divBy | sameElements
  | dictionary | optimizationHints | bounded
deriving DecidableEq, Repr

def AttributeTag.code : AttributeTag → Nat
  | integer => 1
  | float => 2
  | bool => 3
  | type => 4
  | string => 5
  | array => 6
  | denseElements => 7
  | divBy => 8
  | sameElements => 9
  | dictionary => 10
  | optimizationHints => 11
  | bounded => 12

def emitTag (tag : AttributeTag) : Emission Unit := emitVarint tag.code

/-- A byte that says which of two values follow, and those that are there. -/
def emitOptions (first second : Option Int64) : Emission Unit := do
  emitBytes [(if first.isSome then 1 else 0) + if second.isSome then 2 else 0]
  emitBytes (first.elim [] signedVarint)
  emitBytes (second.elim [] signedVarint)

/-- Raw data with its length, as it stands in the constant pool. -/
def constantData (data : Bytes) : Bytes := varint64 data.length ++ data

mutual

def writeAttribute : Attribute → Emission Unit
  | .integer value type => do
    emitTag .integer
    let index ← internType type
    emitVarint index
    emitVarint value.toBitVec.toNat
  | .float encoded type => do
    emitTag .float
    let index ← internType type
    emitVarint index
    emitBytes encoded
  | .bool value => do
    emitTag .bool
    emitBytes [if value then 1 else 0]
  | .type type => do
    emitTag .type
    let index ← internType type
    emitVarint index
  | .string text => do
    emitTag .string
    let index ← internString text
    emitVarint index
  | .array elements => do
    emitTag .array
    emitVarint elements.length
    writeAttributes elements
  | .denseElements elementType data => do
    emitTag .denseElements
    let index ← internType elementType
    emitVarint index
    let constant ← addConstant (constantData data)
    emitVarint constant
  -- an array of integers has no tag
  | .denseI32Array values => emitBytes (intArray values)
  | .divBy divisor every along => do
    emitTag .divBy
    emitVarint divisor.toNat
    emitOptions every along
  | .sameElements values => do
    emitTag .sameElements
    emitBytes (longArray values)
  | .dictionary entries => do
    emitTag .dictionary
    emitVarint entries.length
    writeNamedAttributes entries
  | .optimizationHints entries => do
    emitTag .optimizationHints
    emitVarint entries.length
    writeHintTable entries
  | .bounded lb ub => do
    emitTag .bounded
    emitOptions lb ub

def writeAttributes : Attributes → Emission Unit
  | .nil => pure ()
  | .cons head tail => do
    writeAttribute head
    writeAttributes tail

def writeNamedAttributes : NamedAttributes → Emission Unit
  | .nil => pure ()
  | .cons name value tail => do
    let index ← internString name
    emitVarint index
    writeAttribute value
    writeNamedAttributes tail

def writeHintTable : HintTable → Emission Unit
  | .nil => pure ()
  | .cons arch hints tail => do
    let index ← internString arch
    emitVarint index
    emitTag .dictionary
    emitVarint hints.length
    writeNamedAttributes hints
    writeHintTable tail

end

/-! ## Debug info -/

/-- `split_file_path`: the directory and the name. -/
def splitFilePath (path : String) : String × String :=
  let name := (path.toList.reverse.takeWhile (· ≠ '/')).reverse
  if name.length = path.toList.length then ("", path)
  else (String.ofList (path.toList.take (path.toList.length - name.length - 1)),
    String.ofList name)

def debugFile (name directory : String) : Emission Nat := do
  let nameIdx ← internString name
  let directoryIdx ← internString directory
  internAttribute (.file nameIdx directoryIdx)

def debugSubprogram (file line : Nat) (name linkageName : String) (compileUnit scopeLine : Nat) :
    Emission Nat := do
  let nameIdx ← internString name
  let linkageIdx ← internString linkageName
  internAttribute (.subprogram file line nameIdx linkageIdx compileUnit scopeLine)

def debugLoc (scopeId : Nat) (filename : String) (line column : Nat) : Emission Nat := do
  let filenameIdx ← internString filename
  internAttribute (.loc scopeId filenameIdx line column)

def subprogramAttr (subprogram : DISubprogram) : Emission Nat := do
  let file ← debugFile subprogram.file.name subprogram.file.directory
  let unitFile ← debugFile subprogram.compileUnit.name subprogram.compileUnit.directory
  let compileUnit ← internAttribute (.compileUnit unitFile)
  debugSubprogram file subprogram.line.toNat subprogram.name subprogram.linkageName compileUnit
    subprogram.scopeLine.toNat

def scopeAttr : DebugScope → Emission Nat
  | .subprogram subprogram => subprogramAttr subprogram
  | .lexicalBlock parent file line column => do
    let parentId ← scopeAttr parent
    let fileId ← debugFile file.name file.directory
    internAttribute (.lexicalBlock parentId fileId line.toNat column.toNat)

/-- `attr_for`; zero stands for a location that is not known. -/
def attrFor : Location → Emission Nat
  | .unknown => pure 0
  | .fileLineCol filename line column => do
    let scopeId ← perform .currentScope
    if scopeId = 0 then pure 0
    else debugLoc scopeId filename line.toNat column.toNat
  | .debugInfo filename line column debugScope => do
    let scopeId ← scopeAttr debugScope
    debugLoc scopeId filename line.toNat column.toNat
  | .callSite callee caller => do
    let calleeId ← attrFor callee
    if calleeId = 0 then pure 0
    else do
      let callerId ← attrFor caller
      internAttribute (.callSite calleeId callerId)

def functionScope (symName : String) (diName : Option String) : Location → Emission Nat
  | .fileLineCol filename line _ => do
    let file ← debugFile (splitFilePath filename).2 (splitFilePath filename).1
    let compileUnit ← internAttribute (.compileUnit file)
    debugSubprogram file line.toNat (diName.getD symName) symName compileUnit line.toNat
  | .debugInfo _ _ _ debugScope => scopeAttr debugScope
  | _ => pure 0

/-- `begin_function`: the index of the function's list, from one on. -/
def beginFunction (symName : String) (diName : Option String) (location : Location) :
    Emission Nat := do
  let scopeId ← functionScope symName diName location
  let _ ← perform (.setScope scopeId)
  let attr ← attrFor location
  perform (.beginList attr)

def recordOp (location : Location) : Emission Unit := do
  let attr ← attrFor location
  let _ ← perform (.appendId attr)

/-! ## Modules -/

/-- Commands of `write_op_body`: those that leave the debug info alone. -/
def Command.Plain : Command → Prop
  | .bytes _ | .string _ | .type _ | .constant _ => True
  | .debugAttribute _ | .currentScope | .setScope _ | .beginList _ | .appendId _ => False

/-- What `write_operation` writes between the location and the regions. -/
structure OpBody where
  program : Emission Unit
  plain : program.OnlyDoes Command.Plain

mutual

inductive OpTree where
  | mk (opcode : Opcode) (resultTypes : List Ty) (attributes : NamedAttributes)
      (regions : RegionTrees) (location : Location) (body : OpBody)

inductive RegionTrees where
  | nil
  | cons (blocks : BlockTrees) (rest : RegionTrees)

inductive BlockTrees where
  | nil
  | cons (argTypes : List Ty) (ops : OpTrees) (rest : BlockTrees)

inductive OpTrees where
  | nil
  | cons (head : OpTree) (tail : OpTrees)

end

def RegionTrees.length : RegionTrees → Nat
  | .nil => 0
  | .cons _ rest => rest.length + 1

def BlockTrees.length : BlockTrees → Nat
  | .nil => 0
  | .cons _ _ rest => rest.length + 1

def OpTrees.length : OpTrees → Nat
  | .nil => 0
  | .cons _ tail => tail.length + 1

structure Function where
  /-- The opcode is `Entry`. -/
  isEntry : Bool
  attributes : NamedAttributes
  regions : RegionTrees
  location : Location

inductive SymbolVisibility where
  | pub
  | priv
deriving DecidableEq, Repr

def SymbolVisibility.code : SymbolVisibility → UInt8
  | pub => 0
  | priv => 1

structure Global where
  symName : String
  elementType : Ty
  data : Bytes
  alignment : UInt64
  constant : Bool
  symbolVisibility : SymbolVisibility

structure SourceModule where
  producer : Option String
  globals : List Global
  functions : List Function

/-! ## First pass -/

def internTypes (types : List Ty) : Emission Unit := do
  let _ ← forEach internType types

mutual

/-- `prescan_attribute`, after the name. -/
def prescanValue : Attribute → Emission Unit
  | .string text => do
    let _ ← internString text
  | .type type => do
    let _ ← internType type
  | .denseElements elementType _ => do
    let _ ← internType elementType
  | .dictionary entries => prescanAttributes entries
  | .optimizationHints entries => prescanHints entries
  | .array elements => prescanElements elements
  | _ => pure ()

def prescanAttributes : NamedAttributes → Emission Unit
  | .nil => pure ()
  | .cons name value tail => do
    let _ ← internString name
    prescanValue value
    prescanAttributes tail

/-- The elements of an array have the empty name. -/
def prescanElements : Attributes → Emission Unit
  | .nil => pure ()
  | .cons head tail => do
    let _ ← internString ""
    prescanValue head
    prescanElements tail

def prescanHints : HintTable → Emission Unit
  | .nil => pure ()
  | .cons arch hints tail => do
    let _ ← internString arch
    prescanAttributes hints
    prescanHints tail

end

mutual

def prescanOp : OpTree → Emission Unit
  | .mk _ resultTypes attributes regions _ _ => do
    internTypes resultTypes
    prescanAttributes attributes
    prescanRegions regions

def prescanRegions : RegionTrees → Emission Unit
  | .nil => pure ()
  | .cons blocks rest => do
    prescanBlocks blocks
    prescanRegions rest

def prescanBlocks : BlockTrees → Emission Unit
  | .nil => pure ()
  | .cons argTypes ops rest => do
    internTypes argTypes
    prescanOps ops
    prescanBlocks rest

def prescanOps : OpTrees → Emission Unit
  | .nil => pure ()
  | .cons head tail => do
    prescanOp head
    prescanOps tail

end

/-- `gate` says why the version does not admit a function, if it does not. -/
def prescanFunction (gate : Function → Option String) (function : Function) :
    Emission Unit := do
  (gate function).elim (pure ()) Emission.fail
  prescanAttributes function.attributes
  prescanRegions function.regions

def prescanGlobal (global : Global) : Emission Unit := do
  let _ ← internString global.symName
  let _ ← internType global.elementType

def prescanProducer (version : BytecodeVersion) : Option String → Emission Unit
  | none => pure ()
  | some producer => do
    requireVersion "module.producer" .v13_3 version
    let _ ← internString producer

def prescan (gate : Function → Option String) (version : BytecodeVersion)
    (module : SourceModule) : Emission Unit := do
  prescanProducer version module.producer
  let _ ← forEach prescanGlobal module.globals
  let _ ← forEach (prescanFunction gate) module.functions

/-! ## Sections -/

def writeHeader (version : BytecodeVersion) : Bytes :=
  magic ++ [version.major, version.minor] ++ littleEndian 2 version.tag.toNat

/-- Padding is relative to the whole output. -/
def writeSectionHeader (out : Bytes) (kind : Section) (length alignment : Nat) : Bytes :=
  if 1 < alignment then
    alignTo alignment
      (out ++ ([UInt8.ofNat (kind.id + 128)] ++ (varint64 length ++ varint64 alignment)))
  else out ++ ([UInt8.ofNat kind.id] ++ varint64 length)

def writeSection (out : Bytes) (kind : Section) (alignment : Nat) (payload : Bytes) : Bytes :=
  writeSectionHeader out kind payload.length alignment ++ payload

/-- `patch_u32` and `patch_u64`. -/
def patch (buffer : Bytes) (position : Nat) (data : Bytes) : Bytes :=
  buffer.take position ++ data ++ buffer.drop (position + data.length)

def patchOffsets (width : Nat) (buffer : Bytes) (position : Nat) : List Nat → Bytes
  | [] => buffer
  | offset :: rest =>
    patchOffsets width (patch buffer position (littleEndian width offset)) (position + width) rest

/-- The form of the string, type and constant sections: the offsets are reserved, and
patched once the entries are written. -/
def writeTable (alignment width : Nat) (entries : List Bytes) : Bytes :=
  let head := alignTo alignment (varint64 entries.length)
  let reserved := List.replicate (width * entries.length) 0
  patchOffsets width (head ++ reserved ++ entries.flatten) head.length
    (Segments.startsFrom 0 entries)

/-- An empty table has no section. -/
def writeTableSection (out : Bytes) (kind : Section) (width : Nat) (entries : List Bytes) :
    Bytes :=
  if entries = [] then out else writeSection out kind width (writeTable width width entries)

def utf8Bytes (text : String) : Bytes := text.toByteArray.data.toList

def writeStringSection (out : Bytes) (strings : List String) : Bytes :=
  writeTableSection out .string 4 (strings.map utf8Bytes)

def writeConstantSection (out : Bytes) (constants : List Bytes) : Bytes :=
  writeTableSection out .constant 8 constants

def writeTypeSection (out : Bytes) (entries : List Bytes) : Bytes :=
  writeTableSection out .type 4 entries

/-! ### Globals -/

structure GlobalRecord where
  nameIdx : Nat
  typeIdx : Nat
  constIdx : Nat
  alignment : Nat
  visibility : UInt8
  constant : Bool

def GlobalRecord.encode (version : BytecodeVersion) (record : GlobalRecord) : Bytes :=
  varint64 record.nameIdx ++ (varint64 record.typeIdx ++ (varint64 record.constIdx ++
    (varint64 record.alignment ++
      if version.atLeast .v13_3 then
        [record.visibility] ++ varint64 (if record.constant then 1 else 0)
      else [])))

def writeGlobal (version : BytecodeVersion) (global : Global) : Emission GlobalRecord := do
  if global.constant then requireVersion "global.constant" .v13_3 version else pure ()
  if global.symbolVisibility ≠ .pub then
    requireVersion "global.symbol_visibility" .v13_3 version
  else pure ()
  let nameIdx ← internString global.symName
  let typeIdx ← internType global.elementType
  let constIdx ← addConstant (constantData global.data)
  return {
    nameIdx
    typeIdx
    constIdx
    alignment := global.alignment.toNat
    visibility := global.symbolVisibility.code
    constant := global.constant }

def writeGlobalSection (out : Bytes) (version : BytecodeVersion) (globals : List GlobalRecord) :
    Bytes :=
  if globals = [] then out
  else writeSection out .global 1
    (varint64 globals.length ++ globals.flatMap (GlobalRecord.encode version))

/-! ### Functions -/

namespace Function

/-- The attribute that is written with an entry point. -/
def hints (function : Function) : Option Attribute :=
  if function.isEntry then function.attributes.find "optimization_hints" else none

def flags (function : Function) : UInt8 :=
  (if function.isEntry then 2 else 0) + if function.hints.isSome then 4 else 0

/-- The worker-warps hint is refused before 13.3. -/
def checkHints (function : Function) (version : BytecodeVersion) : Emission Unit :=
  if version.atLeast .v13_3 then pure ()
  else
    match function.hints with
    | some (.optimizationHints entries) =>
      if entries.hasName "num_worker_warps_per_cta" then
        .fail ("optimization hint 'num_worker_warps_per_cta' requires bytecode version 13.3 or "
          ++ "newer, requested " ++ version.text)
      else pure ()
    | _ => pure ()

def writeHints (function : Function) : Emission Unit :=
  match function.hints with
  | some attr => writeAttribute attr
  | none => pure ()

end Function

def emitIndexOf (type : Ty) : Emission Unit := do
  let index ← internType type
  emitVarint index

mutual

/-- `write_operation`; the regions come last. -/
def writeOp : OpTree → Emission Unit
  | .mk opcode _ _ regions location body => do
    recordOp location
    body.program
    if opcode.writesRegions then do
      emitVarint regions.length
      writeRegions regions
    else pure ()

def writeRegions : RegionTrees → Emission Unit
  | .nil => pure ()
  | .cons blocks rest => do
    emitVarint blocks.length
    writeBlocks blocks
    writeRegions rest

def writeBlocks : BlockTrees → Emission Unit
  | .nil => pure ()
  | .cons argTypes ops rest => do
    emitVarint argTypes.length
    let _ ← forEach emitIndexOf argTypes
    emitVarint ops.length
    writeOps ops
    writeBlocks rest

def writeOps : OpTrees → Emission Unit
  | .nil => pure ()
  | .cons head tail => do
    writeOp head
    writeOps tail

end

/-- `write_function_body`: the first block of the first region. -/
def writeFunctionBody (function : Function) : Emission Unit :=
  match function.regions with
  | .cons (.cons _ ops _) _ => writeOps ops
  | _ => pure ()

structure FunctionRecord where
  nameIdx : Nat
  sigIdx : Nat
  flags : UInt8
  diIdx : Nat
  hints : Bytes
  body : Bytes

def FunctionRecord.encode (record : FunctionRecord) : Bytes :=
  varint64 record.nameIdx ++ (varint64 record.sigIdx ++ ([record.flags] ++
    (varint64 record.diIdx ++ (record.hints ++ (varint64 record.body.length ++ record.body)))))

/-- What a function record refers to: the name, the signature and the debug info. -/
structure FunctionHead where
  nameIdx : Nat
  sigIdx : Nat
  diIdx : Nat

def writeFunctionHead (version : BytecodeVersion) (function : Function) (name : String)
    (type : Ty) : Emission FunctionHead := do
  let nameIdx ← internString name
  let sigIdx ← internType type
  function.checkHints version
  let diIdx ← beginFunction name (function.attributes.findString "di_name") function.location
  return { nameIdx, sigIdx, diIdx }

def writeNamedFunction (version : BytecodeVersion) (function : Function) (name : String)
    (type : Ty) (ctx : WriterCtx) : Except String (FunctionRecord × WriterCtx) := do
  let head ← (writeFunctionHead version function name type).run ctx
  let hints ← function.writeHints.run head.ctx
  let body ← (writeFunctionBody function).run hints.ctx
  let record : FunctionRecord :=
    { nameIdx := head.value.nameIdx
      sigIdx := head.value.sigIdx
      flags := function.flags
      diIdx := head.value.diIdx
      hints := hints.bytes
      body := body.bytes }
  return (record, body.ctx)

def writeFunction (version : BytecodeVersion) (function : Function) (ctx : WriterCtx) :
    Except String (FunctionRecord × WriterCtx) :=
  match function.attributes.findString "sym_name" with
  | none => .error "function missing sym_name attribute"
  | some name =>
    match function.attributes.findType "function_type" with
    | none => .error "function missing function_type attribute"
    | some type => writeNamedFunction version function name type ctx

def writeFunctions (version : BytecodeVersion) :
    List Function → WriterCtx → Except String (List FunctionRecord × WriterCtx)
  | [], ctx => .ok ([], ctx)
  | function :: rest, ctx => do
    let first ← writeFunction version function ctx
    let others ← writeFunctions version rest first.2
    return (first.1 :: others.1, others.2)

def writeFunctionSection (out : Bytes) (functions : List FunctionRecord) : Bytes :=
  if functions = [] then out
  else writeSection out .func 8
    (alignTo 8 (varint64 functions.length ++ functions.flatMap FunctionRecord.encode))

/-! ### Debug section -/

/-- The table is never empty in the section. -/
def DebugInfo.entries (debug : DebugInfo) : List Bytes :=
  if debug.attrs = [] then [DebugAttribute.unknown.encode] else debug.attrs

def DebugInfo.payload (debug : DebugInfo) : Bytes :=
  let ids := debug.perFunction.flatten
  let indexOffsets := alignTo 4 (varint64 debug.perFunction.length) ++
    (Segments.startsFrom 0 debug.perFunction).flatMap (littleEndian 4)
  let attrIds := alignTo 8 (indexOffsets ++ varint64 (ids.length % 2 ^ 32)) ++
    ids.flatMap (littleEndian 8)
  alignTo 4 (attrIds ++ varint64 debug.entries.length) ++
    ((Segments.startsFrom 0 debug.entries).flatMap (littleEndian 4) ++ debug.entries.flatten)

def writeDebugSection (out : Bytes) (debug : DebugInfo) : Bytes :=
  writeSection out .debug 8 debug.payload

/-! ### Types -/

/-- The type with the pointer attribute that it gets from the type it is in. -/
def qualify (attr : Option PointerAttribute) (type : Ty) : Ty :=
  attr.elim type type.withPointerAttribute

/-- The element type of a tile, as an entry of its own. -/
def elementReference (attr : Option PointerAttribute) : TileElementType → Ty
  | .scalar type => .scalar type
  | .pointer type => qualify attr (.pointer type)

/-- Flags that say whether an optional byte follows, from `since` on. -/
def emitFlags {ι : Type} (version since : BytecodeVersion) (item : Option ι) : Emission Unit :=
  if version.atLeast since then emitVarint (if item.isSome then 1 else 0) else pure ()

def emitPointerAttribute (attr : Option PointerAttribute) : Emission Unit :=
  emitBytes (attr.elim [] fun attr => [UInt8.ofNat attr.code])

def emitIndicesOf (types : List Ty) : Emission Unit := do
  emitVarint types.length
  let _ ← forEach emitIndexOf types

def emitPaddingFlag (value : Option PaddingValue) : Emission Unit :=
  emitVarint (if value.isSome then 1 else 0)

def paddingByte (value : Option PaddingValue) : Bytes :=
  value.elim [] fun value => [UInt8.ofNat value.code]

/-- Up to 13.2 a byte says whether there is a padding value, which is a varint. -/
def partitionPadding (version : BytecodeVersion) (value : Option PaddingValue) : Bytes :=
  if version.atLeast .v13_3 then paddingByte value
  else value.elim [0] fun value => [1] ++ varint64 value.code

def supportsPointerAttribute : Ty → Bool
  | .pointer _ | .tensorView _ => true
  | other => other.pointerDependency.isSome

/-- `serialize_type_with_pointer_attribute`. -/
def serializeType (version : BytecodeVersion) : Ty → Option PointerAttribute → Emission Unit
  | .withPointerAttribute base attr, _ => do
    requireVersion "ptr_attr" .v13_4 version
    if supportsPointerAttribute base then serializeType version base (some attr)
    else .fail "ptr_attr requires a pointer, pointer tile or view type"
  | .scalar type, _ => do
    requireVersion type.variantName type.minimumVersion version
    emitVarint type.typeTag.code
  | .pointer type, attr => do
    emitVarint TypeTag.pointer.code
    emitFlags version .v13_4 attr
    emitIndexOf (.scalar type.pointee)
    emitPointerAttribute attr
  | .tile type, attr => do
    emitVarint TypeTag.tile.code
    emitIndexOf (elementReference attr type.elementType)
    emitBytes (longArray type.shape)
  | .tensorView type, attr => do
    emitVarint TypeTag.tensorView.code
    emitFlags version .v13_4 attr
    emitIndexOf (.scalar type.elementType)
    emitBytes (longArray type.shape)
    emitBytes (longArray type.strides)
    emitPointerAttribute attr
  | .partitionView type, attr => do
    emitVarint TypeTag.partitionView.code
    emitFlags version .v13_3 type.paddingValue
    emitBytes (intArray type.tileShape)
    emitIndexOf (qualify attr (.tensorView type.tensorView))
    emitBytes (intArray type.dimMap)
    emitBytes (partitionPadding version type.paddingValue)
  | .gatherScatterView type, attr => do
    requireVersion "gather_scatter_view" .v13_3 version
    emitVarint TypeTag.gatherScatterView.code
    emitPaddingFlag type.paddingValue
    emitBytes (intArray type.tileShape)
    emitIndexOf (qualify attr (.tensorView type.tensorView))
    emitVarint (type.sparseDim.toInt64.toBitVec.toNat)
    emitBytes (paddingByte type.paddingValue)
  | .stridedView type, attr => do
    requireVersion "strided_view" .v13_3 version
    emitVarint TypeTag.stridedView.code
    emitPaddingFlag type.paddingValue
    emitBytes (intArray type.tileShape)
    emitBytes (intArray type.traversalStrides)
    emitIndexOf (qualify attr (.tensorView type.tensorView))
    emitBytes (intArray type.dimMap)
    emitBytes (paddingByte type.paddingValue)
  | .func inputs results, _ => do
    emitVarint TypeTag.func.code
    emitIndicesOf inputs.toList
    emitIndicesOf results.toList
  | .token, _ => emitVarint TypeTag.token.code

/-- The entries of the type section, with the type table of the loop. -/
def serializeTypes (version : BytecodeVersion) :
    List Ty → WriterCtx → Except String (List Bytes)
  | [], _ => .ok []
  | type :: rest, ctx => do
    let entry ← (serializeType version type none).run ctx
    let entries ← serializeTypes version rest entry.ctx
    return entry.bytes :: entries

/-! ## The writer -/

/-- The last sections: the producer, which is already interned, and the end. -/
def writeEnd (out : Bytes) (strings : List String) : Option String → Bytes
  | none => out ++ [0]
  | some producer =>
    writeSection out .producer 1
      (varint64 ((Interning.intern strings producer).idxOf producer)) ++ [0]

structure Output where
  version : BytecodeVersion
  producer : Option String
  ctx : WriterCtx
  globals : List GlobalRecord
  functions : List FunctionRecord
  types : List Bytes

def Output.bytes (output : Output) : Bytes :=
  let out := writeHeader output.version
  let out := writeGlobalSection out output.version output.globals
  let out := writeFunctionSection out output.functions
  let out := writeConstantSection out output.ctx.constants
  let out := writeDebugSection out output.ctx.debug
  let out := writeTypeSection out output.types
  let out := writeStringSection out output.ctx.strings
  writeEnd out output.ctx.strings output.producer

def writeModule (gate : Function → Option String) (module : SourceModule)
    (version : BytecodeVersion) : Except String Output :=
  if ¬version.atLeast .minSupported then
    .error ("unsupported version " ++ version.text ++ ", minimum is " ++
      BytecodeVersion.minSupported.text)
  else if version ∉ BytecodeVersion.supported then
    .error ("unsupported bytecode version " ++ version.text ++ "; supported versions: " ++
      ", ".intercalate (BytecodeVersion.supported.map BytecodeVersion.text))
  else do
    let scanned ← (prescan gate version module).run .empty
    let globals ← (forEach (writeGlobal version) module.globals).run scanned.ctx
    let functions ← writeFunctions version module.functions globals.ctx
    let types ← serializeTypes version functions.2.types functions.2
    return {
      version
      producer := module.producer
      ctx := functions.2
      globals := globals.value
      functions := functions.1
      types }

def writeBytecodeVersion (gate : Function → Option String) (module : SourceModule)
    (version : BytecodeVersion) : Except String Bytes := do
  let output ← writeModule gate module version
  return output.bytes

end CuTile.Bytecode
