import CuTile.Bytecode.Format
import CuTile.Bytecode.Reader

/-! # The bytecode decoder

`decode_bytecode` and the parsers of its sections. The result holds the tables that are
listed and the text that lists them. Recorded requests are the capacities that vectors are
made with, copies of bytes, and the length of every text that is put together; `quote` is
the debug format of a string.
-/

namespace CuTile.Bytecode

open Metered Reader

/-! ## Sections -/

structure RawSections where
  data : List (Option Bytes)

namespace RawSections

def empty : RawSections :=
  ⟨List.replicate numSections none⟩

def insert (sections : RawSections) (id : Nat) (payload : Bytes) : RawSections :=
  ⟨sections.data.set id (some payload)⟩

def get (sections : RawSections) (kind : Section) : Option Bytes :=
  (sections.data[kind.id]?).join

end RawSections

structure SectionHeader where
  id : Nat
  dataLen : Nat
deriving DecidableEq, Repr

def readHeader : Decode BytecodeVersion := do
  let found ← readBytes 8
  if found ≠ magic then fail .invalidMagic
  else do
    let major ← readByte
    let minor ← readByte
    let tag ← readLe 2
    return ⟨major, minor, UInt16.ofNat tag⟩

def readSectionHeader : Decode SectionHeader := do
  let idAndAlign ← readByte
  let id := idAndAlign.toNat % 128
  if id = Section.endOfBytecode.id then pure ⟨id, 0⟩
  else do
    let length ← readVarint
    if 128 ≤ idAndAlign.toNat then do
      let alignment ← readVarint
      skipPadding alignment
      return ⟨id, length⟩
    else pure ⟨id, length⟩

/-- The loop over the sections; each of them takes at least a byte. -/
def readSections : Nat → RawSections → Decode RawSections
  | 0, _ => panics .unreachable
  | count + 1, sections => do
    let header ← readSectionHeader
    if header.id = Section.endOfBytecode.id then pure sections
    else do
      let payload ← readBytes header.dataLen
      readSections count (sections.insert header.id payload)

/-! ## Tables with offsets -/

section Tables

variable {β : Type}

/-- `data[offsets[index]..offsets[index + 1]]`; the last entry takes what is left. -/
def readEntry (offsets : List Nat) (data : Bytes) (index : Nat) : Decode Bytes := do
  let start ← elementAt offsets index
  let stop ← (if index + 1 < offsets.length then elementAt offsets (index + 1)
    else pure data.length)
  slice data start stop

/-- One round of the loop over the entries. -/
def pushEntry (entry : List β → Bytes → Decode β) (offsets : List Nat) (data : Bytes)
    (entries : List β) (index : Nat) : Decode (List β) := do
  let bytes ← readEntry offsets data index
  let value ← entry entries bytes
  return entries ++ [value]

/-- A table after its padding: the offsets, and then the bytes of the entries. -/
def parseEntries (width : Nat) (entry : List β → Bytes → Decode β) (count : Nat) :
    Decode (List β) := do
  withCapacity 8 count
  let offsets ← (readLe width).replicate count
  let left ← remaining
  let data ← readBytes left
  withCapacity 24 count
  (List.range count).foldlM (pushEntry entry offsets data) []

/-- The form of the string, type and constant sections. -/
def parseTable (alignment width : Nat) (entry : List β → Bytes → Decode β) : Decode (List β) := do
  let count ← readVarint
  if count = 0 then pure []
  else do
    skipPadding alignment
    parseEntries width entry count

def parseSection (payload : Option Bytes) (parse : Decode (List β)) : Decode (List β) :=
  match payload with
  | none => pure []
  | some data => parse.onState ⟨data, 0⟩

end Tables

/-- `from_utf8` with its replacement text. -/
def textOfBytes (bytes : Bytes) : String :=
  (String.fromUTF8? bytes.toByteArray).getD "<invalid utf8>"

def stringEntry (_ : List String) (bytes : Bytes) : Decode String := do
  request (.reserve (textOfBytes bytes).utf8ByteSize)
  return textOfBytes bytes

def parseStringSection (payload : Option Bytes) : Decode (List String) :=
  parseSection payload (parseTable 4 4 stringEntry)

def constantEntry (_ : List Bytes) (bytes : Bytes) : Decode Bytes := do
  request (.reserve bytes.length)
  return bytes

def parseConstantSection (payload : Option Bytes) : Decode (List Bytes) :=
  parseSection payload (parseTable 8 8 constantEntry)

/-! ## Types -/

def varintOrZero : Decode Nat :=
  readVarint.unwrapOr 0

def byteOrZero : Decode Nat :=
  (do let byte ← readByte; return byte.toNat : Decode Nat).unwrapOr 0

/-- A counted array; elements that cannot be read are zero. -/
def readArray {α : Type} (size : Nat) (element : Decode α) : Decode (List α) := do
  let count ← varintOrZero
  withCapacity size count
  element.replicate count

def readLongs : Decode (List Int64) :=
  readArray 8 (readLeI64.unwrapOr 0)

def readInts : Decode (List Int32) :=
  readArray 4 (readLeI32.unwrapOr 0)

/-- The texts of the elements are collected before they are joined. -/
def joinTexts (separator : String) (texts : List String) : Decode String := do
  withCapacity 24 texts.length
  return separator.intercalate texts

/-- `DYNAMIC`. -/
def dynamicExtent : Int64 := Int64.minValue

def extentText (extent : Int64) : String :=
  if extent = dynamicExtent then "?" else toString extent.toInt

def longText (value : Int64) : String :=
  toString value.toInt

def intText (value : Int32) : String :=
  toString value.toInt

def typeName (types : List String) (index : Nat) : String :=
  (types[index]?).getD "?"

/-- A varint of flags, from `since` on. -/
def readFlags (version since : BytecodeVersion) : Decode Nat :=
  if version.atLeast since then varintOrZero else pure 0

/-- Behind a flag: a byte, with the text in front of it. -/
def readFlagged (flagged : Bool) (label : String) : Decode String :=
  if flagged then do
    let value ← byteOrZero
    return label ++ toString value
  else pure ""

def pointerEntry (types : List String) (version : BytecodeVersion) : Decode String := do
  let flags ← readFlags version .v13_4
  let elem ← varintOrZero
  let ptrAttr ← readFlagged (flags % 2 = 1) ", ptr_attr="
  return "ptr<" ++ typeName types elem ++ ptrAttr ++ ">"

def tileEntry (types : List String) : Decode String := do
  let elem ← varintOrZero
  let dims ← readLongs
  let shape ← joinTexts "x" (dims.map longText)
  return if shape.isEmpty then "tile<" ++ typeName types elem ++ ">"
    else "tile<" ++ shape ++ "x" ++ typeName types elem ++ ">"

def tensorViewEntry (types : List String) (version : BytecodeVersion) : Decode String := do
  let flags ← readFlags version .v13_4
  let elem ← varintOrZero
  let shape ← readLongs
  let strides ← readLongs
  let shapeText ← joinTexts "x" (shape.map extentText)
  let stridesText ← joinTexts "," (strides.map extentText)
  let ptrAttr ← readFlagged (flags % 2 = 1) ", ptr_attr="
  return "tensor_view<" ++ shapeText ++ "x" ++ typeName types elem ++ ", strides=[" ++
    stridesText ++ "]" ++ ptrAttr ++ ">"

/-- Up to 13.2 a byte before the padding says that there is one, and it is a varint. -/
def readPaddingText (version : BytecodeVersion) (flags : Nat) : Decode String :=
  if version.atLeast .v13_3 then readFlagged (flags % 2 = 1) ", padding="
  else do
    let present ← byteOrZero
    if present ≠ 0 then do
      let value ← varintOrZero
      return ", padding=" ++ toString value
    else pure ""

def partitionViewEntry (types : List String) (version : BytecodeVersion) : Decode String := do
  let flags ← readFlags version .v13_3
  let tileShape ← readInts
  let view ← varintOrZero
  let _ ← readInts
  let padding ← readPaddingText version flags
  let shape ← joinTexts "x" (tileShape.map intText)
  return "partition_view<tile=(" ++ shape ++ "), tv=" ++ typeName types view ++ padding ++ ">"

def gatherScatterViewEntry (types : List String) : Decode String := do
  let flags ← varintOrZero
  let tileShape ← readInts
  let view ← varintOrZero
  let sparseDim ← varintOrZero
  let padding ← readFlagged (flags % 2 = 1) ", padding="
  let shape ← joinTexts "x" (tileShape.map intText)
  return "gather_scatter_view<tile=(" ++ shape ++ "), tv=" ++ typeName types view ++
    ", sparse_dim=" ++ toString sparseDim ++ padding ++ ">"

def stridedViewEntry (types : List String) : Decode String := do
  let flags ← varintOrZero
  let tileShape ← readInts
  let traversalStrides ← readInts
  let view ← varintOrZero
  let dimMap ← readInts
  let padding ← readFlagged (flags % 2 = 1) ", padding="
  let shape ← joinTexts "x" (tileShape.map intText)
  let strides ← joinTexts "," (traversalStrides.map intText)
  let dimMapText ← joinTexts "," (dimMap.map intText)
  return "strided_view<tile=(" ++ shape ++ "), traversal_strides=[" ++ strides ++ "], tv=" ++
    typeName types view ++ ", dim_map=[" ++ dimMapText ++ "]" ++ padding ++ ">"

def funcEntry (types : List String) : Decode String := do
  let inputs ← readArray 24 varintOrZero
  let results ← readArray 24 varintOrZero
  return "(" ++ ", ".intercalate (inputs.map (typeName types)) ++ ") -> (" ++
    ", ".intercalate (results.map (typeName types)) ++ ")"

/-- The arms of `decode_type_entry`, after the tag. -/
def taggedEntry (types : List String) (version : BytecodeVersion) : TypeTag → Decode String
  | .i1 => pure "i1"
  | .i4 => pure "i4"
  | .i8 => pure "i8"
  | .i16 => pure "i16"
  | .i32 => pure "i32"
  | .i64 => pure "i64"
  | .f16 => pure "f16"
  | .bf16 => pure "bf16"
  | .f32 => pure "f32"
  | .tf32 => pure "tf32"
  | .f64 => pure "f64"
  | .f8e4m3fn => pure "f8e4m3fn"
  | .f8e5m2 => pure "f8e5m2"
  | .f8e8m0fnu => pure "f8e8m0fnu"
  | .f4e2m1fn => pure "f4e2m1fn"
  | .f8e5m3fnu => pure "f8e5m3fnu"
  | .token => pure "token"
  | .pointer => pointerEntry types version
  | .tile => tileEntry types
  | .tensorView => tensorViewEntry types version
  | .partitionView => partitionViewEntry types version
  | .gatherScatterView => gatherScatterViewEntry types
  | .stridedView => stridedViewEntry types
  | .func => funcEntry types

def tagOrNone : Decode (Option Nat) :=
  (do let value ← readVarint; return some value : Decode (Option Nat)).unwrapOr none

def decodeTypeEntry (types : List String) (version : BytecodeVersion) : Decode String := do
  let tagValue ← tagOrNone
  match tagValue with
  | none => pure "<read error>"
  | some value =>
    -- The tag is the low byte of the varint.
    match TypeTag.ofCode (value % 256) with
    | some tag => taggedEntry types version tag
    | none => pure ("<unknown type tag " ++ toString (value % 256) ++ ">")

def typeEntry (version : BytecodeVersion) (types : List String) (bytes : Bytes) :
    Decode String := do
  let text ← (decodeTypeEntry types version).onState ⟨bytes, 0⟩
  request (.text text.utf8ByteSize)
  return text

def parseTypeSection (version : BytecodeVersion) (payload : Option Bytes) :
    Decode (List String) :=
  parseSection payload (parseTable 4 4 (typeEntry version))

/-! ## Globals -/

structure GlobalEntry where
  name : String
  type : String
  constant : Nat
  alignment : Nat
  /-- From version 13.3 on: the visibility, and whether the global is constant. -/
  qualifiers : Option (String × Bool)
deriving DecidableEq, Repr

def GlobalEntry.text (entry : GlobalEntry) : String :=
  "@" ++ entry.name ++ " : " ++ entry.type ++ " = const[" ++ toString entry.constant ++
    "], align " ++ toString entry.alignment ++
    match entry.qualifiers with
    | some (visibility, isConstant) =>
      ", " ++ visibility ++ ", constant=" ++ if isConstant then "true" else "false"
    | none => ""

def visibilityText (visibility : UInt8) : String :=
  if visibility = 0 then "public" else if visibility = 1 then "private" else "unknown"

def readQualifiers (version : BytecodeVersion) : Decode (Option (String × Bool)) :=
  if version.atLeast .v13_3 then do
    let visibility ← readByte
    let constant ← readVarint
    return some (visibilityText visibility, constant ≠ 0)
  else pure none

def readGlobal (strings types : List String) (version : BytecodeVersion) : Decode GlobalEntry := do
  let nameIdx ← readVarint
  let typeIdx ← readVarint
  let constIdx ← readVarint
  let alignment ← readVarint
  let qualifiers ← readQualifiers version
  let entry := ⟨typeName strings nameIdx, typeName types typeIdx, constIdx, alignment, qualifiers⟩
  request (.text entry.text.utf8ByteSize)
  return entry

def parseGlobalSection (strings types : List String) (version : BytecodeVersion) :
    Decode (List GlobalEntry) := do
  let count ← readVarint
  withCapacity 24 count
  (readGlobal strings types version).replicate count

/-! ## Functions -/

structure FunctionEntry where
  isKernel : Bool
  name : String
  signature : String
  bodyLen : Nat
  hasHints : Bool
deriving DecidableEq, Repr

/-- `count_ops_in_body` is the number of bytes. -/
def FunctionEntry.text (entry : FunctionEntry) : String :=
  "  " ++ (if entry.isKernel then "entry" else "func") ++ " @" ++ entry.name ++ " : " ++
    entry.signature ++ "\n" ++ "    body: " ++ toString entry.bodyLen ++ " bytes, ~" ++
    toString entry.bodyLen ++ " ops\n" ++
    if entry.hasHints then "    [has optimization_hints]\n" else ""

/-- The record of a function up to the length of its body. Optimization hints are not
stepped over. -/
def readFunctionHead (strings types : List String) : Decode FunctionEntry := do
  let nameIdx ← readVarint
  let sigIdx ← readVarint
  let flags ← readByte
  let _ ← readVarint
  let bodyLen ← readVarint
  return ⟨flags.toNat / 2 % 2 = 1, typeName strings nameIdx, typeName types sigIdx, bodyLen,
    flags.toNat / 4 % 2 = 1⟩

def readFunction (strings types : List String) : Decode FunctionEntry := do
  let entry ← readFunctionHead strings types
  let _ ← readBytes entry.bodyLen
  request (.text entry.text.utf8ByteSize)
  return entry

def parseFuncSection (strings types : List String) : Decode (List FunctionEntry) := do
  let count ← readVarint
  withCapacity 24 count
  (readFunction strings types).replicate count

/-! ## The text -/

/-- `writeln!(out, ..)`: the text so far grows. -/
def emit (out text : String) : Decode String := do
  request (.text (out ++ text).utf8ByteSize)
  return out ++ text

def emitLines (out : String) (lines : List String) : Decode String :=
  lines.foldlM emit out

/-- The lines of a table, with a title and an empty line after it. -/
def tableLines (title : String) (lines : List String) : List String :=
  ["=== " ++ title ++ " (" ++ toString lines.length ++ ") ===\n"] ++ lines ++ ["\n"]

/-- An empty table is not listed. -/
def emitTable (out title : String) (lines : List String) : Decode String :=
  if lines = [] then pure out else emitLines out (tableLines title lines)

def numbered (lines : List String) : List String :=
  lines.zipIdx.map fun line => "  [" ++ toString line.2 ++ "] " ++ line.1 ++ "\n"

/-! ## Debug section -/

section Debug

variable (quote : String → String) (strings : List String)

def debugString (index : Nat) : String :=
  quote ((strings[index]?).getD "<bad string index>")

/-- The fields of a debug attribute, as a line. -/
def debugAttribute : DebugTag → Decode String
  | .diFile => do
    let name ← readVarint
    let dir ← readVarint
    return "DIFile(name=" ++ debugString quote strings name ++ ", dir=" ++
      debugString quote strings dir ++ ")\n"
  | .diCompileUnit => do
    let file ← readVarint
    return "DICompileUnit(file=di[" ++ toString file ++ "])\n"
  | .diLexicalBlock => do
    let scopeId ← readVarint
    let file ← readVarint
    let line ← readVarint
    let col ← readVarint
    return "DILexicalBlock(scope=di[" ++ toString scopeId ++ "], file=di[" ++ toString file ++
      "], " ++ toString line ++ ":" ++ toString col ++ ")\n"
  | .diLoc => do
    let scopeId ← readVarint
    let file ← readVarint
    let line ← readVarint
    let col ← readVarint
    return "DILoc(scope=di[" ++ toString scopeId ++ "], " ++ debugString quote strings file ++
      ":" ++ toString line ++ ":" ++ toString col ++ ")\n"
  | .diSubprogram => do
    let file ← readVarint
    let line ← readVarint
    let name ← readVarint
    let linkage ← readVarint
    let cu ← readVarint
    let scopeLine ← readVarint
    return "DISubprogram(file=di[" ++ toString file ++ "], line=" ++ toString line ++ ", name=" ++
      debugString quote strings name ++ ", linkage=" ++ debugString quote strings linkage ++
      ", cu=di[" ++ toString cu ++ "], scope_line=" ++ toString scopeLine ++ ")\n"
  | .callSite => do
    let callee ← readVarint
    let caller ← readVarint
    return "CallSite(callee=di[" ++ toString callee ++ "], caller=di[" ++ toString caller ++ "])\n"
  | .unknown => pure "Unknown\n"

def debugEntry : Decode String := do
  let code ← readByte
  match DebugTag.ofCode code with
  | some tag => debugAttribute quote strings tag
  | none => fail (.unknownDebugTag code)

/-- The start of an entry, and where the next one starts or the data ends. -/
def entryRange (offsets : List Nat) (size index : Nat) : Decode (Nat × Nat) := do
  let start ← elementAt offsets index
  let stop ← (if index + 1 < offsets.length then elementAt offsets (index + 1) else pure size)
  return (start, stop)

def emitDebugAttribute (offsets : List Nat) (data : Bytes) (out : String) (index : Nat) :
    Decode String := do
  let (start, stop) ← entryRange offsets data.length index
  if stop ≤ start ∨ data.length < stop then fail .debugAttributeOffsets
  else do
    let bytes ← slice data start stop
    let line ← (debugEntry quote strings).onState ⟨bytes, 0⟩
    emit out ("  di[" ++ toString (index + 1) ++ "] = " ++ line)

def emitDebugFunction (offsets attrIds : List Nat) (out : String) (index : Nat) :
    Decode String := do
  let (start, stop) ← entryRange offsets attrIds.length index
  if stop < start ∨ attrIds.length < stop then fail .debugIndexOffsets
  else do
    let ids := ((attrIds.drop start).take (stop - start)).map toString
    let text ← joinTexts ", " ids
    emit out ("  fn " ++ toString index ++ ": [" ++ text ++ "]\n")

/-- A counted array whose capacity is capped by the length of the payload. -/
def readCapped (size alignment width : Nat) : Decode (List Nat) := do
  let count ← readVarint
  skipPadding alignment
  withCapacity 8 (min count size)
  (readLe width).replicate count

def parseDebugSection (out : String) : Decode String := do
  let reader ← current
  let indexOffsets ← readCapped reader.data.length 4 4
  let attrIds ← readCapped reader.data.length 8 8
  let attrOffsets ← readCapped reader.data.length 4 4
  let left ← remaining
  let attrData ← readBytes left
  let out ← emit out ("=== Debug (" ++ toString indexOffsets.length ++ " functions) ===\n")
  let out ← (List.range attrOffsets.length).foldlM
    (emitDebugAttribute quote strings attrOffsets attrData) out
  (List.range indexOffsets.length).foldlM (emitDebugFunction indexOffsets attrIds) out

end Debug

/-! ## The decoder -/

structure Listing where
  version : BytecodeVersion
  strings : List String
  producer : Option String
  types : List String
  constants : List Bytes
  globals : List GlobalEntry
  functions : List FunctionEntry
  text : String
deriving DecidableEq, Repr

def readProducer (strings : List String) : Decode String := do
  let index ← readVarint
  match strings[index]? with
  | some name => pure name
  | none => fail .producerIndex

/-- A section with a parser of its own, if it is there. -/
def whenPresent {α : Type} (payload : Option Bytes) (parse : Decode α) : Decode (Option α) :=
  match payload with
  | none => pure none
  | some data => do
    let value ← parse.onState ⟨data, 0⟩
    return some value

def producerLines (quote : String → String) : Option String → List String
  | some name => ["=== Producer ===\n  " ++ quote name ++ "\n\n"]
  | none => []

/-- Functions are listed whenever the section is there, without an empty line after them. -/
def functionLines : Option (List FunctionEntry) → List String
  | some functions => ["=== Functions (" ++ toString functions.length ++ ") ===\n"] ++
      functions.map fun function => function.text ++ "\n"
  | none => []

def emitDebug (quote : String → String) (strings : List String) (payload : Option Bytes)
    (out : String) : Decode String :=
  match payload with
  | none => pure out
  | some data => (parseDebugSection quote strings out).onState ⟨data, 0⟩

def decodeSections (quote : String → String) (version : BytecodeVersion)
    (sections : RawSections) : Decode Listing := do
  let out ← emitLines "" ["TileIR bytecode v" ++ version.text ++ "\n", "\n"]
  let strings ← parseStringSection (sections.get .string)
  let out ← emitTable out "Strings" (numbered (strings.map quote))
  let producer ← whenPresent (sections.get .producer) (readProducer strings)
  let out ← emitLines out (producerLines quote producer)
  let types ← parseTypeSection version (sections.get .type)
  let out ← emitTable out "Types" (numbered types)
  let constants ← parseConstantSection (sections.get .constant)
  let out ← emitTable out "Constants"
    (numbered (constants.map fun bytes => toString bytes.length ++ " bytes"))
  let globals ← whenPresent (sections.get .global) (parseGlobalSection strings types version)
  let out ← emitTable out "Globals"
    ((globals.getD []).map fun entry => "  " ++ entry.text ++ "\n")
  let functions ← whenPresent (sections.get .func) (parseFuncSection strings types)
  let out ← emitLines out (functionLines functions)
  let out ← emitDebug quote strings (sections.get .debug) out
  return ⟨version, strings, producer, types, constants, globals.getD [], functions.getD [], out⟩

def decode (quote : String → String) (data : Bytes) : Decode Listing := do
  let version ← readHeader
  let sections ← readSections (data.length + 1) .empty
  decodeSections quote version sections

def decodeBytecode (quote : String → String) (data : Bytes) :
    MeteredRun Reader DecodeError Listing :=
  decode quote data ⟨data, 0⟩

end CuTile.Bytecode
