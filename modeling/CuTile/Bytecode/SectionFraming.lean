import CuTile.Bytecode.Reads

/-! # Sections are found where they were written

Every section is padded with respect to the whole output, and the decoder skips the padding
with respect to the whole input: wherever a section starts, its header and its payload are
read back.
-/

namespace CuTile.Bytecode

open Metered Reader List

variable {start : Nat} {back : Bytes}

/-! ## Numbers of variable length -/

theorem length_varintGroups_le (groups value : Nat) :
    (varintGroups groups value).length ≤ groups := by
  induction groups generalizing value with
  | zero => exact Nat.le_refl 0
  | succ groups induction =>
    rw [varintGroups]
    split
    · exact Nat.succ_le_succ (Nat.zero_le groups)
    · exact Nat.succ_le_succ (induction _)

/-- A shift by all but one bit leaves copies of the sign. -/
theorem sshiftRight_last (bits : BitVec 64) :
    bits.sshiftRight 63 = if bits.msb then BitVec.allOnes 64 else 0#64 := by
  ext index inside
  rw [BitVec.getElem_sshiftRight, BitVec.msb_eq_getLsbD_last]
  cases index with
  | zero => cases last : bits[63] <;> simp [last]
  | succ index =>
    have outside : ¬ 63 + (index + 1) < 64 := by omega
    cases last : bits[63] <;> simp [last, outside, -BitVec.reduceAllOnes]

theorem unzigzag_zigzag (bits : BitVec 64) :
    let code := (bits <<< 1) ^^^ bits.sshiftRight 63
    (code >>> 1) ^^^ -(code &&& 1#64) = bits := by
  have ones : -(1#64) = BitVec.allOnes 64 := by decide
  dsimp only
  rw [sshiftRight_last]
  cases sign : bits.msb with
  | false =>
    have even : (bits <<< 1) &&& 1#64 = 0#64 := by
      ext index inside
      cases index <;> simp
    rw [if_neg (by decide), BitVec.xor_zero, even, BitVec.neg_zero, BitVec.xor_zero]
    ext index inside
    rw [BitVec.msb_eq_getLsbD_last] at sign
    by_cases last : index = 63
    · subst last
      simpa using sign.symm
    · have below : 1 + index < 64 := by omega
      simp [below]
  | true =>
    have odd : ~~~(bits <<< 1) &&& 1#64 = 1#64 := by
      ext index inside
      cases index <;> simp
    rw [if_pos rfl, BitVec.xor_allOnes, odd, ones, BitVec.xor_allOnes]
    ext index inside
    rw [BitVec.msb_eq_getLsbD_last] at sign
    by_cases last : index = 63
    · subst last
      simpa using sign.symm
    · have below : 1 + index < 64 := by omega
      simp [below]

theorem Reads.signedVarint (value : Int64) :
    Reads readSignedVarint start (signedVarint value) back value := by
  have code := BitVec.isLt ((value.toBitVec <<< 1) ^^^ value.toBitVec.sshiftRight 63)
  have reads := (Reads.varint code : Reads _ start _ back _).map fun code =>
    let bits := BitVec.ofNat 64 code
    Int64.ofBitVec ((bits >>> 1) ^^^ -(bits &&& 1#64))
  dsimp only at reads
  rw [BitVec.ofNat_toNat, BitVec.setWidth_eq, unzigzag_zigzag, varint64,
    Nat.mod_eq_of_lt code] at reads
  exact reads

/-! ## One section -/

theorem Section.id_lt (kind : Section) : kind.id < 128 := by
  cases kind <;> decide

theorem Section.id_ne_end {kind : Section} (inside : kind ≠ .endOfBytecode) :
    kind.id ≠ Section.endOfBytecode.id := by
  cases kind with
  | endOfBytecode => exact absurd rfl inside
  | string | func | debug | constant | type | global | producer => decide

/-- A section with its alignment. The end marker is a single byte and no section. -/
structure Framed where
  kind : Section
  inside : kind ≠ .endOfBytecode
  exponent : Fin 64
  payload : Bytes

namespace Framed

def alignment (framed : Framed) : Nat := 2 ^ framed.exponent.val

theorem alignment_lt (framed : Framed) : framed.alignment < 2 ^ 64 :=
  Nat.pow_lt_pow_right (by decide) framed.exponent.isLt

/-- The header of the section, after `position` bytes. -/
def header (framed : Framed) (position : Nat) : Bytes :=
  let length := varint64 framed.payload.length
  let alignment := varint64 framed.alignment
  if 1 < framed.alignment then
    [UInt8.ofNat (framed.kind.id + 128)] ++ (length ++ (alignment ++
      padding framed.alignment (position + 1 + length.length + alignment.length)))
  else [UInt8.ofNat framed.kind.id] ++ length

theorem writeSectionHeader_eq (framed : Framed) (out : Bytes) :
    writeSectionHeader out framed.kind framed.payload.length framed.alignment =
      out ++ framed.header out.length := by
  unfold writeSectionHeader header
  split_ifs with aligned
  · rw [alignTo]
    simp only [append_assoc, length_append, length_singleton, Nat.add_assoc]
  · rfl

theorem dvd_length_writeSectionHeader (framed : Framed) (out : Bytes) :
    framed.alignment ∣
      (writeSectionHeader out framed.kind framed.payload.length framed.alignment).length := by
  unfold writeSectionHeader
  split_ifs with aligned
  · rw [alignTo, length_append, padding, length_replicate]
    exact dvd_add_paddingTo (Nat.zero_lt_of_lt aligned) _
  · have one : framed.alignment = 1 :=
      Nat.le_antisymm (Nat.not_lt.mp aligned) (Nat.two_pow_pos _)
    exact one ▸ Nat.one_dvd _

theorem reads_header (framed : Framed) (small : framed.payload.length < 2 ^ 64) :
    Reads readSectionHeader start (framed.header start) back
      ⟨framed.kind.id, framed.payload.length⟩ := by
  have isSmall := framed.kind.id_lt
  have notEnd := Section.id_ne_end framed.inside
  unfold header
  split_ifs with aligned
  · have code : (UInt8.ofNat (framed.kind.id + 128)).toNat = framed.kind.id + 128 :=
      toNat_ofNat_of_lt (by omega)
    have low : (framed.kind.id + 128) % 128 = framed.kind.id := by omega
    refine Reads.bind (Reads.byte _) ?_
    dsimp only
    rw [code, low, if_neg notEnd]
    refine Reads.bind (Reads.varint small) ?_
    rw [if_pos (Nat.le_add_left _ _)]
    exact Reads.bind (Reads.varint framed.alignment_lt) ((Reads.skipPadding aligned).map _)
  · have code : (UInt8.ofNat framed.kind.id).toNat = framed.kind.id :=
      toNat_ofNat_of_lt (by omega)
    have low : framed.kind.id % 128 = framed.kind.id := by omega
    refine Reads.bind (Reads.byte _) ?_
    dsimp only
    rw [code, low, if_neg notEnd]
    have reads := (Reads.varint small : Reads _ (start + 1) _ back _).map fun length =>
      (⟨framed.kind.id, length⟩ : SectionHeader)
    have plain : ¬ 128 ≤ framed.kind.id := by omega
    simp only [if_neg plain]
    exact reads

end Framed

/-! ## All sections -/

/-- The sections one after another, each of them on the output so far. -/
def writeSections (out : Bytes) (sections : List Framed) : Bytes :=
  sections.foldl (fun out framed => writeSection out framed.kind framed.alignment framed.payload)
    out

/-- A header and as much data as it says, as in the loop of the decoder. -/
def readSection : Decode (Nat × Bytes) := do
  let header ← readSectionHeader
  let payload ← readBytes header.dataLen
  return (header.id, payload)

def Framed.bytes (framed : Framed) (position : Nat) : Bytes :=
  framed.header position ++ framed.payload

def framedBytes (position : Nat) : List Framed → Bytes
  | [] => []
  | framed :: rest =>
    framed.bytes position ++ framedBytes (position + (framed.bytes position).length) rest

theorem writeSections_eq (out : Bytes) (sections : List Framed) :
    writeSections out sections = out ++ framedBytes out.length sections := by
  induction sections generalizing out with
  | nil => exact (append_nil out).symm
  | cons framed _ induction =>
    have first : writeSection out framed.kind framed.alignment framed.payload =
        out ++ framed.bytes out.length := by
      rw [writeSection, framed.writeSectionHeader_eq, append_assoc, Framed.bytes]
    have later := induction (out ++ framed.bytes out.length)
    rw [length_append] at later
    rw [framedBytes, ← append_assoc, ← later, writeSections, foldl_cons, first,
      writeSections]

theorem reads_section (framed : Framed) :
    Reads readSection start (framed.bytes start) back (framed.kind.id, framed.payload) := by
  apply Reads.of_small
  intro small
  rw [Framed.bytes, length_append] at small
  apply Reads.bind (framed.reads_header (by omega))
  exact (Reads.data framed.payload).map _

theorem reads_sections (sections : List Framed) :
    Reads (readSection.replicate sections.length) start (framedBytes start sections) back
      (sections.map fun framed => (framed.kind.id, framed.payload)) := by
  induction sections generalizing start with
  | nil => exact Reads.pure []
  | cons framed _ induction =>
    exact Reads.bind (reads_section framed) (induction.map _)

/-- Wherever the sections start, they are read back, their payloads lie where the alignment
wants them, and the numbers in the headers take at most ten bytes. -/
theorem sections_survive_framing :
    (∀ (out : Bytes) (sections : List Framed), (writeSections out sections).length < 2 ^ 63 →
      Returns (readSection.replicate sections.length) ⟨writeSections out sections, out.length⟩
        (sections.map fun framed => (framed.kind.id, framed.payload))
        ⟨writeSections out sections, (writeSections out sections).length⟩ ∧
      ∀ before framed after, sections = before ++ framed :: after →
        let header := writeSectionHeader (writeSections out before) framed.kind
          framed.payload.length framed.alignment
        header ++ framed.payload <+: writeSections out sections ∧
          framed.alignment ∣ header.length) ∧
    (∀ (value : UInt64) (start : Nat) (back : Bytes),
      Reads readVarint start (varint value.toNat) back value.toNat ∧
        (varint value.toNat).length ≤ 10) ∧
    ∀ (value : Int64) (start : Nat) (back : Bytes),
      Reads readSignedVarint start (signedVarint value) back value ∧
        (signedVarint value).length ≤ 10 := by
  refine ⟨fun out sections small => ⟨?_, ?_⟩, fun value start back => ⟨?_, ?_⟩,
    fun value start back => ⟨Reads.signedVarint value, length_varintGroups_le 10 _⟩⟩
  · have isOut := writeSections_eq out sections
    have placed : Placed ⟨writeSections out sections, out.length⟩ := by
      refine ⟨?_, small⟩
      rw [isOut, length_append]
      exact Nat.le_add_right _ _
    have rest : Reader.rest ⟨writeSections out sections, out.length⟩ =
        framedBytes out.length sections ++ [] := by
      rw [Reader.rest, isOut, drop_left, append_nil]
    have read := reads_sections sections _ placed rfl rest
    rw [Reader.advance] at read
    have finish : out.length + (framedBytes out.length sections).length =
        (writeSections out sections).length := by
      rw [isOut, length_append]
    rwa [finish] at read
  · intro before framed after split
    refine ⟨?_, framed.dvd_length_writeSectionHeader _⟩
    have front := writeSections_eq
      (writeSection (writeSections out before) framed.kind framed.alignment framed.payload) after
    refine ⟨_, front.symm.trans ?_⟩
    rw [split, writeSections, writeSections, writeSections, foldl_append, foldl_cons]
  · have reads : Reads readVarint start _ back _ := Reads.varint value.toNat_lt
    rwa [varint64, Nat.mod_eq_of_lt value.toNat_lt] at reads
  · exact length_varintGroups_le 10 _

/-! ## A whole output -/

theorem reads_writeHeader (version : BytecodeVersion) :
    Reads readHeader start (writeHeader version) back version := by
  have tag : Reads (readLe 2) (start + 10) (littleEndian 2 version.tag.toNat) back
      (ofLittleEndian (littleEndian 2 version.tag.toNat)) := (Reads.data _).map _
  rw [ofLittleEndian_littleEndian version.tag.toNat_lt] at tag
  have read := tag.map fun tag => BytecodeVersion.mk version.major version.minor (.ofNat tag)
  rw [UInt16.ofNat_toNat] at read
  change Reads readHeader start (magic ++ ([version.major] ++ ([version.minor] ++ _))) back _
  apply Reads.bind (Reads.data magic)
  rw [if_neg (not_not.mpr rfl)]
  exact Reads.bind (Reads.byte version.major) (Reads.bind (Reads.byte version.minor) read)

/-- The sections as the loop of the decoder collects them. -/
def RawSections.insertAll (found : RawSections) (sections : List Framed) : RawSections :=
  sections.foldl (fun found framed => found.insert framed.kind.id framed.payload) found

theorem reads_readSections (sections : List Framed) (spare : Nat) (found : RawSections) :
    Reads (readSections (sections.length + spare + 1) found) start
      (framedBytes start sections ++ [0]) back (found.insertAll sections) := by
  induction sections generalizing start found with
  | nil =>
    have ends : Reads readSectionHeader start [0] ([] ++ back) ⟨0, 0⟩ :=
      Reads.bind (Reads.byte 0) (Reads.pure _)
    change Reads (readSectionHeader >>= _) start ([0] ++ []) back found
    exact Reads.bind ends (Reads.pure found)
  | cons framed rest induction =>
    apply Reads.of_small
    intro small
    have later := @induction (start + (framed.bytes start).length)
      (found.insert framed.kind.id framed.payload)
    rw [length_cons, Nat.add_right_comm rest.length]
    simp only [framedBytes, Framed.bytes, length_append, append_assoc] at small later ⊢
    apply Reads.bind (framed.reads_header (by omega))
    rw [if_neg (Section.id_ne_end framed.inside)]
    exact Reads.bind (Reads.data framed.payload) (Nat.add_assoc start _ _ ▸ later)

namespace Output

/-- Every kind of section in the order of the file, and whether the output has it. -/
def candidates (output : Output) : List (Bool × Framed) :=
  let ⟨version, producer, ctx, globals, functions, types⟩ := output
  [(globals ≠ [], ⟨.global, by decide, 0,
      varint64 globals.length ++ globals.flatMap (GlobalRecord.encode version)⟩),
    (functions ≠ [], ⟨.func, by decide, 3,
      alignTo 8 (varint64 functions.length ++ functions.flatMap FunctionRecord.encode)⟩),
    (ctx.constants ≠ [], ⟨.constant, by decide, 3, writeTable 8 8 ctx.constants⟩),
    (true, ⟨.debug, by decide, 3, ctx.debug.payload⟩),
    (types ≠ [], ⟨.type, by decide, 2, writeTable 4 4 types⟩),
    (ctx.strings ≠ [], ⟨.string, by decide, 2, writeTable 4 4 (ctx.strings.map utf8Bytes)⟩),
    (producer.isSome, ⟨.producer, by decide, 0, producer.elim [] fun producer =>
      varint64 ((Interning.intern ctx.strings producer).idxOf producer)⟩)]

def sections (output : Output) : List Framed :=
  (output.candidates.filter Prod.fst).map Prod.snd

theorem bytes_eq (output : Output) :
    output.bytes = writeSections (writeHeader output.version) output.sections ++ [0] := by
  rw [sections, writeSections, foldl_map, foldl_filter, candidates, Output.bytes]
  cases output.producer <;>
    simp [writeGlobalSection, writeFunctionSection, writeConstantSection, writeTypeSection,
      writeStringSection, writeTableSection, writeDebugSection, writeEnd, Framed.alignment]

/-- The decoder gets back the version and the sections of every output. There is at most one
of a kind, so that none takes the place of another. -/
theorem reads_bytes (output : Output) (back : Bytes) :
    output.sections.map Framed.kind <+
        [.global, .func, .constant, .debug, .type, .string, .producer] ∧
      Reads (do
          let version ← readHeader
          let found ← readSections (output.bytes.length + 1) .empty
          return (version, found)) 0 output.bytes back
        (output.version, RawSections.empty.insertAll output.sections) := by
  have kinds : output.sections.map Framed.kind <+ output.candidates.map (·.2.kind) := by
    rw [sections, map_map]
    exact filter_sublist.map _
  refine ⟨kinds, ?_⟩
  have is := output.bytes_eq
  rw [writeSections_eq, append_assoc] at is
  have enough : output.sections.length ≤ output.bytes.length := by
    have few := kinds.length_le
    have size := congrArg length is
    simp [candidates, writeHeader, magic] at few size
    omega
  obtain ⟨spare, isLength⟩ := Nat.exists_eq_add_of_le enough
  rw [isLength, is]
  apply Reads.bind (reads_writeHeader output.version)
  apply Reads.map
  rw [Nat.zero_add]
  exact reads_readSections output.sections spare .empty

end Output

end CuTile.Bytecode
