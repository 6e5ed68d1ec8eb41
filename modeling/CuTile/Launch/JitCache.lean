import CuTile.Bytecode.Format
import CuTile.Foundation.ByteCodec
import CuTile.Foundation.Fallible
import CuTile.Foundation.Panic

/-! # The disk cache of compiled kernels

A stored value carries a header, and is served only to a request that agrees with it.
-/

namespace CuTile

/-! ## Entries -/

abbrev Digest := { bytes : Bytes // bytes.length = 32 }

/-- A slice has at most `isize::MAX` bytes. -/
abbrev Slice := { bytes : Bytes // bytes.length < 2 ^ 63 }

/-- The fields of a request that an entry is validated against. Names are their bytes. -/
structure EntryParams where
  bcSha256 : Digest
  gpuName : Bytes
  optLevel : UInt8
  flags : UInt8
  tileirasFp : Bytes

/-- `CUTILECUBIN` and a zero. -/
def entryMagic : Bytes := [67, 85, 84, 73, 76, 69, 67, 85, 66, 73, 78, 0]

def field (bytes : Bytes) (start width : Nat) : Bytes := (bytes.drop start).take width

/-- `bytes[start..stop]`, which panics outside the bytes. -/
def slice (bytes : Bytes) (start stop : Nat) : Except Panic Bytes :=
  if start ≤ stop ∧ stop ≤ bytes.length then .ok (field bytes start (stop - start))
  else .error .outOfRange

theorem slice_of_le {bytes : Bytes} {start stop : Nat} (ordered : start ≤ stop)
    (inside : stop ≤ bytes.length) :
    slice bytes start stop = .ok (field bytes start (stop - start)) :=
  if_pos ⟨ordered, inside⟩

section Codec

variable (sha256 : Bytes → Digest)

/-- An entry with these bytes in its reserved and padding fields. -/
def entryBytes (reserved padding : Bytes) (params : EntryParams) (cubin : Bytes) : Bytes :=
  [entryMagic, littleEndian 2 1, reserved, (sha256 cubin).val, params.bcSha256.val,
    littleEndian 2 params.gpuName.length, littleEndian 2 params.tileirasFp.length,
    [params.optLevel], [params.flags], padding, littleEndian 8 cubin.length, params.gpuName,
    params.tileirasFp, cubin].flatten

def encodeEntry (params : EntryParams) (cubin : Bytes) : Option Bytes :=
  if params.gpuName.length < 2 ^ 16 ∧ params.tileirasFp.length < 2 ^ 16 then
    some (entryBytes sha256 [0, 0] [0, 0] params cubin)
  else none

/-- The header of an entry, with the fields of its length as they are. -/
structure EntryHeader where
  payloadSha256 : Bytes
  bcSha256 : Bytes
  gpuLen : Nat
  fpLen : Nat
  optLevel : Bytes
  flags : Bytes
  payloadLen : Nat

def EntryHeader.total (header : EntryHeader) : Nat :=
  96 + header.gpuLen + header.fpLen + header.payloadLen

def readEntryHeader (bytes : Bytes) : Except Panic EntryHeader := do
  return {
    payloadSha256 := ← slice bytes 16 48
    bcSha256 := ← slice bytes 48 80
    gpuLen := ofLittleEndian (← slice bytes 80 82)
    fpLen := ofLittleEndian (← slice bytes 82 84)
    optLevel := ← slice bytes 84 85
    flags := ← slice bytes 85 86
    payloadLen := ofLittleEndian (← slice bytes 88 96) }

/-- The sizes are added with overflow checks; where a partial sum overflows, so does the total. -/
def decodeEntry (bytes : Bytes) (params : EntryParams) : Except Panic (Option Bytes) := do
  if bytes.length < 96 then return none
  if (← slice bytes 0 12) ≠ entryMagic ∨ ofLittleEndian (← slice bytes 12 14) ≠ 1 then
    return none
  let header ← readEntryHeader bytes
  if 2 ^ 64 ≤ header.total ∨ bytes.length ≠ header.total then return none
  let gpuName ← slice bytes 96 (96 + header.gpuLen)
  let fp ← slice bytes (96 + header.gpuLen) (96 + header.gpuLen + header.fpLen)
  let payload ← slice bytes (96 + header.gpuLen + header.fpLen) bytes.length
  if header.bcSha256 ≠ params.bcSha256.val ∨ gpuName ≠ params.gpuName ∨
      header.optLevel ≠ [params.optLevel] ∨ header.flags ≠ [params.flags] ∨
      fp ≠ params.tileirasFp ∨ (sha256 payload).val ≠ header.payloadSha256 then
    return none
  return some payload

variable {bytes : Bytes} {params : EntryParams} {cubin : Bytes}

theorem readEntryHeader_eq (long : 96 ≤ bytes.length) :
    readEntryHeader bytes = .ok ⟨field bytes 16 32, field bytes 48 32,
      ofLittleEndian (field bytes 80 2), ofLittleEndian (field bytes 82 2), field bytes 84 1,
      field bytes 85 1, ofLittleEndian (field bytes 88 8)⟩ := by
  unfold readEntryHeader
  iterate 7 rw [slice_of_le (by decide) (by omega), Fallible.ok_bind]
  rfl

def EntryParams.header (params : EntryParams) (cubin : Bytes) : EntryHeader :=
  ⟨(sha256 cubin).val, params.bcSha256.val, params.gpuName.length, params.tileirasFp.length,
    [params.optLevel], [params.flags], cubin.length⟩

structure Served (bytes : Bytes) (params : EntryParams) (cubin : Bytes) : Prop where
  magic : field bytes 0 12 = entryMagic
  version : ofLittleEndian (field bytes 12 2) = 1
  header : readEntryHeader bytes = .ok (params.header sha256 cubin)
  total : bytes.length = (params.header sha256 cubin).total
  small : bytes.length < 2 ^ 64
  gpuName : field bytes 96 params.gpuName.length = params.gpuName
  fp : field bytes (96 + params.gpuName.length) params.tileirasFp.length = params.tileirasFp
  payload : bytes.drop (96 + params.gpuName.length + params.tileirasFp.length) = cubin

theorem length_field {start width : Nat} (inside : start + width ≤ bytes.length) :
    (field bytes start width).length = width := by
  rw [field, List.length_take, List.length_drop]
  omega

theorem exists_decodeEntry (bytes : Bytes) (params : EntryParams) :
    ∃ result, decodeEntry sha256 bytes params = .ok result ∧
      ∀ cubin, result = some cubin ↔ Served sha256 bytes params cubin := by
  have rejects (wrong : ∀ cubin, ¬Served sha256 bytes params cubin) :
      ∃ result, (pure none : Except Panic (Option Bytes)) = .ok result ∧
        ∀ cubin, result = some cubin ↔ Served sha256 bytes params cubin :=
    ⟨none, rfl, fun cubin => iff_of_false nofun (wrong cubin)⟩
  unfold decodeEntry
  by_cases long : bytes.length < 96
  · rw [if_pos long]
    refine rejects fun cubin served => ?_
    have total := served.total
    unfold EntryHeader.total at total
    omega
  have isHeader := readEntryHeader_eq (not_lt.mp long)
  generalize EntryHeader.mk .. = header at isHeader
  have known {cubin : Bytes} (served : Served sha256 bytes params cubin) :
      header = params.header sha256 cubin :=
    Except.ok.inj (isHeader.symm.trans served.header)
  rw [if_neg long, slice_of_le (by decide) (by omega), slice_of_le (by decide) (by omega),
    isHeader]
  simp only [Fallible.ok_bind]
  split_ifs with unlike total
  · exact rejects fun cubin served => unlike.elim (absurd served.magic) (absurd served.version)
  · refine rejects fun cubin served => ?_
    rw [known served, ← served.total] at total
    exact total.elim (not_le.mpr served.small) (absurd rfl)
  push Not at total unlike
  have size := total.2
  unfold EntryHeader.total at size
  have payload : field bytes (96 + header.gpuLen + header.fpLen) (bytes.length -
      (96 + header.gpuLen + header.fpLen)) = bytes.drop (96 + header.gpuLen + header.fpLen) := by
    rw [field, List.take_of_length_le (by rw [List.length_drop])]
  rw [slice_of_le (by omega) (by omega), slice_of_le (by omega) (by omega),
    slice_of_le (by omega) (by omega), payload]
  simp only [Fallible.ok_bind, Nat.add_sub_cancel_left]
  split_ifs with differ
  · refine rejects fun cubin served => ?_
    have isHeader := known served
    subst isHeader
    have isPayload : bytes.drop (96 + params.gpuName.length + params.tileirasFp.length) = cubin :=
      served.payload
    simp [EntryParams.header, served.gpuName, served.fp, isPayload] at differ
  · push Not at differ
    rcases header with ⟨payloadSha256, bcSha256, gpuLen, fpLen, optLevel, flags, payloadLen⟩
    dsimp only at *
    rcases differ with ⟨rfl, isGpuName, rfl, rfl, isFp, rfl⟩
    have isGpuLen : params.gpuName.length = gpuLen := by
      rw [← isGpuName, length_field (by omega)]
    have isFpLen : params.tileirasFp.length = fpLen := by
      rw [← isFp, length_field (by omega)]
    subst isGpuLen isFpLen
    refine ⟨_, rfl, fun cubin => ⟨?_, fun served => congrArg some served.payload⟩⟩
    rintro ⟨⟩
    have isLength : payloadLen =
        (bytes.drop (96 + params.gpuName.length + params.tileirasFp.length)).length := by
      rw [List.length_drop]
      omega
    subst isLength
    exact ⟨unlike.1, unlike.2, isHeader, total.2, total.2 ▸ total.1, isGpuName, isFp, rfl⟩

theorem drop_eq_append_iff {start : Nat} {part rest : Bytes} :
    bytes.drop start = part ++ rest ↔
      field bytes start part.length = part ∧ bytes.drop (start + part.length) = rest := by
  constructor
  · intro split
    rw [field, ← List.drop_drop, split, List.take_left, List.drop_left]
    exact ⟨rfl, rfl⟩
  · rintro ⟨isPart, isRest⟩
    rw [← List.take_append_drop part.length (bytes.drop start), List.drop_drop]
    exact congrArg₂ (· ++ ·) isPart isRest

theorem eq_entryBytes_iff {reserved padding : Bytes} (two : reserved.length = 2)
    (twoMore : padding.length = 2) :
    bytes = entryBytes sha256 reserved padding params cubin ↔
      field bytes 0 12 = entryMagic ∧ field bytes 12 2 = littleEndian 2 1 ∧
      field bytes 14 2 = reserved ∧ field bytes 16 32 = (sha256 cubin).val ∧
      field bytes 48 32 = params.bcSha256.val ∧
      field bytes 80 2 = littleEndian 2 params.gpuName.length ∧
      field bytes 82 2 = littleEndian 2 params.tileirasFp.length ∧
      field bytes 84 1 = [params.optLevel] ∧ field bytes 85 1 = [params.flags] ∧
      field bytes 86 2 = padding ∧ field bytes 88 8 = littleEndian 8 cubin.length ∧
      field bytes 96 params.gpuName.length = params.gpuName ∧
      field bytes (96 + params.gpuName.length) params.tileirasFp.length = params.tileirasFp ∧
      bytes.drop (96 + params.gpuName.length + params.tileirasFp.length) = cubin := by
  change bytes.drop 0 = _ ↔ _
  have magic : entryMagic.length = 12 := rfl
  simp only [entryBytes, List.flatten_cons, List.flatten_nil, List.append_nil,
    drop_eq_append_iff, length_littleEndian, List.length_singleton, two, twoMore, magic,
    (sha256 cubin).property, params.bcSha256.property, Nat.reduceAdd]

theorem Served.long (served : Served sha256 bytes params cubin) : 96 ≤ bytes.length := by
  have total := served.total
  unfold EntryHeader.total at total
  omega

/-- What is served is the entry of the request, up to the bytes that nothing checks. -/
theorem served_iff (long : 96 ≤ bytes.length) :
    Served sha256 bytes params cubin ↔
      params.gpuName.length < 2 ^ 16 ∧ params.tileirasFp.length < 2 ^ 16 ∧
      bytes.length < 2 ^ 64 ∧
      bytes = entryBytes sha256 (field bytes 14 2) (field bytes 86 2) params cubin := by
  rw [eq_entryBytes_iff sha256 (length_field (by omega)) (length_field (by omega))]
  have read {start width : Nat} (inside : start + width ≤ 96) (value : Nat) :
      ofLittleEndian (field bytes start width) = value ↔
        value < 256 ^ width ∧ field bytes start width = littleEndian width value :=
    ofLittleEndian_eq_iff (length_field (inside.trans long))
  constructor
  · rintro ⟨magic, version, header, total, small, gpuName, fp, payload⟩
    rw [readEntryHeader_eq long, EntryParams.header, Except.ok.injEq, EntryHeader.mk.injEq,
      read (by decide), read (by decide), read (by decide)] at header
    rcases header with ⟨sha, bc, ⟨gpuFits, gpuLen⟩, ⟨fpFits, fpLen⟩, opt, flags, -, payloadLen⟩
    exact ⟨gpuFits, fpFits, small, magic, ((read (by decide) 1).mp version).2, rfl, sha, bc,
      gpuLen, fpLen, opt, flags, rfl, payloadLen, gpuName, fp, payload⟩
  · rintro ⟨gpuFits, fpFits, small, magic, version, -, sha, bc, gpuLen, fpLen, opt, flags, -,
      payloadLen, gpuName, fp, payload⟩
    have gpuInside := congrArg List.length gpuName
    have fpInside := congrArg List.length fp
    have payloadInside := congrArg List.length payload
    rw [field, List.length_take, List.length_drop] at gpuInside fpInside
    rw [List.length_drop] at payloadInside
    refine ⟨magic, (read (by decide) 1).mpr ⟨by decide, version⟩, ?_, ?_, small, gpuName, fp,
      payload⟩
    · rw [readEntryHeader_eq long, EntryParams.header, Except.ok.injEq, EntryHeader.mk.injEq,
        read (by decide), read (by decide), read (by decide)]
      exact ⟨sha, bc, ⟨gpuFits, gpuLen⟩, ⟨fpFits, fpLen⟩, opt, flags, by omega, payloadLen⟩
    · simp only [EntryParams.header, EntryHeader.total]
      omega

theorem length_entryBytes {reserved padding : Bytes} (two : reserved.length = 2)
    (twoMore : padding.length = 2) :
    (entryBytes sha256 reserved padding params cubin).length =
      (params.header sha256 cubin).total := by
  have magic : entryMagic.length = 12 := rfl
  simp only [entryBytes, List.length_flatten, List.map_cons, List.map_nil, List.sum_cons,
    List.sum_nil, length_littleEndian, List.length_singleton, two, twoMore, magic,
    (sha256 cubin).property, params.bcSha256.property, EntryParams.header, EntryHeader.total]
  omega

theorem getElem?_append_congr {part other rest otherRest : Bytes} {index : Nat}
    (same : part.length = other.length)
    (inPart : index < part.length → part[index]? = other[index]?)
    (inRest : part.length ≤ index →
      rest[index - part.length]? = otherRest[index - part.length]?) :
    (part ++ rest)[index]? = (other ++ otherRest)[index]? := by
  rw [List.getElem?_append, List.getElem?_append, ← same]
  split_ifs with inside
  · exact inPart inside
  · exact inRest (not_lt.mp inside)

theorem getElem?_entryBytes {reserved padding : Bytes} (two : reserved.length = 2)
    (twoMore : padding.length = 2) {index : Nat} (outside : index ∉ [14, 15, 86, 87]) :
    (entryBytes sha256 reserved padding params cubin)[index]? =
      (entryBytes sha256 [0, 0] [0, 0] params cubin)[index]? := by
  have magic : entryMagic.length = 12 := rfl
  simp only [List.mem_cons, List.not_mem_nil, or_false, not_or] at outside
  simp only [entryBytes, List.flatten_cons]
  iterate 2 refine getElem?_append_congr rfl (fun _ => rfl) fun _ => ?_
  refine getElem?_append_congr two (fun inside => ?_) fun _ => ?_
  · simp only [magic, length_littleEndian, two] at *
    omega
  iterate 6 refine getElem?_append_congr rfl (fun _ => rfl) fun _ => ?_
  refine getElem?_append_congr twoMore (fun inside => ?_) fun _ => rfl
  simp only [magic, length_littleEndian, two, twoMore, (sha256 cubin).property,
    params.bcSha256.property, List.length_singleton] at *
  omega

/-- A prefix of a served entry, and a longer one, has its header, and with it its length. -/
theorem Served.unique {more : Bytes} {other : EntryParams} {otherCubin : Bytes}
    (served : Served sha256 bytes params cubin)
    (again : Served sha256 more other otherCubin) (within : bytes <+: more) :
    more = bytes ∧ other = params ∧ otherCubin = cubin := by
  have isHeader : other.header sha256 otherCubin = params.header sha256 cubin := by
    have same {start width : Nat} (inside : start + width ≤ 96) :
        field more start width = field bytes start width := by
      rcases within with ⟨rest, rfl⟩
      have long := served.long
      rw [field, field, List.drop_append_of_le_length (by omega),
        List.take_append_of_le_length (by rw [List.length_drop]; omega)]
    have header := again.header
    rw [readEntryHeader_eq again.long] at header
    rw [← Except.ok.injEq, ← served.header, ← header, readEntryHeader_eq served.long]
    iterate 7 rw [same (by decide)]
  have isBytes : bytes = more := by
    refine within.eq_of_length ?_
    rw [served.total, again.total, isHeader]
  subst isBytes
  rcases other with ⟨_, gpuName, _, _, fp⟩
  simp only [EntryParams.header, EntryHeader.mk.injEq, List.cons.injEq, and_true] at isHeader
  rcases isHeader with ⟨-, isBc, isGpuLen, isFpLen, rfl, rfl, -⟩
  have isGpu := again.gpuName
  have isFp := again.fp
  have isCubin := again.payload
  dsimp only at isGpu isFp isCubin
  rw [isGpuLen, served.gpuName] at isGpu
  rw [isGpuLen, isFpLen, served.fp] at isFp
  rw [isGpuLen, isFpLen, served.payload] at isCubin
  cases isGpu
  cases isFp
  cases Subtype.ext isBc
  exact ⟨rfl, rfl, isCubin.symm⟩

theorem entry_validated (params : EntryParams) :
    (∀ (cubin : Slice) (entry : Bytes), encodeEntry sha256 params cubin.val = some entry →
      decodeEntry sha256 entry params = .ok (some cubin.val)) ∧
    ∀ bytes : Bytes, ∃ result, decodeEntry sha256 bytes params = .ok result ∧
      ∀ cubin, result = some cubin →
        (∃ entry, encodeEntry sha256 params cubin = some entry ∧ bytes.length = entry.length ∧
          ∀ index ∉ [14, 15, 86, 87], bytes[index]? = entry[index]?) ∧
        ∀ (more : Bytes) (other : EntryParams) (otherCubin : Bytes), bytes <+: more →
          decodeEntry sha256 more other = .ok (some otherCubin) →
          more = bytes ∧ other = params ∧ otherCubin = cubin := by
  constructor
  · intro cubin entry encoded
    unfold encodeEntry at encoded
    split_ifs at encoded with fits
    cases encoded
    rcases exists_decodeEntry sha256 (entryBytes sha256 [0, 0] [0, 0] params cubin.val) params
      with ⟨result, decoded, isServed⟩
    have size : (entryBytes sha256 [0, 0] [0, 0] params cubin.val).length = _ :=
      length_entryBytes sha256 rfl rfl
    simp only [EntryParams.header, EntryHeader.total] at size
    have small := cubin.property
    rcases (@eq_entryBytes_iff sha256 _ params cubin.val [0, 0] [0, 0] rfl rfl).mp rfl with
      ⟨-, -, reserved, -, -, -, -, -, -, padding, -⟩
    rw [decoded, Except.ok.injEq, isServed, served_iff sha256 (by omega), reserved, padding]
    exact ⟨fits.1, fits.2, by omega, rfl⟩
  · intro bytes
    rcases exists_decodeEntry sha256 bytes params with ⟨result, decoded, isServed⟩
    refine ⟨result, decoded, fun cubin isResult => ?_⟩
    have served := (isServed cubin).mp isResult
    constructor
    · have long := served.long
      have two : (field bytes 14 2).length = 2 := length_field (by omega)
      have twoMore : (field bytes 86 2).length = 2 := length_field (by omega)
      rcases (served_iff sha256 long).mp served with ⟨gpuFits, fpFits, -, isEntry⟩
      refine ⟨_, if_pos ⟨gpuFits, fpFits⟩, ?_, fun index outside => ?_⟩
      · rw [served.total, length_entryBytes sha256 rfl rfl]
      · rw [← getElem?_entryBytes sha256 two twoMore outside, ← isEntry]
    · intro more other otherCubin within again
      rcases exists_decodeEntry sha256 more other with ⟨_, alsoDecoded, alsoServed⟩
      cases again.symm.trans alsoDecoded
      exact served.unique sha256 ((alsoServed otherCubin).mp rfl) within

/-! ## Keys -/

structure TileirasOptions where
  optLevel : UInt8
  deviceDebug : Bool
  lineinfo : Bool
  sanitizeMemcheck : Bool

def TileirasOptions.flagsByte (opts : TileirasOptions) : UInt8 :=
  opts.deviceDebug.toUInt8 ||| opts.lineinfo.toUInt8 <<< 1 |||
    opts.sanitizeMemcheck.toUInt8 <<< 2

theorem TileirasOptions.flagsByte_injective : ∀ debug lineinfo sanitize debug' lineinfo' sanitize',
    (mk 0 debug lineinfo sanitize).flagsByte = (mk 0 debug' lineinfo' sanitize').flagsByte →
      debug = debug' ∧ lineinfo = lineinfo' ∧ sanitize = sanitize' := by
  decide

/-- What `l2_key` identifies: the complete input of `tileiras`. -/
structure L2Request where
  bc : Slice
  bcVersion : Bytecode.BytecodeVersion
  gpuName : Slice
  opts : TileirasOptions
  tileirasFp : Slice

def putField (bytes : Slice) : Bytes := littleEndian 8 bytes.val.length ++ bytes.val

theorem flatMap_putField_injective {left right : List Slice}
    (same : left.flatMap putField = right.flatMap putField) : left = right := by
  induction left generalizing right with
  | nil => cases right <;> simp_all [putField, littleEndian]
  | cons head tail induction =>
    rcases right with _ | ⟨other, rest⟩
    · simp [putField, littleEndian] at same
    simp only [List.flatMap_cons, putField, List.append_assoc] at same
    rcases List.append_inj same (by simp) with ⟨sameLength, same⟩
    have lengths := congrArg ofLittleEndian sameLength
    have small := head.property
    have otherSmall := other.property
    rw [ofLittleEndian_littleEndian (by omega), ofLittleEndian_littleEndian (by omega)] at lengths
    rcases List.append_inj same lengths with ⟨sameHead, same⟩
    rw [Subtype.ext sameHead, induction same]

namespace L2Request

def preimage (request : L2Request) : Bytes :=
  "cutile-jit-cubin-v1\x00".toUTF8.data.toList ++ List.flatMap putField
    [⟨[request.bcVersion.major, request.bcVersion.minor], by simp⟩,
      ⟨littleEndian 2 request.bcVersion.tag.toNat, by simp⟩, request.bc, request.gpuName,
      ⟨[request.opts.optLevel, request.opts.flagsByte], by simp⟩, request.tileirasFp]

theorem preimage_injective : Function.Injective preimage := by
  rintro ⟨_, ⟨_, _, tag⟩, _, ⟨_, _, _, _⟩, _⟩ ⟨_, ⟨_, _, tag'⟩, _, ⟨_, _, _, _⟩, _⟩ same
  have fields := flatMap_putField_injective (List.append_cancel_left same)
  simp only [List.cons.injEq, Subtype.mk.injEq, and_true] at fields
  rcases fields with ⟨⟨rfl, rfl⟩, tags, rfl, rfl, ⟨rfl, flags⟩, rfl⟩
  have isTag := congrArg ofLittleEndian tags
  rw [ofLittleEndian_littleEndian tag.toNat_lt, ofLittleEndian_littleEndian tag'.toNat_lt,
    UInt16.toNat_inj] at isTag
  rcases TileirasOptions.flagsByte_injective _ _ _ _ _ _ flags with ⟨rfl, rfl, rfl⟩
  rw [isTag]

/-- The digest that `l2_key` spells in hexadecimal. -/
def l2Key (request : L2Request) : Digest := sha256 request.preimage

/-- Requests share a key only where they agree in every field, or by a collision. -/
theorem l2Key_eq_iff (left right : L2Request) :
    l2Key sha256 left = l2Key sha256 right ↔ left = right ∨
      left.preimage ≠ right.preimage ∧ sha256 left.preimage = sha256 right.preimage := by
  rw [← preimage_injective.eq_iff, l2Key, l2Key]
  by_cases same : left.preimage = right.preimage <;> simp [same]

end L2Request

end Codec

end CuTile
