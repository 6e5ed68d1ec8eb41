import CuTile.Bytecode.DebugSafety

/-! # When the decoder is total

The decoder panics or reserves too much on some inputs. It does neither exactly when the
lengths, counts and offsets that it relies on are sound, section by section and as far as it
comes.
-/

namespace CuTile.Bytecode

open Metered Reader

/-! ## The loop over the sections -/

/-- The readers at which the loop looks for another section. -/
inductive SectionReached : Reader → Reader → Prop where
  | start (reader : Reader) : SectionReached reader reader
  | next {reader body after later : Reader} {header : SectionHeader} {payload : Bytes}
      (isHeader : Returns readSectionHeader reader header body)
      (isSection : header.id ≠ Section.endOfBytecode.id)
      (isPayload : Returns (readBytes header.dataLen) body payload after)
      (reached : SectionReached after later) : SectionReached reader later

/-- The length of a section that is reached does not wrap around behind its position. -/
def SectionsFit (start : Reader) : Prop :=
  ∀ reader, SectionReached start reader → ∀ header body,
    Returns readSectionHeader reader header body → body.pos + header.dataLen < 2 ^ 64

section Loop

variable {limit : Nat} {reader : Reader}

theorem harmless_readSectionHeader {Invariant : Reader → Prop} (onward : Onward Invariant) :
    Harmless Invariant readSectionHeader := by
  have number := harmless_readVarint onward
  refine (harmless_readByte onward).bind fun idAndAlign => ?_
  dsimp only
  split
  · exact harmless_pure _
  · refine number.bind fun length => ?_
    split
    · exact number.bind fun alignment =>
        (harmless_skipPadding onward alignment).bind fun _ => harmless_pure _
    · exact harmless_pure _

theorem advance_of_readByte (placed : reader.Placed) {byte : UInt8} {after : Reader}
    (returns : Returns readByte reader byte after) :
    after = reader.advance 1 ∧ reader.pos < reader.data.length := by
  have outcome := returns.outcome
  have state := returns.state
  rw [readByte_eq placed] at outcome state
  split at outcome
  · rename_i found is
    rw [is] at state
    exact ⟨state.symm, (List.getElem?_eq_some_iff.mp is).1⟩
  · cases outcome

/-- A header takes at least a byte; the end marker announces no payload. -/
theorem readSectionHeader_spec (placed : reader.Placed) {header : SectionHeader} {body : Reader}
    (returns : Returns readSectionHeader reader header body) :
    Beyond (reader.advance 1) body ∧
      (header.id = Section.endOfBytecode.id → header.dataLen = 0) := by
  rcases returns_bind_iff.mp returns with ⟨_, _, isByte, rest⟩
  rcases advance_of_readByte placed isByte with ⟨rfl, inside⟩
  have moved : (reader.advance 1).Placed := ⟨inside, placed.small⟩
  have onward := onward_beyond (reader.advance 1)
  have number := harmless_readVarint onward
  dsimp only at rest
  split at rest
  · have last := rest.unique (returns_pure _ _)
    rw [last.1, last.2]
    exact ⟨moved.beyond, fun _ => rfl⟩
  · rename_i isSection
    rcases returns_bind_iff.mp rest with ⟨_, _, isLength, others⟩
    have beyond := number.of_returns moved.beyond isLength
    split at others
    · rcases returns_bind_iff.mp others with ⟨alignment, _, isAlignment, padded⟩
      rcases returns_bind_iff.mp padded with ⟨_, _, isPadded, last⟩
      have beyond3 := number.of_returns beyond isAlignment
      have beyond4 := (harmless_skipPadding onward alignment).of_returns beyond3 isPadded
      have same := last.unique (returns_pure _ _)
      rw [same.1, same.2]
      exact ⟨beyond4, fun isEnd => absurd isEnd isSection⟩
    · have same := others.unique (returns_pure _ _)
      rw [same.1, same.2]
      exact ⟨beyond, fun isEnd => absurd isEnd isSection⟩

theorem sectionsFit_iff :
    SectionsFit reader ↔ ∀ header body, Returns readSectionHeader reader header body →
      body.pos + header.dataLen < 2 ^ 64 ∧
        (header.id ≠ Section.endOfBytecode.id → ∀ payload after,
          Returns (readBytes header.dataLen) body payload after → SectionsFit after) := by
  constructor
  · intro fits header body isHeader
    refine ⟨fits reader (.start reader) header body isHeader, ?_⟩
    intro isSection _ _ isPayload later reached
    exact fits later (.next isHeader isSection isPayload reached)
  · intro all later reached
    cases reached with
    | start => exact fun header body isHeader => (all header body isHeader).1
    | next isHeader isSection isPayload reached =>
      exact (all _ _ isHeader).2 isSection _ _ isPayload later reached

/-- With a round for every byte that is left, the loop comes to its end. -/
theorem safe_readSections_iff (placed : reader.Placed) (rounds : Nat) (sections : RawSections)
    (enough : reader.rest.length < rounds) :
    Safe limit (readSections rounds sections) reader ↔ SectionsFit reader := by
  induction rounds generalizing reader sections with
  | zero => exact absurd enough (Nat.not_lt_zero _)
  | succ rounds induction =>
    have readHeader := harmless_readSectionHeader onward_placed
    rw [readSections, readHeader.safe_bind_iff placed, sectionsFit_iff]
    refine forall₃_congr fun header body isHeader => ?_
    rcases readSectionHeader_spec placed isHeader with ⟨beyond, noPayload⟩
    by_cases isEnd : header.id = Section.endOfBytecode.id
    · rw [if_pos isEnd]
      refine iff_of_true (safe_pure _) ⟨?_, fun isSection => absurd isEnd isSection⟩
      have inside := beyond.inside
      have small := beyond.small
      rw [noPayload isEnd]
      omega
    · rw [if_neg isEnd, safe_bind_iff, safe_readBytes_iff, forall_prop_of_true isEnd]
      refine and_congr_right fun _ => forall₃_congr fun payload after isPayload => ?_
      have later : Beyond (reader.advance 1) after :=
        isPayload.state ▸ keeps_readBytes (onward_beyond _) beyond _
      have shorter : after.rest.length < rounds := by
        have data : after.data = reader.data := later.data
        have pos : reader.pos + 1 ≤ after.pos := later.pos
        have inside := later.inside
        rw [length_rest, data]
        rw [length_rest] at enough
        rw [data] at inside
        omega
      exact induction later.toPlaced _ shorter

/-! ### Payloads -/

def RawSections.Within (sections : RawSections) (size : Nat) : Prop :=
  ∀ payload, some payload ∈ sections.data → payload.length ≤ size

theorem RawSections.within_empty (size : Nat) : RawSections.empty.Within size := by
  intro _ member
  cases List.eq_of_mem_replicate member

variable {sections : RawSections}

theorem RawSections.Within.insert {size id : Nat} {payload : Bytes}
    (within : sections.Within size) (short : payload.length ≤ size) :
    (sections.insert id payload).Within size := by
  intro other member
  rcases List.mem_or_eq_of_mem_set member with before | new
  · exact within other before
  · cases new
    exact short

theorem RawSections.Within.get {size : Nat} {kind : Section} {payload : Bytes}
    (within : sections.Within size) (is : sections.get kind = some payload) :
    payload.length ≤ size := by
  refine within payload (List.mem_of_getElem? (i := kind.id) ?_)
  rw [RawSections.get, Option.join_eq_some_iff] at is
  exact is

theorem length_of_readBytes {count : Nat} {bytes : Bytes} {after : Reader}
    (returns : Returns (readBytes count) reader bytes after) :
    bytes.length ≤ reader.data.length := by
  have outcome := returns.outcome
  rw [readBytes_eq] at outcome
  split_ifs at outcome with wraps inside
  cases outcome
  rw [List.length_take, length_rest]
  omega

theorem within_of_readSections (placed : reader.Placed) {rounds : Nat} {found : RawSections}
    {after : Reader} (within : sections.Within reader.data.length)
    (returns : Returns (readSections rounds sections) reader found after) :
    found.Within reader.data.length := by
  induction rounds generalizing reader sections with
  | zero => cases returns.outcome
  | succ _ induction =>
    rcases returns_bind_iff.mp returns with ⟨header, _, isHeader, rest⟩
    have beyond := (readSectionHeader_spec placed isHeader).1
    split at rest
    · rw [(rest.unique (returns_pure _ _)).1]
      exact within
    · rcases returns_bind_iff.mp rest with ⟨payload, stop, isPayload, others⟩
      have later : Beyond (reader.advance 1) stop :=
        isPayload.state ▸ keeps_readBytes (onward_beyond _) beyond _
      have data : stop.data = reader.data := later.data
      have short := length_of_readBytes isPayload
      rw [beyond.data] at short
      have inserted : (sections.insert header.id payload).Within reader.data.length :=
        within.insert short
      have rest := induction later.toPlaced (data ▸ inserted) others
      exact data ▸ rest

end Loop

/-! ## The sections one after the other -/

def WhenPresent (payload : Option Bytes) (Sound : Bytes → Prop) : Prop :=
  ∀ data, payload = some data → Sound data

/-- The conditions on the sections in the order in which they are parsed. A section matters
only if the ones before it have been parsed without an error. -/
def SectionsSound (limit : Nat) (version : BytecodeVersion) (sections : RawSections)
    (reader : Reader) : Prop :=
  WhenPresent (sections.get .string) (TableSound limit 4 4 fun _ => True) ∧
  ∀ strings, Returns (parseStringSection (sections.get .string)) reader strings reader →
  ∀ producer, Returns (whenPresent (sections.get .producer) (readProducer strings)) reader
    producer reader →
  WhenPresent (sections.get .type)
    (TableSound limit 4 4 fun bytes => ArraysFit limit (entryArrays version) ⟨bytes, 0⟩) ∧
  ∀ types, Returns (parseTypeSection version (sections.get .type)) reader types reader →
  WhenPresent (sections.get .constant) (TableSound limit 8 8 fun _ => True) ∧
  ∀ constants, Returns (parseConstantSection (sections.get .constant)) reader constants reader →
  WhenPresent (sections.get .global) (GlobalsSound limit) ∧
  ∀ globals, Returns (whenPresent (sections.get .global)
    (parseGlobalSection strings types version)) reader globals reader →
  WhenPresent (sections.get .func) (FunctionsSound limit strings types)

section Sections

variable {α β : Type} {limit : Nat} {reader after : Reader}

variable {payload : Option Bytes}

theorem reader_of_parseSection {parse : Decode (List β)} {values : List β}
    (returns : Returns (parseSection payload parse) reader values after) : after = reader := by
  cases payload with
  | none => exact (returns.unique (returns_pure _ _)).2
  | some => exact returns.state.symm

theorem reader_of_whenPresent {parse : Decode α} {value : Option α}
    (returns : Returns (whenPresent payload parse) reader value after) : after = reader := by
  cases payload with
  | none => exact (returns.unique (returns_pure _ _)).2
  | some =>
    rcases returns_bind_iff.mp returns with ⟨_, _, isInner, last⟩
    rw [(last.unique (returns_pure _ _)).2]
    exact isInner.state.symm

theorem safe_part_bind_iff {first : Decode α} {next : α → Decode β} {Sound : Prop}
    {Rest : α → Prop} (sound : Safe limit first reader ↔ Sound)
    (stays : ∀ {value after}, Returns first reader value after → after = reader)
    (rest : ∀ value, Returns first reader value reader →
      (Safe limit (next value) reader ↔ Rest value)) :
    Safe limit (first >>= next) reader ↔
      Sound ∧ ∀ value, Returns first reader value reader → Rest value := by
  rw [safe_bind_iff, sound]
  refine and_congr_right fun _ => ⟨fun all value returns => ?_, fun all value after returns => ?_⟩
  · exact (rest value returns).mp (all value reader returns)
  · cases stays returns
    exact (rest value returns).mpr (all value returns)

/-- It prints: that is safe, and the reader stays where it is. -/
structure Prints (computation : Decode α) : Prop where
  returns : ∀ reader, ∃ value, Returns computation reader value reader
  safe : ∀ limit reader, Safe limit computation reader

theorem Prints.safe_bind_iff {first : Decode α} {next : α → Decode β} {Rest : Prop}
    (prints : Prints first) (rest : ∀ value, Safe limit (next value) reader ↔ Rest) :
    Safe limit (first >>= next) reader ↔ Rest := by
  rcases prints.returns reader with ⟨value, returns⟩
  rw [returns.safe_bind_iff, rest value]
  exact and_iff_right (prints.safe limit reader)

theorem prints_emitLines (out : String) (lines : List String) : Prints (emitLines out lines) := by
  constructor
  · intro reader
    induction lines generalizing out with
    | nil => exact ⟨out, returns_pure out reader⟩
    | cons line _ induction =>
      rcases induction (out ++ line) with ⟨text, returns⟩
      have emits : Returns (emit out line) reader (out ++ line) reader := ⟨rfl, rfl⟩
      refine ⟨text, ?_⟩
      rw [emitLines, List.foldlM_cons]
      exact emits.bind returns
  · exact fun limit reader => safe_foldlM_of_step (fun _ _ _ _ => safe_emit _ _) out

theorem prints_emitTable (out title : String) (lines : List String) :
    Prints (emitTable out title lines) := by
  rw [emitTable]
  split
  · exact ⟨fun reader => ⟨out, returns_pure out reader⟩, fun _ _ => safe_pure _⟩
  · exact prints_emitLines _ _

theorem safe_emitDebug {quote : String → String} {strings : List String}
    (roomy : WhenPresent payload (Roomy limit)) (out : String) :
    Safe limit (emitDebug quote strings payload out) reader := by
  cases payload with
  | none => exact safe_pure _
  | some data => exact safe_onState_iff.mpr (safe_parseDebugSection (roomy data rfl) out)

theorem safe_decodeSections_iff {sections : RawSections} {size : Nat}
    (within : sections.Within size) (room : 24 * (size + 1) ≤ limit) (addressable : size < 2 ^ 57)
    (quote : String → String) (version : BytecodeVersion) :
    Safe limit (decodeSections quote version sections) reader ↔
      SectionsSound limit version sections reader := by
  have roomy : ∀ kind, WhenPresent (sections.get kind) (Roomy limit) := by
    intro kind payload is
    have short := within.get is
    exact ⟨by omega, by omega⟩
  have small : ∀ {kind payload}, sections.get kind = some payload →
      24 * (payload.length + 1) ≤ limit ∧ payload.length < 2 ^ 57 :=
    fun is => ⟨(roomy _ _ is).room, (roomy _ _ is).addressable⟩
  rw [decodeSections, SectionsSound]
  refine (prints_emitLines _ _).safe_bind_iff fun out => ?_
  refine safe_part_bind_iff ?_ reader_of_parseSection fun strings isStrings => ?_
  · rw [parseStringSection, safe_parseSection_iff]
    exact forall₂_congr fun payload is =>
      safe_parseTable_iff (roomy _ _ is) (by decide) (by decide) (stringParser (small is).1)
  refine (prints_emitTable _ _ _).safe_bind_iff fun out => ?_
  have producerSafe :
      Safe limit (whenPresent (sections.get .producer) (readProducer strings)) reader :=
    (safe_whenPresent_iff _).mpr fun payload is => safe_readProducer (roomy _ _ is) strings
  refine (safe_part_bind_iff (iff_true_intro producerSafe) reader_of_whenPresent
    fun producer isProducer => ?_).trans (iff_of_eq (true_and _))
  refine (prints_emitLines _ _).safe_bind_iff fun out => ?_
  refine safe_part_bind_iff ?_ reader_of_parseSection fun types isTypes => ?_
  · rw [parseTypeSection, safe_parseSection_iff]
    exact forall₂_congr fun payload is =>
      safe_parseTable_iff (roomy _ _ is) (by decide) (by decide) (typeParser version (small is).2)
  refine (prints_emitTable _ _ _).safe_bind_iff fun out => ?_
  refine safe_part_bind_iff ?_ reader_of_parseSection fun constants isConstants => ?_
  · rw [parseConstantSection, safe_parseSection_iff]
    exact forall₂_congr fun payload is =>
      safe_parseTable_iff (roomy _ _ is) (by decide) (by decide) (constantParser (small is).1)
  refine (prints_emitTable _ _ _).safe_bind_iff fun out => ?_
  refine safe_part_bind_iff ?_ reader_of_whenPresent fun globals isGlobals => ?_
  · rw [safe_whenPresent_iff]
    exact forall₂_congr fun payload is =>
      safe_parseGlobalSection_iff (roomy _ _ is) strings types version
  refine (prints_emitTable _ _ _).safe_bind_iff fun out => ?_
  rw [safe_bind_iff, safe_whenPresent_iff]
  refine (and_iff_left ?_).trans (forall₂_congr fun payload is =>
    safe_parseFuncSection_iff (roomy _ _ is) strings types)
  intro _ _ _
  refine (prints_emitLines _ _).safe_bind_iff (fun out => ?_) |>.mpr trivial
  refine iff_true_intro (safe_bind_iff.mpr ⟨safe_emitDebug (roomy _) out, fun _ _ _ => ?_⟩)
  exact safe_pure _

end Sections

/-! ## The decoder -/

/-- The lengths of the sections fit behind their positions, and the sections are sound. -/
def Sound (limit : Nat) (data : Bytes) : Prop :=
  ∀ version start, Returns readHeader ⟨data, 0⟩ version start →
    SectionsFit start ∧ ∀ sections stop,
      Returns (readSections (data.length + 1) .empty) start sections stop →
        SectionsSound limit version sections stop

/-- Every text that is put together on the way stays within the limit. -/
def TextsFit (quote : String → String) (limit : Nat) (data : Bytes) : Prop :=
  ∀ bytes, .text bytes ∈ (decodeBytecode quote data).requests → bytes ≤ limit

/-- The decoder returns a listing or an error, and no request for memory is larger than
`factor` times the input. -/
structure Total (quote : String → String) (factor : Nat) (data : Bytes) : Prop where
  returns : ∀ reason, (decodeBytecode quote data).outcome ≠ .panic reason
  bounded : ∀ request ∈ (decodeBytecode quote data).requests,
    request.bytes ≤ factor * (data.length + 1)

section Decoder

variable {limit : Nat} {data : Bytes}

theorem harmless_readHeader {Invariant : Reader → Prop} (onward : Onward Invariant) :
    Harmless Invariant readHeader := by
  refine (harmless_readBytes onward (by decide)).bind fun found => ?_
  split
  · exact harmless_fail _
  · exact (harmless_readByte onward).bind fun major => (harmless_readByte onward).bind fun minor =>
      (harmless_readLe onward (by decide)).bind fun tag => harmless_pure _

theorem safe_decode_iff (roomy : Roomy limit data) (quote : String → String) :
    Safe limit (decode quote data) ⟨data, 0⟩ ↔ Sound limit data := by
  have onward := onward_beyond ⟨data, 0⟩
  have readsHeader := harmless_readHeader onward
  rw [decode, readsHeader.safe_bind_iff roomy.placed.beyond, Sound]
  refine forall₃_congr fun version start isVersion => ?_
  have beyond := readsHeader.of_returns roomy.placed.beyond isVersion
  have same : start.data = data := beyond.data
  have enough : start.rest.length < data.length + 1 := by
    rw [length_rest, same]
    omega
  rw [safe_bind_iff, safe_readSections_iff beyond.toPlaced _ _ enough]
  refine and_congr_right fun _ => forall₃_congr fun sections stop isSections => ?_
  have within := within_of_readSections beyond.toPlaced (RawSections.within_empty _) isSections
  rw [same] at within
  exact safe_decodeSections_iff within roomy.room roomy.addressable quote version

end Decoder

/-! ### Inputs with a string section -/

/-- A header, a string section with the given length field and payload, and the end marker. -/
def withStrings (length payload : Bytes) : Bytes :=
  magic ++ [13, 2, 0, 0] ++ [1] ++ length ++ payload ++ [0]

def oneString : Bytes :=
  withStrings [10] [1, 0xCB, 0xCB, 0xCB, 0, 0, 0, 0, 0x68, 0x69]

end CuTile.Bytecode
