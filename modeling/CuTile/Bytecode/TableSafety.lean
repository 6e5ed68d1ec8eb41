import CuTile.Bytecode.TypeEntrySafety

/-! # Safety of the sections

For each section the exact condition under which its parser neither panics nor reserves more
than the limit.
-/

namespace CuTile.Bytecode

open Metered Reader

/-- The limit leaves room for a fixed number of bytes for each byte of the payload, and the
payload fits into an address space. -/
structure Roomy (limit : Nat) (payload : Bytes) : Prop where
  room : 24 * (payload.length + 1) ≤ limit
  addressable : payload.length < 2 ^ 57

theorem Roomy.placed {limit : Nat} {payload : Bytes} (roomy : Roomy limit payload) :
    Placed ⟨payload, 0⟩ :=
  placed_start (Nat.lt_trans roomy.addressable (by decide))

theorem Roomy.affordable {limit size count : Nat} {payload : Bytes} (roomy : Roomy limit payload)
    (held : size * count ≤ 24 * payload.length) : Affordable limit size count := by
  have room := roomy.room
  have addressable := roomy.addressable
  constructor
  · omega
  · omega

/-! ## Tables -/

/-- Where an entry starts; behind the last one the data ends. -/
def boundary (offsets : List Nat) (size index : Nat) : Nat :=
  (offsets[index]?).getD size

/-- The bounds of an entry are in order and inside the data. -/
def EntryInside (offsets : List Nat) (size index : Nat) : Prop :=
  boundary offsets size index ≤ boundary offsets size (index + 1) ∧
    boundary offsets size (index + 1) ≤ size

def entryBytes (offsets : List Nat) (data : Bytes) (index : Nat) : Bytes :=
  (data.drop (boundary offsets data.length index)).take
    (boundary offsets data.length (index + 1) - boundary offsets data.length index)

/-- The table can be afforded before its offsets have been read, and every entry lies in
order inside the data and is sound itself. -/
def TableSound (limit alignment width : Nat) (EntrySound : Bytes → Prop) (payload : Bytes) :
    Prop :=
  ∀ count start, Returns readVarint ⟨payload, 0⟩ count start → count ≠ 0 →
    ∀ aligned, Returns (skipPadding alignment) start () aligned →
      Affordable limit 8 count ∧
        ∀ offsets stop, Returns ((readLe width).replicate count) aligned offsets stop →
          ∀ index < count, EntryInside offsets stop.rest.length index ∧
            EntrySound (entryBytes offsets stop.rest index)

section Slices

variable {σ α : Type} {limit : Nat} {state : σ} {data : Bytes} {start stop : Nat}

theorem elementAt_eq {items : List α} {index : Nat} {item : α} (found : items[index]? = some item) :
    (elementAt items index : Metered σ DecodeError α) = pure item := by
  rw [elementAt, found]

theorem safe_slice_iff :
    Safe limit (slice data start stop) state ↔ start ≤ stop ∧ stop ≤ data.length := by
  rw [slice]
  split
  · rename_i inside
    exact iff_of_true (safe_pure _) inside
  · rename_i outside
    exact iff_of_false (not_safe_panics _) outside

theorem returns_slice (inside : start ≤ stop ∧ stop ≤ data.length) (state : σ) :
    Returns (slice data start stop) state ((data.drop start).take (stop - start)) state := by
  rw [slice, if_pos inside]
  exact returns_pure _ _

end Slices

section Entries

variable {offsets : List Nat} {data : Bytes} {index : Nat}

theorem entryStop_eq (size : Nat) :
    (if index + 1 < offsets.length then elementAt offsets (index + 1) else pure size :
      Decode Nat) = pure (boundary offsets size (index + 1)) := by
  split
  · rename_i inside
    have found := List.getElem?_eq_getElem inside
    rw [elementAt_eq found, boundary, found]
    rfl
  · rename_i outside
    rw [boundary, List.getElem?_eq_none (Nat.not_lt.mp outside)]
    rfl

theorem entryStart_eq (inside : index < offsets.length) (size : Nat) :
    (elementAt offsets index : Decode Nat) = pure (boundary offsets size index) := by
  have found := List.getElem?_eq_getElem inside
  rw [elementAt_eq found, boundary, found]
  rfl

theorem readEntry_eq (inside : index < offsets.length) :
    readEntry offsets data index =
      slice data (boundary offsets data.length index)
        (boundary offsets data.length (index + 1)) := by
  rw [readEntry, entryStart_eq inside data.length, returning_bind, entryStop_eq, returning_bind]

end Entries

section Tables

variable {β : Type} {limit alignment width : Nat} {EntrySound : Bytes → Prop} {payload : Bytes}
  {entry : List β → Bytes → Decode β}

/-- How an entry's parser behaves on the bytes of a table: whether it is safe depends on the
bytes alone, and when it is, it returns and leaves the reader of the table where it was. -/
structure EntryParser (limit size : Nat) (EntrySound : Bytes → Prop)
    (entry : List β → Bytes → Decode β) : Prop where
  safe_iff : ∀ entries bytes reader, bytes.length ≤ size →
    (Safe limit (entry entries bytes) reader ↔ EntrySound bytes)
  returns : ∀ entries bytes reader, bytes.length ≤ size → EntrySound bytes →
    ∃ value, Returns (entry entries bytes) reader value reader

theorem EntryParser.shorter {size smaller : Nat}
    (parser : EntryParser limit size EntrySound entry) (le : smaller ≤ size) :
    EntryParser limit smaller EntrySound entry :=
  ⟨fun entries bytes reader short => parser.safe_iff entries bytes reader (short.trans le),
    fun entries bytes reader short => parser.returns entries bytes reader (short.trans le)⟩

section Entries

variable {offsets : List Nat} {data : Bytes} {reader : Reader} {index : Nat}

theorem length_entryBytes_le (offsets : List Nat) (data : Bytes) (index : Nat) :
    (entryBytes offsets data index).length ≤ data.length := by
  rw [entryBytes, List.length_take, List.length_drop]
  omega

section

variable (parser : EntryParser limit data.length EntrySound entry)

include parser

theorem safe_pushEntry_iff (inTable : index < offsets.length) (entries : List β) :
    Safe limit (pushEntry entry offsets data entries index) reader ↔
      EntryInside offsets data.length index ∧ EntrySound (entryBytes offsets data index) := by
  have short := length_entryBytes_le offsets data index
  rw [pushEntry, readEntry_eq inTable]
  by_cases inside : EntryInside offsets data.length index
  · rw [(returns_slice inside reader).safe_bind_iff, safe_slice_iff, safe_bind_iff]
    refine and_congr Iff.rfl ?_
    rw [← parser.safe_iff entries (entryBytes offsets data index) reader short]
    exact and_iff_left fun _ _ _ => safe_pure _
  · refine iff_of_false (fun whole => inside ?_) fun both => inside both.1
    exact safe_slice_iff.mp (safe_bind_iff.mp whole).1

theorem returns_pushEntry (inTable : index < offsets.length)
    (inside : EntryInside offsets data.length index)
    (sound : EntrySound (entryBytes offsets data index)) (entries : List β) :
    ∃ next, Returns (pushEntry entry offsets data entries index) reader next reader := by
  have short := length_entryBytes_le offsets data index
  rcases parser.returns entries _ reader short sound with ⟨value, returns⟩
  refine ⟨entries ++ [value], ?_⟩
  rw [pushEntry, readEntry_eq inTable]
  exact (returns_slice inside reader).bind (returns.bind (returns_pure _ _))

theorem safe_entries_iff :
    Safe limit ((List.range offsets.length).foldlM (pushEntry entry offsets data) []) reader ↔
      ∀ index < offsets.length, EntryInside offsets data.length index ∧
        EntrySound (entryBytes offsets data index) := by
  have bodies : ∀ entries, ∀ index ∈ List.range offsets.length,
      Safe limit (pushEntry entry offsets data entries index) reader ↔
        EntryInside offsets data.length index ∧ EntrySound (entryBytes offsets data index) :=
    fun entries index member => safe_pushEntry_iff parser (List.mem_range.mp member) entries
  rw [safe_foldlM_iff_forall [] bodies]
  · exact forall_congr' fun index => imp_congr_left List.mem_range
  · intro entries index member safe
    rcases (bodies entries index member).mp safe with ⟨inside, sound⟩
    exact returns_pushEntry parser (List.mem_range.mp member) inside sound entries

end

end Entries

variable {reader : Reader}

theorem remaining_eq (placed : reader.Placed) :
    remaining reader = ⟨[], .ok reader.rest.length, reader⟩ := by
  simp only [remaining, bind, andThen, current]
  rw [if_pos placed.inside, length_rest]
  rfl

theorem returns_remaining (placed : reader.Placed) :
    Returns remaining reader reader.rest.length reader := by
  constructor
  · rw [remaining_eq placed]
  · rw [remaining_eq placed]

theorem safe_remaining (placed : reader.Placed) : Safe limit remaining reader := by
  constructor
  · rw [remaining_eq placed]
    exact nofun
  · rw [remaining_eq placed]
    exact nofun

theorem returns_readRest (placed : reader.Placed) :
    Returns (readBytes reader.rest.length) reader reader.rest
      (reader.advance reader.rest.length) :=
  returns_readBytes placed (List.append_nil _).symm

/-- The vectors after the offsets are paid for by the bytes of the offsets. -/
theorem safe_parseEntries_iff {count : Nat} (roomy : Roomy limit reader.data)
    (placed : reader.Placed) (wide : 4 ≤ width) (narrow : width ≤ 8)
    (parser : EntryParser limit reader.data.length EntrySound entry) :
    Safe limit (parseEntries width entry count) reader ↔
      Affordable limit 8 count ∧
        ∀ offsets stop, Returns ((readLe width).replicate count) reader offsets stop →
          ∀ index < count, EntryInside offsets stop.rest.length index ∧
            EntrySound (entryBytes offsets stop.rest index) := by
  have readOffsets : Harmless Placed ((readLe width).replicate count) :=
    (harmless_readLe onward_placed (Nat.lt_of_le_of_lt narrow (by decide))).replicate count
  rw [parseEntries, safe_withCapacity_bind_iff, readOffsets.safe_bind_iff placed]
  refine and_congr_right fun _ => forall₃_congr fun offsets stop isOffsets => ?_
  rcases advance_of_replicate_readLe placed isOffsets with ⟨isStop, stopped⟩
  have same : stop.data = reader.data := by rw [isStop]; rfl
  have length := isOffsets.length_replicate
  have affordable : Affordable limit 24 count := by
    have inside : stop.pos ≤ reader.data.length := same ▸ stopped.inside
    have moved : stop.pos = reader.pos + width * count := by rw [isStop]; rfl
    have narrowest := Nat.mul_le_mul_right count wide
    exact roomy.affordable (by omega)
  have short : stop.rest.length ≤ reader.data.length := by
    rw [length_rest, same]
    omega
  have readRest := harmless_readBytes onward_placed (Nat.lt_of_le_of_lt short placed.small)
  rw [(returns_remaining stopped).safe_bind_iff, (returns_readRest stopped).safe_bind_iff,
    safe_withCapacity_bind_iff, ← length, safe_entries_iff (parser.shorter short)]
  constructor
  · intro whole
    exact whole.2.2.2
  · intro entries
    exact ⟨safe_remaining stopped, readRest.safe stopped, length ▸ affordable, entries⟩

theorem safe_parseTable_iff (roomy : Roomy limit payload) (wide : 4 ≤ width) (narrow : width ≤ 8)
    (parser : EntryParser limit payload.length EntrySound entry) :
    Safe limit (parseTable alignment width entry) ⟨payload, 0⟩ ↔
      TableSound limit alignment width EntrySound payload := by
  have beyond := roomy.placed.beyond
  have onward := onward_beyond ⟨payload, 0⟩
  rw [parseTable, (harmless_readVarint onward).safe_bind_iff beyond, TableSound]
  refine forall₃_congr fun count start isCount => ?_
  have started := (harmless_readVarint onward).of_returns beyond isCount
  by_cases isZero : count = 0
  · rw [if_pos isZero]
    exact iff_of_true (safe_pure _) fun nonzero => absurd isZero nonzero
  · rw [if_neg isZero, (harmless_skipPadding onward alignment).safe_bind_iff started,
      forall_prop_of_true isZero]
    have body : ∀ aligned, Returns (skipPadding alignment) start () aligned → _ :=
      fun aligned isAligned => by
        have placed := (harmless_skipPadding onward alignment).of_returns started isAligned
        have same : aligned.data = payload := placed.data
        exact @safe_parseEntries_iff β limit width EntrySound entry aligned count (same ▸ roomy)
          placed.toPlaced wide narrow (same ▸ parser)
    exact ⟨fun all aligned isAligned => (body aligned isAligned).mp (all () aligned isAligned),
      fun all _ aligned isAligned => (body aligned isAligned).mpr (all aligned isAligned)⟩

end Tables

/-! ### Entries -/

section Parsers

variable {limit size : Nat}

theorem utf8ByteSize_textOfBytes_le (bytes : Bytes) :
    (textOfBytes bytes).utf8ByteSize ≤ 24 * (bytes.length + 1) := by
  rw [textOfBytes, String.fromUTF8?]
  split
  · have size : bytes.toByteArray.size ≤ 24 * (bytes.length + 1) := by
      rw [List.size_toByteArray]
      omega
    exact size
  · have size : "<invalid utf8>".utf8ByteSize = 14 := by decide
    rw [Option.getD_none, size]
    omega

theorem stringParser (room : 24 * (size + 1) ≤ limit) :
    EntryParser limit size (fun _ => True) stringEntry := by
  refine ⟨fun entries bytes reader short => iff_of_true ?_ trivial,
    fun entries bytes reader short _ => ⟨textOfBytes bytes, ⟨rfl, rfl⟩⟩⟩
  have copied := utf8ByteSize_textOfBytes_le bytes
  refine safe_bind_iff.mpr ⟨safe_reserve_iff.mpr (by omega), fun _ _ _ => safe_pure _⟩

theorem constantParser (room : 24 * (size + 1) ≤ limit) :
    EntryParser limit size (fun _ => True) constantEntry := by
  refine ⟨fun entries bytes reader short => iff_of_true ?_ trivial,
    fun entries bytes reader short _ => ⟨bytes, ⟨rfl, rfl⟩⟩⟩
  exact safe_bind_iff.mpr ⟨safe_reserve_iff.mpr (by omega), fun _ _ _ => safe_pure _⟩

theorem typeParser (version : BytecodeVersion) (addressable : size < 2 ^ 57) :
    EntryParser limit size (fun bytes => ArraysFit limit (entryArrays version) ⟨bytes, 0⟩)
      (typeEntry version) := by
  have placed : ∀ bytes : Bytes, bytes.length ≤ size → Placed ⟨bytes, 0⟩ := fun bytes short =>
    placed_start (Nat.lt_of_le_of_lt short (Nat.lt_trans addressable (by decide)))
  constructor
  · intro types bytes reader short
    rw [typeEntry, ← safe_decodeTypeEntry_iff (placed bytes short), safe_bind_iff,
      safe_onState_iff]
    exact and_iff_left fun text after _ =>
      safe_bind_iff.mpr ⟨safe_text _, fun _ _ _ => safe_pure _⟩
  · intro types bytes reader short fits
    have safe : Safe limit (decodeTypeEntry types version) ⟨bytes, 0⟩ :=
      (safe_decodeTypeEntry_iff (placed bytes short)).mpr fits
    rcases prices_decodeTypeEntry.unfailing.returns_of_safe (placed bytes short) safe with
      ⟨text, returns⟩
    exact ⟨text, (returns.onState reader).bind ⟨rfl, rfl⟩⟩

end Parsers

/-! ## Sections -/

section Sections

variable {limit : Nat} {reader : Reader} {payload : Bytes}

theorem safe_parseSection_iff {β : Type} {parse : Decode (List β)} (payload : Option Bytes) :
    Safe limit (parseSection payload parse) reader ↔
      ∀ data, payload = some data → Safe limit parse ⟨data, 0⟩ := by
  cases payload with
  | none => exact iff_of_true (safe_pure _) nofun
  | some data =>
    rw [parseSection, safe_onState_iff]
    refine ⟨fun safe other is => ?_, fun all => all data rfl⟩
    cases is
    exact safe

theorem safe_whenPresent_iff {α : Type} {parse : Decode α} (payload : Option Bytes) :
    Safe limit (whenPresent payload parse) reader ↔
      ∀ data, payload = some data → Safe limit parse ⟨data, 0⟩ := by
  cases payload with
  | none => exact iff_of_true (safe_pure _) nofun
  | some data =>
    rw [whenPresent, safe_bind_iff, safe_onState_iff]
    constructor
    · intro both other is
      cases is
      exact both.1
    · intro all
      exact ⟨all data rfl, fun _ _ _ => safe_pure _⟩

/-! ### Producer -/

theorem safe_readProducer (roomy : Roomy limit payload) (strings : List String) :
    Safe limit (readProducer strings) ⟨payload, 0⟩ := by
  have harmless : Harmless Placed (readProducer strings) := by
    refine (harmless_readVarint onward_placed).bind fun index => ?_
    split
    · exact harmless_pure _
    · exact harmless_fail _
  exact harmless.safe roomy.placed

/-! ### Globals -/

/-- The vector of the globals can be afforded before they have been read. -/
def GlobalsSound (limit : Nat) (payload : Bytes) : Prop :=
  ∀ count start, Returns readVarint ⟨payload, 0⟩ count start → Affordable limit 24 count

theorem harmless_readQualifiers (version : BytecodeVersion) :
    Harmless Placed (readQualifiers version) := by
  rw [readQualifiers]
  split
  · exact (harmless_readByte onward_placed).bind fun visibility =>
      (harmless_readVarint onward_placed).bind fun constant => harmless_pure _
  · exact harmless_pure none

theorem harmless_readGlobal (strings types : List String) (version : BytecodeVersion) :
    Harmless Placed (readGlobal strings types version) := by
  have number := harmless_readVarint onward_placed
  exact number.bind fun nameIdx => number.bind fun typeIdx => number.bind fun constIdx =>
    number.bind fun alignment => (harmless_readQualifiers version).bind fun qualifiers =>
    (harmless_text _).bind fun _ => harmless_pure _

theorem safe_parseGlobalSection_iff (roomy : Roomy limit payload) (strings types : List String)
    (version : BytecodeVersion) :
    Safe limit (parseGlobalSection strings types version) ⟨payload, 0⟩ ↔
      GlobalsSound limit payload := by
  have number := harmless_readVarint onward_placed
  rw [parseGlobalSection, number.safe_bind_iff roomy.placed, GlobalsSound]
  refine forall₃_congr fun count start isCount => ?_
  have started := number.of_returns roomy.placed isCount
  rw [safe_withCapacity_bind_iff]
  exact and_iff_left (((harmless_readGlobal strings types version).replicate count).safe started)

/-! ### Functions -/

/-- The vector of the functions can be afforded before they have been read, and the length of
a body that is reached does not wrap around behind its position. -/
def FunctionsSound (limit : Nat) (strings types : List String) (payload : Bytes) : Prop :=
  ∀ count start, Returns readVarint ⟨payload, 0⟩ count start →
    Affordable limit 24 count ∧
      ∀ done < count, ∀ entries reader,
        Returns ((readFunction strings types).replicate done) start entries reader →
          ∀ head body, Returns (readFunctionHead strings types) reader head body →
            body.pos + head.bodyLen < 2 ^ 64

theorem harmless_readFunctionHead {Invariant : Reader → Prop} (onward : Onward Invariant)
    (strings types : List String) : Harmless Invariant (readFunctionHead strings types) := by
  have number := harmless_readVarint onward
  exact number.bind fun nameIdx => number.bind fun sigIdx =>
    (harmless_readByte onward).bind fun flags => number.bind fun _ =>
    number.bind fun bodyLen => harmless_pure _

theorem placed_readFunction {strings types : List String} {entry : FunctionEntry} {after : Reader}
    (placed : reader.Placed) (returns : Returns (readFunction strings types) reader entry after) :
    after.Placed := by
  rcases returns_bind_iff.mp returns with ⟨head, _, isHead, isRest⟩
  rcases returns_bind_iff.mp isRest with ⟨_, stop, isBytes, isLast⟩
  have placedHead :=
    (harmless_readFunctionHead onward_placed strings types).of_returns placed isHead
  have placedBody : stop.Placed := isBytes.state ▸ keeps_readBytes onward_placed placedHead _
  have last : Harmless Placed (do
      request (.text head.text.utf8ByteSize)
      return head : Decode FunctionEntry) := (harmless_text _).bind fun _ => harmless_pure _
  exact last.of_returns placedBody isLast

theorem placed_replicate_readFunction {strings types : List String} {count : Nat}
    {entries : List FunctionEntry} {after : Reader} (placed : reader.Placed)
    (returns : Returns ((readFunction strings types).replicate count) reader entries after) :
    after.Placed := by
  induction count generalizing reader entries with
  | zero =>
    cases (returns.unique (returns_pure [] reader)).2
    exact placed
  | succ _ induction =>
    rcases returns_replicate_succ_iff.mp returns with ⟨_, _, _, first, others, -⟩
    exact induction (placed_readFunction placed first) others

theorem safe_readFunction_iff (placed : reader.Placed) (strings types : List String) :
    Safe limit (readFunction strings types) reader ↔
      ∀ head body, Returns (readFunctionHead strings types) reader head body →
        body.pos + head.bodyLen < 2 ^ 64 := by
  have readHead := harmless_readFunctionHead onward_placed strings types
  rw [readFunction, readHead.safe_bind_iff placed]
  refine forall₃_congr fun head body isHead => ?_
  rw [safe_bind_iff, safe_readBytes_iff]
  exact and_iff_left fun _ _ _ => safe_bind_iff.mpr ⟨safe_text _, fun _ _ _ => safe_pure _⟩

theorem safe_parseFuncSection_iff (roomy : Roomy limit payload) (strings types : List String) :
    Safe limit (parseFuncSection strings types) ⟨payload, 0⟩ ↔
      FunctionsSound limit strings types payload := by
  have number := harmless_readVarint onward_placed
  rw [parseFuncSection, number.safe_bind_iff roomy.placed, FunctionsSound]
  refine forall₃_congr fun count start isCount => ?_
  have started := number.of_returns roomy.placed isCount
  rw [safe_withCapacity_bind_iff, safe_replicate_iff]
  refine and_congr_right fun _ => forall₅_congr fun done below entries reader isDone => ?_
  exact safe_readFunction_iff (placed_replicate_readFunction started isDone) strings types

end Sections

end CuTile.Bytecode
