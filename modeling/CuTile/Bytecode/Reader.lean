import CuTile.Foundation.ByteCodec
import CuTile.Foundation.Metered

/-! # The reader of the decoder

`Reader` with its position, as in a build with overflow checks. A position beyond the data
or an index outside it would be a panic; a read that finds too few bytes is an error.
-/

namespace CuTile.Bytecode

inductive DecodeError where
  | unexpectedEnd
  | varintOverflow
  | paddingByte (found : UInt8)
  | invalidMagic
  | producerIndex
  | debugAttributeOffsets
  | debugIndexOffsets
  | unknownDebugTag (tag : UInt8)
deriving DecidableEq, Repr

structure Reader where
  data : Bytes
  pos : Nat
deriving DecidableEq, Repr

abbrev Decode (α : Type) : Type := Metered Reader DecodeError α

open Metered

def alignmentByte : UInt8 := 0xCB

section Indexing

variable {σ α : Type}

def addUsize (left right : Nat) : Metered σ DecodeError Nat :=
  if left + right < 2 ^ 64 then pure (left + right) else panics .overflow

def slice (data : Bytes) (start stop : Nat) : Metered σ DecodeError Bytes :=
  if start ≤ stop ∧ stop ≤ data.length then pure ((data.drop start).take (stop - start))
  else panics .outOfRange

def elementAt (items : List α) (index : Nat) : Metered σ DecodeError α :=
  match items[index]? with
  | some item => pure item
  | none => panics .outOfRange

/-- `Vec::with_capacity`, for elements of `size` bytes. -/
def withCapacity (size count : Nat) : Metered σ DecodeError Unit :=
  if size * count < 2 ^ 63 then request (.reserve (size * count)) else panics .overflow

end Indexing

namespace Reader

def current : Decode Reader := fun reader => ⟨[], .ok reader, reader⟩

def moveTo (pos : Nat) : Decode Unit := fun reader => ⟨[], .ok (), { reader with pos := pos }⟩

def remaining : Decode Nat := do
  let reader ← current
  if reader.pos ≤ reader.data.length then pure (reader.data.length - reader.pos)
  else panics .overflow

def readByte : Decode UInt8 := do
  let reader ← current
  if reader.data.length ≤ reader.pos then fail .unexpectedEnd
  else do
    let byte ← elementAt reader.data reader.pos
    let pos ← addUsize reader.pos 1
    moveTo pos
    return byte

def readBytes (count : Nat) : Decode Bytes := do
  let reader ← current
  let stop ← addUsize reader.pos count
  if reader.data.length < stop then fail .unexpectedEnd
  else do
    let bytes ← slice reader.data reader.pos stop
    moveTo stop
    return bytes

/-- The groups of a varint from the group at `shift` on; ten of them fit. -/
def readVarintGroups : Nat → Nat → Nat → Decode Nat
  | 0, _, _ => fail .varintOverflow
  | groups + 1, shift, result => do
    let byte ← readByte
    let result := result ||| (byte.toNat % 128 * 2 ^ shift) % 2 ^ 64
    if byte.toNat < 128 then pure result else readVarintGroups groups (shift + 7) result

def readVarint : Decode Nat :=
  readVarintGroups 10 0 0

/-- The zigzag code is undone on the bits. -/
def readSignedVarint : Decode Int64 := do
  let value ← readVarint
  let bits := BitVec.ofNat 64 value
  return Int64.ofBitVec ((bits >>> 1) ^^^ -(bits &&& 1#64))

/-- `read_le_u16`, `read_le_u32` and the 64-bit offsets. -/
def readLe (width : Nat) : Decode Nat := do
  let bytes ← readBytes width
  return ofLittleEndian bytes

def readLeI64 : Decode Int64 := do
  let value ← readLe 8
  return Int64.ofBitVec (BitVec.ofNat 64 value)

def readLeI32 : Decode Int32 := do
  let value ← readLe 4
  return Int32.ofBitVec (BitVec.ofNat 32 value)

def readPadding : Nat → Decode Unit
  | 0 => pure ()
  | count + 1 => do
    let byte ← readByte
    if byte = alignmentByte then readPadding count else fail (.paddingByte byte)

def skipPadding (alignment : Nat) : Decode Unit := do
  let reader ← current
  if alignment < 2 then pure () else readPadding (paddingTo alignment reader.pos)

/-! ## Positions -/

def rest (reader : Reader) : Bytes :=
  reader.data.drop reader.pos

def advance (reader : Reader) (count : Nat) : Reader :=
  { reader with pos := reader.pos + count }

/-- The position lies in the data, and the data is no larger than an allocation can be. -/
structure Placed (reader : Reader) : Prop where
  inside : reader.pos ≤ reader.data.length
  small : reader.data.length < 2 ^ 63

theorem placed_start {data : Bytes} (small : data.length < 2 ^ 63) : Placed ⟨data, 0⟩ :=
  ⟨Nat.zero_le _, small⟩

theorem length_rest (reader : Reader) : reader.rest.length = reader.data.length - reader.pos :=
  List.length_drop

@[simp] theorem rest_start (data : Bytes) : rest ⟨data, 0⟩ = data := rfl

theorem advance_advance (reader : Reader) (first second : Nat) :
    (reader.advance first).advance second = reader.advance (first + second) := by
  rw [advance, advance, advance, Nat.add_assoc]

theorem rest_advance {reader : Reader} {front back : Bytes} (is : reader.rest = front ++ back) :
    (reader.advance front.length).rest = back := by
  rw [rest, advance, ← List.drop_drop]
  exact (congrArg (List.drop front.length) is).trans List.drop_left

theorem length_le_of_rest {reader : Reader} (placed : reader.Placed) {front back : Bytes}
    (is : reader.rest = front ++ back) : reader.pos + front.length ≤ reader.data.length := by
  have length := congrArg List.length is
  rw [length_rest, List.length_append] at length
  have inside := placed.inside
  omega

theorem Placed.advance {reader : Reader} (placed : reader.Placed) {front back : Bytes}
    (is : reader.rest = front ++ back) : (reader.advance front.length).Placed :=
  ⟨length_le_of_rest placed is, placed.small⟩

theorem rest_advance_one {reader : Reader} {byte : UInt8} {back : Bytes}
    (is : reader.rest = byte :: back) : (reader.advance 1).rest = back :=
  @rest_advance reader [byte] back is

theorem Placed.advance_one {reader : Reader} (placed : reader.Placed) {byte : UInt8}
    {back : Bytes} (is : reader.rest = byte :: back) : (reader.advance 1).Placed :=
  @Placed.advance reader placed [byte] back is

/-! ## What the functions do -/

section Functions

variable {reader : Reader} {limit : Nat}

theorem readByte_eq (placed : reader.Placed) :
    readByte reader =
      match reader.data[reader.pos]? with
      | some byte => ⟨[], .ok byte, reader.advance 1⟩
      | none => ⟨[], .error .unexpectedEnd, reader⟩ := by
  have inside := placed.inside
  have small := placed.small
  simp only [readByte, bind, andThen, current]
  by_cases outside : reader.data.length ≤ reader.pos
  · rw [if_pos outside, List.getElem?_eq_none outside]
    rfl
  · have fits : reader.pos + 1 < 2 ^ 64 := by omega
    rw [if_neg outside, elementAt, List.getElem?_eq_getElem (Nat.not_le.mp outside), addUsize,
      if_pos fits]
    rfl

theorem readBytes_eq (reader : Reader) (count : Nat) :
    readBytes count reader =
      if 2 ^ 64 ≤ reader.pos + count then ⟨[], .panic .overflow, reader⟩
      else if reader.pos + count ≤ reader.data.length then
        ⟨[], .ok (reader.rest.take count), reader.advance count⟩
      else ⟨[], .error .unexpectedEnd, reader⟩ := by
  simp only [readBytes, bind, andThen, current, addUsize]
  by_cases wraps : 2 ^ 64 ≤ reader.pos + count
  · rw [if_pos wraps, if_neg (Nat.not_lt.mpr wraps)]
    rfl
  · rw [if_neg wraps, if_pos (Nat.not_le.mp wraps)]
    by_cases inside : reader.pos + count ≤ reader.data.length
    · have whole : (slice reader.data reader.pos (reader.pos + count) : Decode Bytes) =
          pure (reader.rest.take (reader.pos + count - reader.pos)) :=
        if_pos ⟨Nat.le_add_right reader.pos count, inside⟩
      rw [if_pos inside]
      simp only [pure, if_neg (Nat.not_lt.mpr inside), whole, Nat.add_sub_cancel_left]
      rfl
    · rw [if_neg inside]
      simp only [pure, if_pos (Nat.not_le.mp inside)]
      rfl

theorem safe_readBytes_iff (reader : Reader) (count : Nat) :
    Safe limit (readBytes count) reader ↔ reader.pos + count < 2 ^ 64 := by
  constructor
  · intro safe
    by_contra wraps
    refine safe.noPanic .overflow ?_
    rw [readBytes_eq, if_pos (Nat.not_lt.mp wraps)]
  · intro fits
    constructor
    · rw [readBytes_eq, if_neg (Nat.not_le.mpr fits)]
      split <;> exact nofun
    · rw [readBytes_eq, if_neg (Nat.not_le.mpr fits)]
      split <;> exact nofun

/-! ### Harmless functions -/

/-- What reading preserves: it holds inside the data only, and further on it holds again. -/
structure Onward (Invariant : Reader → Prop) : Prop where
  placed : ∀ ⦃reader⦄, Invariant reader → reader.Placed
  advance : ∀ ⦃reader⦄, Invariant reader → ∀ count, reader.pos + count ≤ reader.data.length →
    Invariant (reader.advance count)

theorem onward_placed : Onward Placed :=
  ⟨fun _ placed => placed, fun _ placed _ inside => ⟨inside, placed.small⟩⟩

/-- In the same data, and not before the origin. -/
structure Beyond (origin reader : Reader) : Prop extends Placed reader where
  data : reader.data = origin.data
  pos : origin.pos ≤ reader.pos

theorem Placed.beyond (placed : reader.Placed) : Beyond reader reader :=
  ⟨placed, rfl, Nat.le_refl _⟩

theorem onward_beyond (origin : Reader) : Onward (Beyond origin) :=
  ⟨fun _ beyond => beyond.toPlaced, fun _ beyond _ inside =>
    ⟨⟨inside, beyond.small⟩, beyond.data, Nat.le_add_right_of_le beyond.pos⟩⟩

section Harmless

variable {Invariant : Reader → Prop} (onward : Onward Invariant)
include onward

theorem harmless_readByte : Harmless Invariant readByte := by
  constructor
  · intro reader holds reason
    rw [readByte_eq (onward.placed holds)]
    split <;> exact nofun
  · intro reader holds bytes
    rw [readByte_eq (onward.placed holds)]
    split <;> exact nofun
  · intro reader holds
    rw [readByte_eq (onward.placed holds)]
    split
    · rename_i byte found
      exact onward.advance holds 1 (List.getElem?_eq_some_iff.mp found).1
    · exact holds

theorem keeps_readBytes (holds : Invariant reader) (count : Nat) :
    Invariant (readBytes count reader).state := by
  rw [readBytes_eq]
  split_ifs with wraps inside
  · exact holds
  · exact onward.advance holds count inside
  · exact holds

theorem harmless_readBytes {count : Nat} (short : count < 2 ^ 63) :
    Harmless Invariant (readBytes count) := by
  have fits : ∀ {reader : Reader}, Invariant reader → ¬ 2 ^ 64 ≤ reader.pos + count := by
    intro reader holds
    have inside := (onward.placed holds).inside
    have small := (onward.placed holds).small
    omega
  constructor
  · intro reader holds reason
    rw [readBytes_eq, if_neg (fits holds)]
    split <;> exact nofun
  · intro reader holds bytes
    rw [readBytes_eq, if_neg (fits holds)]
    split <;> exact nofun
  · exact fun reader holds => keeps_readBytes onward holds count

theorem harmless_readVarintGroups (groups shift result : Nat) :
    Harmless Invariant (readVarintGroups groups shift result) := by
  induction groups generalizing shift result with
  | zero => exact harmless_fail _
  | succ _ induction =>
    refine (harmless_readByte onward).bind fun byte => ?_
    split
    · exact harmless_pure _
    · exact induction _ _

theorem harmless_readVarint : Harmless Invariant readVarint :=
  harmless_readVarintGroups onward 10 0 0

theorem harmless_readLe {width : Nat} (short : width < 2 ^ 63) :
    Harmless Invariant (readLe width) :=
  (harmless_readBytes onward short).bind fun _ => harmless_pure _

theorem harmless_readLeI64 : Harmless Invariant readLeI64 :=
  (harmless_readLe onward (by decide)).bind fun _ => harmless_pure _

theorem harmless_readLeI32 : Harmless Invariant readLeI32 :=
  (harmless_readLe onward (by decide)).bind fun _ => harmless_pure _

theorem harmless_readPadding (count : Nat) : Harmless Invariant (readPadding count) := by
  induction count with
  | zero => exact harmless_pure ()
  | succ _ induction =>
    refine (harmless_readByte onward).bind fun byte => ?_
    split
    · exact induction
    · exact harmless_fail _

omit onward in
theorem harmless_current : Harmless Invariant current :=
  ⟨nofun, nofun, fun _ holds => holds⟩

theorem harmless_skipPadding (alignment : Nat) : Harmless Invariant (skipPadding alignment) := by
  refine harmless_current.bind fun reader => ?_
  split
  · exact harmless_pure ()
  · exact harmless_readPadding onward _

end Harmless

theorem advance_of_readLe {width value : Nat} {after : Reader}
    (returns : Returns (readLe width) reader value after) :
    after = reader.advance width ∧ reader.pos + width ≤ reader.data.length := by
  rcases returns_bind_iff.mp returns with ⟨_, between, reads, last⟩
  cases (last.unique (returns_pure _ between)).2
  have outcome := reads.outcome
  have state := reads.state
  rw [readBytes_eq] at outcome state
  split_ifs at outcome state with wraps inside
  exact ⟨state.symm, inside⟩

theorem advance_of_replicate_readLe {width count : Nat} {values : List Nat}
    {after : Reader} (placed : reader.Placed)
    (returns : Returns ((readLe width).replicate count) reader values after) :
    after = reader.advance (width * count) ∧ after.Placed := by
  induction count generalizing reader values with
  | zero =>
    cases (returns.unique (returns_pure [] reader)).2
    exact ⟨rfl, placed⟩
  | succ _ induction =>
    rcases returns_replicate_succ_iff.mp returns with ⟨_, _, _, first, others, -⟩
    rcases advance_of_readLe first with ⟨rfl, inside⟩
    have moved : (reader.advance width).Placed := ⟨inside, placed.small⟩
    have later := induction moved others
    rw [advance_advance, Nat.add_comm width, ← Nat.mul_succ] at later
    exact later

/-! ### Reading what stands there -/

variable {back : Bytes}

theorem returns_readByte (placed : reader.Placed) {byte : UInt8}
    (is : reader.rest = byte :: back) : Returns readByte reader byte (reader.advance 1) := by
  have found : reader.data[reader.pos]? = some byte := by
    rw [← Nat.add_zero reader.pos, ← List.getElem?_drop]
    exact congrArg (·[0]?) is
  constructor
  · rw [readByte_eq placed, found]
  · rw [readByte_eq placed, found]

theorem returns_readBytes (placed : reader.Placed) {front : Bytes}
    (is : reader.rest = front ++ back) :
    Returns (readBytes front.length) reader front (reader.advance front.length) := by
  have inside := length_le_of_rest placed is
  have small := placed.small
  have fits : ¬ 2 ^ 64 ≤ reader.pos + front.length := by omega
  constructor
  · rw [readBytes_eq, if_neg fits, if_pos inside, is, List.take_left]
  · rw [readBytes_eq, if_neg fits, if_pos inside]

theorem returns_readVarintGroups (groups : Nat) {shift low value : Nat} (placed : reader.Placed)
    (is : reader.rest = varintGroups (groups + 1) value ++ back)
    (room : value < 128 ^ (groups + 1)) (below : low < 2 ^ shift)
    (fits : value * 2 ^ shift < 2 ^ 64) :
    Returns (readVarintGroups (groups + 1) shift low) reader (low + value * 2 ^ shift)
      (reader.advance (varintGroups (groups + 1) value).length) := by
  induction groups generalizing reader shift low value with
  | zero =>
    have small : value < 128 := room
    rw [varintGroups, if_pos (Nat.div_eq_of_lt small), Nat.mod_eq_of_lt small] at is ⊢
    have group := toNat_ofNat_of_lt (Nat.lt_trans small (by decide))
    refine (returns_readByte placed is).bind ?_
    rw [group, if_pos small, Nat.mod_eq_of_lt small, Nat.mod_eq_of_lt fits, or_shifted below]
    exact returns_pure _ _
  | succ groups induction =>
    rw [varintGroups] at is ⊢
    by_cases last : value / 128 = 0
    · have small : value < 128 := (Nat.div_eq_zero_iff_lt (by decide)).mp last
      rw [if_pos last, Nat.mod_eq_of_lt small] at is ⊢
      have group := toNat_ofNat_of_lt (Nat.lt_trans small (by decide))
      refine (returns_readByte placed is).bind ?_
      rw [group, if_pos small, Nat.mod_eq_of_lt small, Nat.mod_eq_of_lt fits, or_shifted below]
      exact returns_pure _ _
    · rw [if_neg last] at is ⊢
      have group : (UInt8.ofNat (value % 128 + 128)).toNat = value % 128 + 128 :=
        toNat_ofNat_of_lt (by omega)
      have split : value * 2 ^ shift = value % 128 * 2 ^ shift + value / 128 * 2 ^ (shift + 7) := by
        rw [Nat.pow_add, ← Nat.mul_assoc, Nat.mul_right_comm, ← Nat.add_mul]
        congr 1
        omega
      have high : value / 128 < 128 ^ (groups + 1) := by
        rw [Nat.div_lt_iff_lt_mul (by decide), ← Nat.pow_succ]
        exact room
      have lower : low + value % 128 * 2 ^ shift < 2 ^ (shift + 7) := by
        have group : value % 128 ≤ 127 := by omega
        have bound := Nat.mul_le_mul_right (2 ^ shift) group
        rw [Nat.pow_add]
        omega
      have later := induction (placed.advance_one is) (rest_advance_one is) high lower (by omega)
      refine (returns_readByte placed is).bind ?_
      rw [group, if_neg (by omega), Nat.add_mod_right, Nat.mod_mod,
        Nat.mod_eq_of_lt (by omega), or_shifted below]
      rw [advance_advance, Nat.add_assoc, ← split, Nat.add_comm 1] at later
      exact later

theorem returns_readVarint (placed : reader.Placed) {value : Nat} (fits : value < 2 ^ 64)
    (is : reader.rest = varint value ++ back) :
    Returns readVarint reader value (reader.advance (varint value).length) := by
  have read := returns_readVarintGroups 9 placed is (Nat.lt_trans fits (by decide))
    (Nat.two_pow_pos 0) (by rw [Nat.pow_zero, Nat.mul_one]; exact fits)
  rw [Nat.pow_zero, Nat.mul_one, Nat.zero_add] at read
  exact read

theorem returns_readPadding (count : Nat) (placed : reader.Placed)
    (is : reader.rest = List.replicate count alignmentByte ++ back) :
    Returns (readPadding count) reader () (reader.advance count) := by
  induction count generalizing reader with
  | zero => exact returns_pure _ _
  | succ _ induction =>
    rw [List.replicate_succ, List.cons_append] at is
    refine (returns_readByte placed is).bind ?_
    rw [if_pos rfl]
    have later := induction (placed.advance_one is) (rest_advance_one is)
    rw [advance_advance, Nat.add_comm 1] at later
    exact later

theorem returns_skipPadding {alignment : Nat} (aligned : 2 ≤ alignment) (placed : reader.Placed)
    (is : reader.rest = List.replicate (paddingTo alignment reader.pos) alignmentByte ++ back) :
    Returns (skipPadding alignment) reader ()
      (reader.advance (paddingTo alignment reader.pos)) := by
  have start : Returns current reader reader reader := ⟨rfl, rfl⟩
  refine start.bind ?_
  rw [if_neg (Nat.not_lt.mpr aligned)]
  exact returns_readPadding _ placed is

end Functions

end Reader

end CuTile.Bytecode
