import CuTile.Bytecode.Decoder

/-! # Memory for the entries of the type table

An entry announces the lengths of its arrays. Reading it never fails, and it is safe exactly
when all these arrays can be afforded.
-/

namespace CuTile.Bytecode

open Metered Reader

/-- A vector of so many elements stays within the limit, and within what a vector can hold. -/
structure Affordable (limit size count : Nat) : Prop where
  bounded : size * count ≤ limit
  allocatable : size * count < 2 ^ 63

theorem Affordable.smaller {limit size smaller count : Nat}
    (affordable : Affordable limit size count)
    (le : smaller ≤ size) : Affordable limit smaller count := by
  have less := Nat.mul_le_mul_right count le
  exact ⟨Nat.le_trans less affordable.bounded, Nat.lt_of_le_of_lt less affordable.allocatable⟩

section WithCapacity

variable {σ : Type} {limit size count : Nat} {state : σ}

theorem safe_withCapacity_iff :
    Safe limit (withCapacity size count) state ↔ Affordable limit size count := by
  rw [withCapacity]
  split
  · rename_i allocatable
    rw [safe_reserve_iff]
    exact ⟨fun bounded => ⟨bounded, allocatable⟩, Affordable.bounded⟩
  · rename_i tooLarge
    exact iff_of_false (not_safe_panics _) fun affordable => tooLarge affordable.allocatable

theorem returns_withCapacity (allocatable : size * count < 2 ^ 63) (state : σ) :
    Returns (withCapacity size count) state () state := by
  rw [withCapacity, if_pos allocatable]
  exact ⟨rfl, rfl⟩

theorem withCapacity_state (after : σ)
    (returns : Returns (withCapacity size count) state () after) :
    after = state := by
  by_cases allocatable : size * count < 2 ^ 63
  · exact (returns.unique (returns_withCapacity allocatable state)).2
  · have outcome := returns.outcome
    rw [withCapacity, if_neg allocatable] at outcome
    cases outcome

theorem safe_withCapacity_bind_iff {α : Type} {next : Unit → Metered σ DecodeError α} :
    Safe limit (withCapacity size count >>= next) state ↔
      Affordable limit size count ∧ Safe limit (next ()) state := by
  by_cases affordable : Affordable limit size count
  · rw [(returns_withCapacity affordable.allocatable state).safe_bind_iff, safe_withCapacity_iff]
  · refine iff_of_false (fun safe => affordable ?_) fun both => affordable both.1
    exact safe_withCapacity_iff.mp (safe_bind_iff.mp safe).1

end WithCapacity

/-! ## Reading without reserving -/

theorem steady_varintOrZero : Steady Placed varintOrZero :=
  (harmless_readVarint onward_placed).steady_unwrapOr 0

theorem steady_byteOrZero : Steady Placed byteOrZero :=
  ((harmless_readByte onward_placed).bind fun _ => harmless_pure _).steady_unwrapOr 0

theorem steady_readFlags (version since : BytecodeVersion) :
    Steady Placed (readFlags version since) := by
  rw [readFlags]
  split
  · exact steady_varintOrZero
  · exact steady_pure 0

theorem steady_readFlagged (flagged : Bool) (label : String) :
    Steady Placed (readFlagged flagged label) := by
  rw [readFlagged]
  split
  · exact steady_byteOrZero.bind fun _ => steady_pure _
  · exact steady_pure ""

theorem steady_readPaddingText (version : BytecodeVersion) (flags : Nat) :
    Steady Placed (readPaddingText version flags) := by
  rw [readPaddingText]
  split
  · exact steady_readFlagged _ _
  · refine steady_byteOrZero.bind fun present => ?_
    split
    · exact steady_varintOrZero.bind fun _ => steady_pure _
    · exact steady_pure ""

def listArray {α : Type} (element : Decode α) : Decode (List α) := do
  let count ← varintOrZero
  element.replicate count

def listLongs : Decode (List Int64) :=
  listArray (readLeI64.unwrapOr 0)

def listInts : Decode (List Int32) :=
  listArray (readLeI32.unwrapOr 0)

section Arrays

variable {α β : Type} {element : Decode α} {limit size : Nat} {reader after : Reader}

theorem steady_listArray (steady : Steady Placed element) : Steady Placed (listArray element) :=
  steady_varintOrZero.bind fun count => steady.replicate count

/-- An array costs its capacity, and then its elements are there. -/
theorem safe_readArray_bind_iff {items : List α} {next : List α → Decode β}
    (steady : Steady Placed element) (placed : reader.Placed)
    (returns : Returns (listArray element) reader items after) :
    Safe limit (readArray size element >>= next) reader ↔
      Affordable limit size items.length ∧ Safe limit (next items) after := by
  rcases returns_bind_iff.mp returns with ⟨count, start, isCount, isItems⟩
  have started := steady_varintOrZero.of_returns placed isCount
  rw [isItems.length_replicate]
  by_cases affordable : Affordable limit size count
  · have reads : Returns (readArray size element) reader items after :=
      isCount.bind ((returns_withCapacity affordable.allocatable start).bind isItems)
    rw [reads.safe_bind_iff]
    refine and_congr_left fun _ => ?_
    rw [readArray, steady_varintOrZero.safe_bind_iff placed isCount, safe_withCapacity_bind_iff]
    exact and_iff_left ((steady.replicate count).safe started)
  · refine iff_of_false (fun safe => affordable ?_) fun both => affordable both.1
    have whole := (safe_bind_iff.mp safe).1
    rw [readArray, steady_varintOrZero.safe_bind_iff placed isCount,
      safe_withCapacity_bind_iff] at whole
    exact whole.1

theorem safe_joinTexts_bind_iff {separator : String} {texts : List String}
    {next : String → Decode β} :
    Safe limit (joinTexts separator texts >>= next) reader ↔
      Affordable limit 24 texts.length ∧
        Safe limit (next (separator.intercalate texts)) reader := by
  by_cases affordable : Affordable limit 24 texts.length
  · have joins : Returns (joinTexts separator texts) reader (separator.intercalate texts) reader :=
      (returns_withCapacity affordable.allocatable reader).bind (returns_pure _ _)
    rw [joins.safe_bind_iff, joinTexts, safe_withCapacity_bind_iff]
    exact and_congr_left fun _ => and_iff_left (safe_pure _)
  · refine iff_of_false (fun safe => affordable ?_) fun both => affordable both.1
    have whole := (safe_bind_iff.mp safe).1
    rw [joinTexts, safe_withCapacity_bind_iff] at whole
    exact whole.1

end Arrays

/-! ## The arrays of an entry -/

/-- The sizes and lengths of the arrays of an entry, after the tag. The texts of the elements
are collected in a vector of their own, except for the dimension map of a partition view. -/
def taggedArrays (version : BytecodeVersion) : TypeTag → Decode (List (Nat × Nat))
  | .tile => do
    let _ ← varintOrZero
    let dims ← listLongs
    return [(24, dims.length)]
  | .tensorView => do
    let _ ← readFlags version .v13_4
    let _ ← varintOrZero
    let shape ← listLongs
    let strides ← listLongs
    return [(24, shape.length), (24, strides.length)]
  | .partitionView => do
    let _ ← readFlags version .v13_3
    let tileShape ← listInts
    let _ ← varintOrZero
    let dimMap ← listInts
    return [(24, tileShape.length), (4, dimMap.length)]
  | .gatherScatterView => do
    let _ ← varintOrZero
    let tileShape ← listInts
    return [(24, tileShape.length)]
  | .stridedView => do
    let _ ← varintOrZero
    let tileShape ← listInts
    let traversalStrides ← listInts
    let _ ← varintOrZero
    let dimMap ← listInts
    return [(24, tileShape.length), (24, traversalStrides.length), (24, dimMap.length)]
  | .func => do
    let inputs ← listArray varintOrZero
    let results ← listArray varintOrZero
    return [(24, inputs.length), (24, results.length)]
  | _ => pure []

def entryArrays (version : BytecodeVersion) : Decode (List (Nat × Nat)) := do
  let tagValue ← tagOrNone
  match tagValue with
  | none => pure []
  | some value =>
    match TypeTag.ofCode (value % 256) with
    | some tag => taggedArrays version tag
    | none => pure []

/-- Every array that the entry announces can be afforded. -/
def ArraysFit (limit : Nat) (arrays : Decode (List (Nat × Nat))) (reader : Reader) : Prop :=
  ∀ found after, Returns arrays reader found after →
    ∀ array ∈ found, Affordable limit array.1 array.2

section Entries

variable {limit : Nat} {reader after : Reader} {types : List String} {version : BytecodeVersion}

theorem arraysFit_bind_iff {α : Type} {first : Decode α} {next : α → Decode (List (Nat × Nat))}
    {value : α} (returns : Returns first reader value after) :
    ArraysFit limit (first >>= next) reader ↔ ArraysFit limit (next value) after := by
  refine forall₂_congr fun found stop => ?_
  rw [returns.bind_iff]

theorem arraysFit_pure_iff {arrays : List (Nat × Nat)} :
    ArraysFit limit (pure arrays) reader ↔
      ∀ array ∈ arrays, Affordable limit array.1 array.2 := by
  constructor
  · exact fun fits => fits arrays reader (returns_pure _ _)
  · intro all found stop returns
    cases (returns.unique (returns_pure arrays reader)).1
    exact all

theorem steady_long : Steady Placed (readLeI64.unwrapOr 0) :=
  (harmless_readLeI64 onward_placed).steady_unwrapOr 0

theorem steady_int : Steady Placed (readLeI32.unwrapOr 0) :=
  (harmless_readLeI32 onward_placed).steady_unwrapOr 0

theorem unfailing_withCapacity (size count : Nat) :
    Unfailing Placed (withCapacity size count : Decode Unit) := by
  rw [withCapacity]
  split
  · exact ⟨nofun, fun _ placed => placed⟩
  · exact ⟨nofun, fun _ placed => placed⟩

/-- What is pending and the program together cost the announced arrays, and the program does
not fail. -/
structure Prices {α : Type} (pending : List (Nat × Nat)) (program : Decode α)
    (arrays : Decode (List (Nat × Nat))) : Prop where
  unfailing : Unfailing Placed program
  safe_iff : ∀ {limit reader}, reader.Placed →
    ((∀ array ∈ pending, Affordable limit array.1 array.2) ∧ Safe limit program reader ↔
      ArraysFit limit arrays reader)

namespace Prices

variable {α β : Type} {pending announced : List (Nat × Nat)} {first : Decode α}
  {program : α → Decode β} {arrays : α → Decode (List (Nat × Nat))}

theorem read (steady : Steady Placed first)
    (next : ∀ value, Prices pending (program value) (arrays value)) :
    Prices pending (first >>= program) (first >>= arrays) := by
  refine ⟨steady.unfailing.bind fun value => (next value).unfailing, fun placed => ?_⟩
  rcases steady.step placed with ⟨value, _, isValue, placedAfter⟩
  rw [steady.safe_bind_iff placed isValue, arraysFit_bind_iff isValue,
    (next value).safe_iff placedAfter]

theorem array {element : Decode α} {size : Nat} {program : List α → Decode β}
    {arrays : List α → Decode (List (Nat × Nat))} (steady : Steady Placed element)
    (next : ∀ items, Prices ((size, items.length) :: pending) (program items) (arrays items)) :
    Prices pending (readArray size element >>= program) (listArray element >>= arrays) := by
  have reads : Unfailing Placed (readArray size element) :=
    steady_varintOrZero.unfailing.bind fun count =>
      (unfailing_withCapacity size count).bind fun _ => (steady.replicate count).unfailing
  refine ⟨reads.bind fun items => (next items).unfailing, fun placed => ?_⟩
  rcases (steady_listArray steady).step placed with ⟨items, _, areItems, placedAfter⟩
  rw [safe_readArray_bind_iff steady placed areItems, arraysFit_bind_iff areItems,
    ← (next items).safe_iff placedAfter, List.forall_mem_cons, and_left_comm, and_assoc]

theorem join {separator : String} {texts : List String} {program : String → Decode β}
    {arrays : Decode (List (Nat × Nat))}
    (next : ∀ text, Prices ((24, texts.length) :: pending) (program text) arrays) :
    Prices pending (joinTexts separator texts >>= program) arrays := by
  have joins : Unfailing Placed (joinTexts separator texts) :=
    (unfailing_withCapacity 24 texts.length).bind fun _ => (steady_pure _).unfailing
  refine ⟨joins.bind fun text => (next text).unfailing, fun placed => ?_⟩
  rw [safe_joinTexts_bind_iff, ← (next _).safe_iff placed, List.forall_mem_cons, and_left_comm,
    and_assoc]

theorem skip (steady : Steady Placed first)
    (next : ∀ value, Prices pending (program value) (pure announced)) :
    Prices pending (first >>= program) (pure announced) := by
  refine ⟨steady.unfailing.bind fun value => (next value).unfailing, fun placed => ?_⟩
  rcases steady.step placed with ⟨value, _, isValue, placedAfter⟩
  rw [steady.safe_bind_iff placed isValue, (next value).safe_iff placedAfter, arraysFit_pure_iff,
    arraysFit_pure_iff]

theorem done {program : Decode β} (steady : Steady Placed program)
    (listed : ∀ array ∈ announced, array ∈ pending)
    (covered : ∀ array ∈ pending, ∃ larger ∈ announced,
      array.2 = larger.2 ∧ array.1 ≤ larger.1) : Prices pending program (pure announced) := by
  refine ⟨steady.unfailing, fun placed => ?_⟩
  rw [arraysFit_pure_iff, and_iff_left (steady.safe placed)]
  refine ⟨fun fits array isListed => fits array (listed array isListed),
    fun fits array isPending => ?_⟩
  rcases covered array isPending with ⟨larger, isListed, sameLength, le⟩
  exact sameLength ▸ (fits larger isListed).smaller le

end Prices

theorem prices_taggedEntry (tag : TypeTag) :
    Prices [] (taggedEntry types version tag) (taggedArrays version tag) := by
  have number := steady_varintOrZero
  cases tag with
  | pointer =>
    refine .done ((steady_readFlags version .v13_4).bind fun flags => ?_) (by simp) (by simp)
    exact number.bind fun elem => (steady_readFlagged _ _).bind fun ptrAttr => steady_pure _
  | tile =>
    refine .read number fun elem => .array steady_long fun dims => .join fun shape => ?_
    exact .done (steady_pure _) (by simp) (by simp)
  | tensorView =>
    refine .read (steady_readFlags version .v13_4) fun flags => .read number fun elem => ?_
    refine .array steady_long fun shape => .array steady_long fun strides => ?_
    refine .join fun shape => .join fun strides => .skip (steady_readFlagged _ _) fun ptrAttr => ?_
    exact .done (steady_pure _) (by simp) (by simp)
  | partitionView =>
    refine .read (steady_readFlags version .v13_3)
      fun flags => .array steady_int fun tileShape => ?_
    refine .read number fun view => .array steady_int fun dimMap => ?_
    refine .skip (steady_readPaddingText version flags) fun padding => .join fun shape => ?_
    exact .done (steady_pure _) (by simp) (by simp)
  | gatherScatterView =>
    refine .read number fun flags => .array steady_int fun tileShape => ?_
    refine .skip number fun view => .skip number fun sparseDim => ?_
    refine .skip (steady_readFlagged _ _) fun padding => .join fun shape => ?_
    exact .done (steady_pure _) (by simp) (by simp)
  | stridedView =>
    refine .read number fun flags => .array steady_int fun tileShape => ?_
    refine .array steady_int fun traversal => .read number fun view => ?_
    refine .array steady_int fun dimMap => .skip (steady_readFlagged _ _) fun padding => ?_
    refine .join fun shape => .join fun strides => .join fun map => ?_
    exact .done (steady_pure _) (by simp) (by simp)
  | func =>
    refine .array number fun inputs => .array number fun results => ?_
    exact .done (steady_pure _) (by simp) (by simp)
  | _ => exact .done (steady_pure _) (by simp) (by simp)

theorem steady_tagOrNone : Steady Placed tagOrNone :=
  ((harmless_readVarint onward_placed).bind fun _ => harmless_pure _).steady_unwrapOr none

theorem prices_decodeTypeEntry :
    Prices [] (decodeTypeEntry types version) (entryArrays version) := by
  refine .read steady_tagOrNone fun tagValue => ?_
  cases tagValue with
  | none => exact .done (steady_pure _) (by simp) (by simp)
  | some value =>
    cases known : TypeTag.ofCode (value % 256) with
    | none =>
      simp only [known]
      exact .done (steady_pure _) (by simp) (by simp)
    | some tag =>
      simp only [known]
      exact prices_taggedEntry tag

theorem safe_decodeTypeEntry_iff (placed : reader.Placed) :
    Safe limit (decodeTypeEntry types version) reader ↔
      ArraysFit limit (entryArrays version) reader := by
  rw [← prices_decodeTypeEntry.safe_iff placed]
  exact (and_iff_right nofun).symm

end Entries

end CuTile.Bytecode
