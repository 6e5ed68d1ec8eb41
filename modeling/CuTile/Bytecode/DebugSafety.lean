import CuTile.Bytecode.TableSafety

/-! # Safety of the debug section

The parser of the debug section caps its vectors by the length of the payload and checks its
offsets, so it is safe on every payload.
-/

namespace CuTile.Bytecode

open Metered Reader

section Debug

variable {limit : Nat} {payload : Bytes} {reader after : Reader} {quote : String → String}
  {strings : List String}

theorem harmless_emit {Invariant : Reader → Prop} (out text : String) :
    Harmless Invariant (emit out text) :=
  (harmless_text _).bind fun _ => harmless_pure _

theorem safe_emit (out text : String) : Safe limit (emit out text) reader :=
  safe_bind_iff.mpr ⟨safe_text _, fun _ _ _ => safe_pure _⟩

theorem harmless_debugAttribute (tag : DebugTag) :
    Harmless Placed (debugAttribute quote strings tag) := by
  have number := harmless_readVarint onward_placed
  cases tag with
  | unknown => exact harmless_pure _
  | diCompileUnit => exact number.bind fun file => harmless_pure _
  | diFile => exact number.bind fun name => number.bind fun dir => harmless_pure _
  | callSite => exact number.bind fun callee => number.bind fun caller => harmless_pure _
  | diLexicalBlock | diLoc =>
    exact number.bind fun scopeId => number.bind fun file => number.bind fun line =>
      number.bind fun col => harmless_pure _
  | diSubprogram =>
    exact number.bind fun file => number.bind fun line => number.bind fun name =>
      number.bind fun linkage => number.bind fun cu => number.bind fun scopeLine =>
      harmless_pure _

theorem harmless_debugEntry : Harmless Placed (debugEntry quote strings) := by
  refine (harmless_readByte onward_placed).bind fun code => ?_
  split
  · exact harmless_debugAttribute _
  · exact harmless_fail _

theorem entryRange_eq {offsets : List Nat} {index : Nat} (inside : index < offsets.length)
    (size : Nat) :
    entryRange offsets size index =
      pure (boundary offsets size index, boundary offsets size (index + 1)) := by
  rw [entryRange, entryStart_eq inside size, returning_bind, entryStop_eq, returning_bind]

theorem harmless_emitDebugAttribute {Invariant : Reader → Prop} {offsets : List Nat} {data : Bytes}
    {index : Nat} (inside : index < offsets.length) (small : data.length < 2 ^ 63)
    (out : String) :
    Harmless Invariant (emitDebugAttribute quote strings offsets data out index) := by
  rw [emitDebugAttribute, entryRange_eq inside, returning_bind]
  dsimp only
  split
  · exact harmless_fail _
  · rename_i inOrder
    rw [not_or] at inOrder
    have within : boundary offsets data.length index ≤ boundary offsets data.length (index + 1) ∧
        boundary offsets data.length (index + 1) ≤ data.length := by omega
    rw [slice, if_pos within, returning_bind]
    have short : ((data.drop (boundary offsets data.length index)).take
        (boundary offsets data.length (index + 1) -
          boundary offsets data.length index)).length < 2 ^ 63 := by
      rw [List.length_take, List.length_drop]
      omega
    exact (harmless_debugEntry.onState (placed_start short)).bind fun line => harmless_emit _ _

theorem safe_emitDebugFunction {offsets attrIds : List Nat} {index : Nat}
    (inside : index < offsets.length) (affordable : Affordable limit 24 attrIds.length)
    (out : String) : Safe limit (emitDebugFunction offsets attrIds out index) reader := by
  rw [emitDebugFunction, entryRange_eq inside, returning_bind]
  dsimp only
  split
  · exact safe_fail _
  · have fewer : (((attrIds.drop (boundary offsets attrIds.length index)).take
        (boundary offsets attrIds.length (index + 1) -
          boundary offsets attrIds.length index)).map toString).length ≤ attrIds.length := by
      rw [List.length_map, List.length_take, List.length_drop]
      omega
    have less := Nat.mul_le_mul_left 24 fewer
    refine safe_joinTexts_bind_iff.mpr ⟨⟨?_, ?_⟩, safe_emit _ _⟩
    · exact Nat.le_trans less affordable.bounded
    · exact Nat.lt_of_le_of_lt less affordable.allocatable

/-! ## Capped arrays -/

theorem safe_readCapped (roomy : Roomy limit payload) (beyond : Beyond ⟨payload, 0⟩ reader)
    {alignment width : Nat} (narrow : width ≤ 8) :
    Safe limit (readCapped payload.length alignment width) reader := by
  have onward := onward_beyond ⟨payload, 0⟩
  have number := harmless_readVarint onward
  refine (number.safe_bind_iff beyond).mpr fun count start isCount => ?_
  have started := number.of_returns beyond isCount
  have padding := harmless_skipPadding onward alignment
  refine (padding.safe_bind_iff started).mpr fun _ aligned isAligned => ?_
  have placed := padding.of_returns started isAligned
  have elements := harmless_readLe onward (Nat.lt_of_le_of_lt narrow (by decide))
  refine safe_withCapacity_bind_iff.mpr
    ⟨roomy.affordable ?_, (elements.replicate count).safe placed⟩
  have capped := Nat.min_le_right count payload.length
  omega

theorem Beyond.of_readCapped (beyond : Beyond ⟨payload, 0⟩ reader) {alignment width : Nat}
    {values : List Nat}
    (returns : Returns (readCapped payload.length alignment width) reader values after) :
    Beyond ⟨payload, 0⟩ after ∧ width * values.length ≤ payload.length := by
  have onward := onward_beyond ⟨payload, 0⟩
  rcases returns_bind_iff.mp returns with ⟨count, start, isCount, later⟩
  rcases returns_bind_iff.mp later with ⟨_, aligned, isAligned, others⟩
  rcases returns_bind_iff.mp others with ⟨_, reserved, isReserved, isValues⟩
  have started := (harmless_readVarint onward).of_returns beyond isCount
  have placed := (harmless_skipPadding onward alignment).of_returns started isAligned
  cases withCapacity_state reserved isReserved
  rcases advance_of_replicate_readLe placed.toPlaced isValues with ⟨isAfter, stopped⟩
  have same : after.data = payload := by
    rw [isAfter]
    exact placed.data
  have moved : after.pos = aligned.pos + width * count := by
    rw [isAfter]
    rfl
  have inside := stopped.inside
  rw [same] at inside
  rw [isValues.length_replicate]
  exact ⟨⟨stopped, same, Nat.zero_le _⟩, by omega⟩

/-! ## The section -/

theorem safe_parseDebugSection (roomy : Roomy limit payload) (out : String) :
    Safe limit (parseDebugSection quote strings out) ⟨payload, 0⟩ := by
  have start : Returns current ⟨payload, 0⟩ ⟨payload, 0⟩ ⟨payload, 0⟩ := ⟨rfl, rfl⟩
  refine start.safe_bind_iff.mpr ⟨harmless_current.safe roomy.placed, ?_⟩
  refine safe_bind_iff.mpr ⟨safe_readCapped roomy roomy.placed.beyond (by decide), ?_⟩
  intro indexOffsets first isIndexOffsets
  have beyond1 := (Beyond.of_readCapped roomy.placed.beyond isIndexOffsets).1
  refine safe_bind_iff.mpr ⟨safe_readCapped roomy beyond1 (by decide), ?_⟩
  intro attrIds second isAttrIds
  have beyond2 := Beyond.of_readCapped beyond1 isAttrIds
  refine safe_bind_iff.mpr ⟨safe_readCapped roomy beyond2.1 (by decide), ?_⟩
  intro attrOffsets third isAttrOffsets
  have beyond3 := (Beyond.of_readCapped beyond2.1 isAttrOffsets).1
  have short : third.rest.length < 2 ^ 63 := by
    have small := beyond3.small
    rw [length_rest]
    omega
  have affordable : Affordable limit 24 attrIds.length := roomy.affordable (by omega)
  have readRest := harmless_readBytes onward_placed short
  refine (returns_remaining beyond3.toPlaced).safe_bind_iff.mpr
    ⟨safe_remaining beyond3.toPlaced, ?_⟩
  refine (returns_readRest beyond3.toPlaced).safe_bind_iff.mpr ⟨readRest.safe beyond3.toPlaced, ?_⟩
  refine safe_bind_iff.mpr ⟨safe_emit _ _, fun out _ _ => ?_⟩
  refine safe_bind_iff.mpr ⟨?_, fun out _ _ => ?_⟩
  · refine safe_foldlM_of_step (fun out index member reader => ?_) out
    exact (@harmless_emitDebugAttribute _ _ (fun _ => True) _ _ _ (List.mem_range.mp member)
      short out).safe trivial
  · refine safe_foldlM_of_step (fun out index member reader => ?_) out
    exact safe_emitDebugFunction (List.mem_range.mp member) affordable out

end Debug

end CuTile.Bytecode
