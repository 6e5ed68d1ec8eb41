import CuTile.Foundation.Fallible
import CuTile.Foundation.Panic

/-! # One representative for every key

A list is scanned with an index from keys to positions of the items kept so far. An item
with a new key is appended; an item that is marked takes the place of a kept one that is
not. One item per key remains, and it is marked when any item of that key was.
-/

namespace CuTile

structure Kept (Item Key : Type*) where
  index : Key → Option Nat
  items : List Item

namespace Kept

variable {Item Key : Type*} (key : Item → Key) (marked : Item → Bool)

def empty : Kept Item Key :=
  ⟨fun _ => none, []⟩

/-- The state after an item, and the item that goes. -/
def insert [DecidableEq Key] (kept : Kept Item Key) (item : Item) :
    Except Panic (Kept Item Key × Option Item) :=
  match kept.index (key item) with
  | none =>
    .ok (⟨Function.update kept.index (key item) (some kept.items.length), kept.items ++ [item]⟩,
      none)
  | some position =>
    if marked item then
      match kept.items[position]? with
      | none => .error .outOfRange
      | some old =>
        if marked old then .ok (kept, some item)
        else .ok ({ kept with items := kept.items.set position item }, some old)
    else .ok (kept, some item)

/-- The state after a list of items, and the items that went. -/
def insertAll [DecidableEq Key] (kept : Kept Item Key) :
    List Item → Except Panic (Kept Item Key × List Item)
  | [] => .ok (kept, [])
  | item :: rest => do
    let (next, gone) ← kept.insert key marked item
    let (final, others) ← next.insertAll rest
    return (final, gone.toList ++ others)

structure StandsFor (kept : Kept Item Key) (seen : List Item) : Prop where
  index_iff : ∀ {wanted position}, kept.index wanted = some position ↔
    ∃ item, kept.items[position]? = some item ∧ key item = wanted
  nodup : (kept.items.map key).Nodup
  scanned : ∀ item ∈ kept.items, item ∈ seen
  covers : ∀ item ∈ seen, ∃ other ∈ kept.items,
    key other = key item ∧ (marked item = true → marked other = true)

variable {key marked} {kept : Kept Item Key} {seen : List Item}

theorem StandsFor.empty : (Kept.empty : Kept Item Key).StandsFor key marked [] :=
  ⟨by simp [Kept.empty], .nil, by simp [Kept.empty], by simp⟩

section

variable (stands : kept.StandsFor key marked seen)

include stands

theorem StandsFor.append [DecidableEq Key] {item : Item} (new : kept.index (key item) = none) :
    StandsFor key marked
      ⟨Function.update kept.index (key item) (some kept.items.length), kept.items ++ [item]⟩
      (seen ++ [item]) := by
  have absent : ∀ (position : Nat) other,
      kept.items[position]? = some other → key other ≠ key item := by
    intro position other found same
    have indexed := stands.index_iff.mpr ⟨other, found, same⟩
    rw [new] at indexed
    cases indexed
  refine ⟨fun {wanted position} => ?_, ?_, ?_, ?_⟩
  · dsimp only
    by_cases same : wanted = key item
    · subst same
      rw [Function.update_self, Option.some_inj]
      constructor
      · rintro rfl
        exact ⟨item, List.getElem?_concat_length .., rfl⟩
      · rintro ⟨other, found, sameKey⟩
        rcases Nat.lt_or_ge position kept.items.length with inside | outside
        · rw [List.getElem?_append_left inside] at found
          exact absurd sameKey (absent position other found)
        · have bound := (List.getElem?_eq_some_iff.mp found).1
          rw [List.length_append, List.length_singleton] at bound
          omega
    · rw [Function.update_of_ne same, stands.index_iff]
      constructor
      · rintro ⟨other, found, sameKey⟩
        have inside := (List.getElem?_eq_some_iff.mp found).1
        exact ⟨other, by rw [List.getElem?_append_left inside, found], sameKey⟩
      · rintro ⟨other, found, sameKey⟩
        rcases List.getElem?_append.symm.trans found with found
        split_ifs at found with inside
        · exact ⟨other, found, sameKey⟩
        · have last := List.mem_singleton.mp (List.mem_of_getElem? found)
          exact absurd (last ▸ sameKey.symm) same
  · rw [List.map_append, List.nodup_append]
    refine ⟨stands.nodup, List.nodup_singleton _, ?_⟩
    intro _ member _ isItem
    obtain ⟨old, oldMember, rfl⟩ := List.mem_map.mp member
    obtain ⟨position, found⟩ := List.mem_iff_getElem?.mp oldMember
    rw [List.map_singleton, List.mem_singleton] at isItem
    exact isItem ▸ absent position old found
  · intro other member
    rcases List.mem_append.mp member with earlier | last
    · exact List.mem_append_left _ (stands.scanned other earlier)
    · exact List.mem_append_right _ last
  · intro other member
    rcases List.mem_append.mp member with earlier | last
    · obtain ⟨held, heldMember, covered⟩ := stands.covers other earlier
      exact ⟨held, List.mem_append_left _ heldMember, covered⟩
    · rw [List.mem_singleton.mp last]
      exact ⟨item, by simp, rfl, id⟩

/-- An item whose key is kept by one that is marked at least as much adds nothing. -/
theorem StandsFor.skip {item : Item}
    (covered : ∃ other ∈ kept.items,
      key other = key item ∧ (marked item = true → marked other = true)) :
    kept.StandsFor key marked (seen ++ [item]) := by
  refine ⟨stands.index_iff, stands.nodup,
    fun other member => List.mem_append_left _ (stands.scanned other member), ?_⟩
  intro other member
  rcases List.mem_append.mp member with earlier | last
  · exact stands.covers other earlier
  · rw [List.mem_singleton.mp last]
    exact covered

theorem StandsFor.replace {item old : Item} {position : Nat}
    (found : kept.items[position]? = some old) (same : key old = key item)
    (isMarked : marked item = true) :
    StandsFor key marked { kept with items := kept.items.set position item }
      (seen ++ [item]) := by
  have inside := (List.getElem?_eq_some_iff.mp found).1
  have sameKeys : (kept.items.set position item).map key = kept.items.map key := by
    have bound : position < (kept.items.map key).length := by simpa using inside
    have value : (kept.items.map key)[position] = key item := by
      rw [List.getElem_map, (List.getElem?_eq_some_iff.mp found).2, same]
    rw [List.map_set, ← value, List.set_getElem_self bound]
  have sameKeyAt : ∀ wanted (place : Nat),
      (∃ other, (kept.items.set position item)[place]? = some other ∧ key other = wanted) ↔
        ∃ other, kept.items[place]? = some other ∧ key other = wanted := by
    intro _ _
    rw [← Option.map_eq_some_iff, ← Option.map_eq_some_iff, ← List.getElem?_map,
      ← List.getElem?_map, sameKeys]
  refine ⟨fun {wanted place} => stands.index_iff.trans (sameKeyAt wanted place).symm, ?_, ?_, ?_⟩
  · simpa only [sameKeys] using stands.nodup
  · intro other member
    rcases List.mem_or_eq_of_mem_set member with earlier | rfl
    · exact List.mem_append_left _ (stands.scanned other earlier)
    · simp
  · intro other member
    have placed : item ∈ kept.items.set position item := List.mem_set inside item
    rcases List.mem_append.mp member with earlier | last
    · obtain ⟨held, heldMember, sameKey, covered⟩ := stands.covers other earlier
      by_cases isOld : held = old
      · exact ⟨item, placed, same.symm.trans (isOld ▸ sameKey), fun _ => isMarked⟩
      · obtain ⟨place, foundHeld⟩ := List.mem_iff_getElem?.mp heldMember
        have different : position ≠ place := by
          rintro rfl
          exact isOld (Option.some_inj.mp (foundHeld.symm.trans found))
        refine ⟨held, List.mem_iff_getElem?.mpr ⟨place, ?_⟩, sameKey, covered⟩
        rw [List.getElem?_set_ne different, foundHeld]
    · rw [List.mem_singleton.mp last]
      exact ⟨item, placed, rfl, id⟩

theorem StandsFor.insert [DecidableEq Key] (item : Item) :
    ∃ next gone, kept.insert key marked item = .ok (next, gone) ∧
      next.StandsFor key marked (seen ++ [item]) := by
  unfold Kept.insert
  split
  · exact ⟨_, _, rfl, stands.append ‹_›⟩
  · rename_i position indexed
    obtain ⟨old, found, same⟩ := stands.index_iff.mp indexed
    have member := List.mem_of_getElem? found
    simp only [found]
    split_ifs with isMarked oldMarked
    · exact ⟨_, _, rfl, stands.skip ⟨old, member, same, fun _ => oldMarked⟩⟩
    · exact ⟨_, _, rfl, stands.replace found same isMarked⟩
    · exact ⟨_, _, rfl, stands.skip ⟨old, member, same, fun marks => absurd marks isMarked⟩⟩

theorem StandsFor.insertAll [DecidableEq Key] (items : List Item) :
    ∃ final gone, kept.insertAll key marked items = .ok (final, gone) ∧
      final.StandsFor key marked (seen ++ items) := by
  induction items generalizing kept seen with
  | nil => exact ⟨kept, [], rfl, by simpa using stands⟩
  | cons item _ induction =>
    obtain ⟨_, gone, inserts, standsNext⟩ := stands.insert item
    obtain ⟨final, others, rests, standsFinal⟩ := induction standsNext
    refine ⟨final, gone.toList ++ others, ?_, by simpa using standsFinal⟩
    simp only [Kept.insertAll, inserts, rests, Fallible.ok_bind]
    rfl

/-- The items of one key: none, or the one that stands for all. -/
theorem StandsFor.filter [DecidableEq Key] (wanted : Key) :
    (∀ item ∈ seen, key item ≠ wanted) ∧ kept.items.filter (key · = wanted) = [] ∨
      (∃ item ∈ seen, key item = wanted) ∧
        ∃ item, kept.items.filter (key · = wanted) = [item] ∧
          (marked item = true ↔ ∃ other ∈ seen, key other = wanted ∧ marked other = true) := by
  by_cases present : ∃ item ∈ seen, key item = wanted
  · right
    refine ⟨present, ?_⟩
    obtain ⟨item, member, rfl⟩ := present
    obtain ⟨held, heldMember, same, -⟩ := stands.covers item member
    have unique : ∀ other ∈ kept.items, key other = key item → other = held := fun other known is =>
      List.inj_on_of_nodup_map stands.nodup known heldMember (is.trans same.symm)
    have single : kept.items.filter (key · = key item) = [held] := by
      have nodup : (kept.items.filter (key · = key item)).Nodup :=
        (List.Nodup.of_map key stands.nodup).filter _
      have members : ∀ other, other ∈ kept.items.filter (key · = key item) ↔ other ∈ [held] := by
        intro other
        rw [List.mem_filter, List.mem_singleton, decide_eq_true_eq]
        exact ⟨fun found => unique other found.1 found.2, fun is => is ▸ ⟨heldMember, same⟩⟩
      exact List.perm_singleton.mp
        ((List.perm_ext_iff_of_nodup nodup (List.nodup_singleton held)).mpr members)
    refine ⟨held, single, ?_⟩
    constructor
    · exact fun isMarked => ⟨held, stands.scanned held heldMember, same, isMarked⟩
    · rintro ⟨other, known, sameKey, isMarked⟩
      obtain ⟨cover, coverMember, coverKey, covers⟩ := stands.covers other known
      rw [← unique cover coverMember (coverKey.trans sameKey)]
      exact covers isMarked
  · push Not at present
    refine .inl ⟨present, ?_⟩
    rw [List.filter_eq_nil_iff]
    intro item member
    rw [decide_eq_true_eq]
    exact present item (stands.scanned item member)

end

end Kept

end CuTile
