import Mathlib.Algebra.BigOperators.Group.List.Basic
import Mathlib.Tactic.Ring

/-! # Ordered maps

A finite map over a linear order, kept as its strictly increasing entry list.
Two maps with the same entries are therefore equal, which is what lets a
structural comparison of maps stand for a comparison of the functions they
denote.
-/

namespace CuTile

open List

/-- A finite map whose entries are listed in strictly increasing key order. -/
@[ext] structure OrderedMap (Key : Type u) (Value : Type v) [LinearOrder Key] where
  entries : List (Key × Value)
  sorted : entries.Pairwise (fun left right => left.1 < right.1)

namespace OrderedMap

variable {Key : Type u} {Value : Type v} [LinearOrder Key]

instance [DecidableEq Value] : DecidableEq (OrderedMap Key Value) := fun left right =>
  decidable_of_iff (left.entries = right.entries) OrderedMap.ext_iff.symm

instance [Repr Key] [Repr Value] : Repr (OrderedMap Key Value) where
  reprPrec map precedence := reprPrec map.entries precedence

def empty : OrderedMap Key Value := ⟨[], .nil⟩

def singleton (key : Key) (value : Value) : OrderedMap Key Value :=
  ⟨[(key, value)], List.pairwise_singleton _ _⟩

def keys (map : OrderedMap Key Value) : List Key := map.entries.map Prod.fst

/-! ## Entry lists -/

def findEntry (key : Key) : List (Key × Value) → Option Value
  | [] => none
  | (head, value) :: rest => if key = head then some value else findEntry key rest

def insertEntry (key : Key) (value : Value) :
    List (Key × Value) → List (Key × Value)
  | [] => [(key, value)]
  | (head, current) :: rest =>
    if key < head then (key, value) :: (head, current) :: rest
    else if key = head then (key, value) :: rest
    else (head, current) :: insertEntry key value rest

def eraseEntry (key : Key) : List (Key × Value) → List (Key × Value)
  | [] => []
  | (head, current) :: rest =>
    if key = head then rest else (head, current) :: eraseEntry key rest

variable {key : Key} {entry : Key × Value} {entries : List (Key × Value)}

theorem mem_insertEntry {value : Value} (member : entry ∈ insertEntry key value entries) :
    entry = (key, value) ∨ entry ∈ entries := by
  induction entries with
  | nil => simpa [insertEntry] using member
  | cons _ _ induction =>
    unfold insertEntry at member
    split_ifs at member with before equal
    · simpa using member
    · rcases mem_cons.mp member with same | later
      · exact .inl same
      · exact .inr (mem_cons_of_mem _ later)
    · rcases mem_cons.mp member with same | later
      · exact .inr (same ▸ mem_cons_self)
      · exact (induction later).imp_right (mem_cons_of_mem _)

theorem insertEntry_sorted (key : Key) (value : Value)
    (sorted : entries.Pairwise (fun left right => left.1 < right.1)) :
    (insertEntry key value entries).Pairwise (fun left right => left.1 < right.1) := by
  induction entries with
  | nil => exact pairwise_singleton _ _
  | cons _ _ induction =>
    rcases pairwise_cons.mp sorted with ⟨below, tailSorted⟩
    unfold insertEntry
    split_ifs with before equal
    · refine sorted.cons fun entry member => ?_
      rcases mem_cons.mp member with same | later
      · exact same ▸ before
      · exact before.trans (below entry later)
    · exact tailSorted.cons fun entry member => equal ▸ below entry member
    · refine (induction tailSorted).cons fun entry member => ?_
      rcases mem_insertEntry member with same | later
      · exact same ▸ lt_of_le_of_ne (not_lt.mp before) (Ne.symm equal)
      · exact below entry later

theorem eraseEntry_sublist (key : Key) (entries : List (Key × Value)) :
    (eraseEntry key entries).Sublist entries := by
  induction entries with
  | nil => exact .slnil
  | cons _ _ induction =>
    unfold eraseEntry
    split_ifs
    · exact sublist_cons_self _ _
    · exact induction.cons_cons _

theorem findEntry_eq_none_of_lt (below : ∀ entry ∈ entries, key < entry.1) :
    findEntry key entries = none := by
  induction entries with
  | nil => rfl
  | cons head _ induction =>
    have different : key ≠ head.1 := (below head mem_cons_self).ne
    simpa [findEntry, different] using
      induction fun entry member => below entry (mem_cons_of_mem _ member)

theorem findEntry_insertEntry (key other : Key) (value : Value) (entries : List (Key × Value)) :
    findEntry other (insertEntry key value entries) =
      if other = key then some value else findEntry other entries := by
  induction entries with
  | nil => rfl
  | cons head _ induction =>
    rcases head with ⟨first, _⟩
    by_cases before : key < first
    · simp [insertEntry, findEntry, before]
    · by_cases equal : key = first
      · subst equal
        by_cases same : other = key <;> simp [insertEntry, findEntry, same]
      · by_cases isFirst : other = first
        · subst isFirst
          simp [insertEntry, findEntry, before, equal, Ne.symm equal]
        · simp [insertEntry, findEntry, before, equal, isFirst, induction]

/-! ## Map operations -/

def find? (map : OrderedMap Key Value) (key : Key) : Option Value :=
  findEntry key map.entries

def insert (map : OrderedMap Key Value) (key : Key) (value : Value) :
    OrderedMap Key Value :=
  ⟨insertEntry key value map.entries, insertEntry_sorted key value map.sorted⟩

def erase (map : OrderedMap Key Value) (key : Key) : OrderedMap Key Value :=
  ⟨eraseEntry key map.entries, map.sorted.sublist (eraseEntry_sublist key _)⟩

/-- Keep the entries whose value survives `transform`, in place. -/
def filterMap (transform : Value → Option Value) (map : OrderedMap Key Value) :
    OrderedMap Key Value where
  entries := map.entries.filterMap fun entry =>
    (transform entry.2).map (Prod.mk entry.1)
  sorted := by
    refine List.Pairwise.filterMap _ ?_ map.sorted
    intro left right before newLeft fromLeft newRight fromRight
    simp only [Option.map_eq_some_iff] at fromLeft fromRight
    rcases fromLeft with ⟨_, _, rfl⟩
    rcases fromRight with ⟨_, _, rfl⟩
    exact before

/-- Transform every value, or fail if one transformation fails. -/
def traverse (transform : Value → Option Value) (map : OrderedMap Key Value) :
    Option (OrderedMap Key Value) :=
  if map.entries.all (fun entry => (transform entry.2).isSome) then
    some (map.filterMap transform)
  else
    none

variable {map : OrderedMap Key Value}

theorem mem_of_mem_insert {value : Value} (member : entry ∈ (map.insert key value).entries) :
    entry = (key, value) ∨ entry ∈ map.entries :=
  mem_insertEntry member

theorem mem_of_mem_erase (member : entry ∈ (map.erase key).entries) : entry ∈ map.entries :=
  (eraseEntry_sublist key map.entries).subset member

theorem mem_filterMap {transform : Value → Option Value} :
    entry ∈ (map.filterMap transform).entries ↔
      ∃ value, (entry.1, value) ∈ map.entries ∧ transform value = some entry.2 := by
  rcases entry with ⟨key, value⟩
  simp only [filterMap, mem_filterMap, Option.map_eq_some_iff, Prod.mk.injEq]
  constructor
  · rintro ⟨⟨_, old⟩, member, _, transformed, rfl, rfl⟩
    exact ⟨old, member, transformed⟩
  · rintro ⟨old, member, transformed⟩
    exact ⟨(key, old), member, value, transformed, rfl, rfl⟩

theorem entries_filterMap (transform : Value → Option Value) (map : OrderedMap Key Value) :
    (map.filterMap transform).entries = map.entries.filterMap fun entry =>
      (transform entry.2).map (Prod.mk entry.1) := rfl

theorem traverse_eq_some_iff {transform : Value → Option Value} {result : OrderedMap Key Value} :
    map.traverse transform = some result ↔
      (∀ entry ∈ map.entries, (transform entry.2).isSome) ∧
        map.filterMap transform = result := by
  unfold traverse
  split_ifs with all
  · simp only [all_eq_true] at all
    simp only [Option.some.injEq]
    exact ⟨fun same => ⟨all, same⟩, And.right⟩
  · simp only [all_eq_true] at all
    simp only [false_iff]
    exact fun both => all both.1

theorem find?_insert (map : OrderedMap Key Value) (key other : Key) (value : Value) :
    (map.insert key value).find? other = if other = key then some value else map.find? other :=
  findEntry_insertEntry key other value map.entries

theorem find?_filterMap (map : OrderedMap Key Value) (transform : Value → Option Value)
    (key : Key) : (map.filterMap transform).find? key = (map.find? key).bind transform := by
  rcases map with ⟨entries, sorted⟩
  simp only [find?, filterMap]
  induction entries with
  | nil => rfl
  | cons head tail induction =>
    rcases pairwise_cons.mp sorted with ⟨below, tailSorted⟩
    by_cases same : key = head.1
    · cases transformed : transform head.2 with
      | none =>
        -- The keys behind the dropped entry are larger.
        have absent : findEntry key tail = none :=
          findEntry_eq_none_of_lt fun entry member => same ▸ below entry member
        have rest := induction tailSorted
        rw [absent] at rest
        simpa [findEntry, same, transformed] using rest
      | some => simp [findEntry, same, transformed]
    · cases transformed : transform head.2 with
      | none => simpa [findEntry, same, transformed] using induction tailSorted
      | some => simpa [findEntry, same, transformed] using induction tailSorted

theorem find?_eq_some_iff (map : OrderedMap Key Value) {value : Value} :
    map.find? key = some value ↔ (key, value) ∈ map.entries := by
  rcases map with ⟨entries, sorted⟩
  simp only [find?]
  induction entries with
  | nil => simp [findEntry]
  | cons head tail induction =>
    rcases head with ⟨first, _⟩
    rcases pairwise_cons.mp sorted with ⟨below, tailSorted⟩
    by_cases same : key = first
    · subst same
      -- The keys behind the head are larger, so the tail has no entry for it.
      have absent : (key, value) ∉ tail := fun member => lt_irrefl key (below _ member)
      simp [findEntry, absent, eq_comm]
    · simpa [findEntry, same] using induction tailSorted

theorem eq_of_find?_eq {left right : OrderedMap Key Value}
    (same : ∀ key, left.find? key = right.find? key) : left = right := by
  have sameMembers : ∀ entry, entry ∈ left.entries ↔ entry ∈ right.entries := by
    intro _
    rw [← find?_eq_some_iff left, ← find?_eq_some_iff right, same]
  have nodup : ∀ map : OrderedMap Key Value, map.entries.Nodup :=
    fun map => map.sorted.imp fun before equal => before.ne (congrArg Prod.fst equal)
  apply OrderedMap.ext
  apply ((perm_ext_iff_of_nodup (nodup left) (nodup right)).mpr sameMembers).eq_of_pairwise
    _ left.sorted right.sorted
  intro _ _ _ _ before after
  exact absurd after before.asymm

/-! ## Weighted sums -/

section WeightedSum

/-- The linear combination a coefficient map denotes under a valuation. -/
def weightedSum (valuation : Key → Int) (map : OrderedMap Key Int) : Int :=
  (map.entries.map fun entry => entry.2 * valuation entry.1).sum

variable (valuation : Key → Int)

@[simp] theorem weightedSum_empty :
    weightedSum valuation (empty : OrderedMap Key Int) = 0 := rfl

@[simp] theorem weightedSum_singleton (key : Key) (value : Int) :
    weightedSum valuation (singleton key value) = value * valuation key := by
  simp [weightedSum, singleton]

theorem weightedSum_congr {valuation other : Key → Int} {map : OrderedMap Key Int}
    (agree : ∀ key ∈ map.keys, valuation key = other key) :
    weightedSum valuation map = weightedSum other map := by
  unfold weightedSum
  congr 1
  apply map_congr_left
  intro entry member
  rw [agree entry.1 (mem_map_of_mem member)]

/-- Overwriting a coefficient replaces the old contribution by the new one. -/
theorem weightedSum_insert (map : OrderedMap Key Int) (key : Key) (value : Int) :
    weightedSum valuation (map.insert key value) =
      weightedSum valuation map +
        (value - (map.find? key).getD 0) * valuation key := by
  rcases map with ⟨entries, sorted⟩
  simp only [weightedSum, insert, find?]
  induction entries with
  | nil => simp [insertEntry, findEntry]
  | cons _ tail induction =>
    rcases pairwise_cons.mp sorted with ⟨below, tailSorted⟩
    unfold insertEntry findEntry
    split_ifs with before equal equal
    · exact absurd equal before.ne
    · have absent : findEntry key tail = none :=
        findEntry_eq_none_of_lt fun entry member => before.trans (below entry member)
      simp only [map_cons, sum_cons, absent, Option.getD_none]
      ring
    · subst equal
      simp only [map_cons, sum_cons, Option.getD_some]
      ring
    · simp only [map_cons, sum_cons, induction tailSorted]
      ring

theorem weightedSum_erase (map : OrderedMap Key Int) (key : Key) :
    weightedSum valuation (map.erase key) =
      weightedSum valuation map - (map.find? key).getD 0 * valuation key := by
  rcases map with ⟨entries, sorted⟩
  simp only [weightedSum, erase, find?]
  induction entries with
  | nil => simp [eraseEntry, findEntry]
  | cons _ _ induction =>
    unfold eraseEntry findEntry
    split_ifs with equal
    · subst equal
      simp
    · simp only [map_cons, sum_cons,
        induction (pairwise_cons.mp sorted).2]
      ring

/-- The valuation that sets one key to one and every other key to zero. -/
def indicator (key other : Key) : Int := if other = key then 1 else 0

theorem weightedSum_indicator (map : OrderedMap Key Int) (key : Key) :
    weightedSum (indicator key) map = (map.find? key).getD 0 := by
  rcases map with ⟨entries, sorted⟩
  simp only [weightedSum, find?, indicator]
  induction entries with
  | nil => rfl
  | cons head tail induction =>
    rcases pairwise_cons.mp sorted with ⟨below, tailSorted⟩
    have rest := induction tailSorted
    rw [map_cons, sum_cons, rest]
    by_cases same : key = head.1
    · have absent : findEntry key tail = none :=
        findEntry_eq_none_of_lt fun entry member => same ▸ below entry member
      rw [absent]
      simp [findEntry, same]
    · simp [findEntry, same, Ne.symm same]

/-- A coefficientwise map that multiplies each coefficient by `factor` modulo
`modulus`, dropping the ones it sends to nothing only when they vanish, scales
the sum modulo `modulus`. Modulus zero is the exact statement. -/
theorem weightedSum_filterMap (map : OrderedMap Key Int)
    {transform : Int → Option Int} {factor modulus : Int}
    (scales : ∀ entry ∈ map.entries,
      modulus ∣ factor * entry.2 - (transform entry.2).getD 0) :
    modulus ∣ factor * weightedSum valuation map -
      weightedSum valuation (map.filterMap transform) := by
  rcases map with ⟨entries, sorted⟩
  change ∀ entry ∈ entries, _ at scales
  simp only [weightedSum, filterMap]
  induction entries with
  | nil => simp
  | cons head _ induction =>
    have here := scales head mem_cons_self
    have rest := induction (pairwise_cons.mp sorted).2 fun entry member =>
      scales entry (mem_cons_of_mem _ member)
    have headPart := Dvd.dvd.mul_right here (valuation head.1)
    convert Int.dvd_add headPart rest using 1
    cases transformed : transform head.2 <;>
      simp [transformed] <;> ring

end WeightedSum

end OrderedMap

end CuTile
