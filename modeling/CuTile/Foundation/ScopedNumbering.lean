import CuTile.Foundation.OrderedMap

/-! # Scoped numberings

Names are numbered in the order in which they are registered, and at the end of a scope
the numbers given inside it are taken back. A numbering that has registered a few names
more than another one runs ahead of it: the names registered before that have the same
numbers in both, and every later name has a larger number in the one that runs ahead.
-/

namespace CuTile

structure Numbering (Name : Type*) [LinearOrder Name] where
  table : OrderedMap Name Nat
  next : Nat

namespace Numbering

variable {Name : Type*} [LinearOrder Name] {numbering ahead behind : Numbering Name}
  {name other : Name} {index floor : Nat}

def empty : Numbering Name := ⟨.empty, 0⟩

def lookup (numbering : Numbering Name) (name : Name) : Option Nat :=
  numbering.table.find? name

def register (numbering : Numbering Name) (name : Name) : Numbering Name :=
  ⟨numbering.table.insert name numbering.next, numbering.next + 1⟩

def registerAll (numbering : Numbering Name) (names : List Name) : Numbering Name :=
  names.foldl register numbering

def rollback (numbering : Numbering Name) (saved : Nat) : Numbering Name :=
  ⟨numbering.table.filterMap fun index => if index < saved then some index else none, saved⟩

@[simp] theorem next_register : (numbering.register name).next = numbering.next + 1 := rfl

theorem lookup_register (other : Name) :
    (numbering.register name).lookup other =
      if other = name then some numbering.next else numbering.lookup other :=
  OrderedMap.find?_insert _ _ _ _

theorem lookup_rollback {saved : Nat} :
    (numbering.rollback saved).lookup name = some index ↔
      numbering.lookup name = some index ∧ index < saved := by
  rw [lookup, rollback, OrderedMap.find?_filterMap, Option.bind_eq_some_iff]
  constructor
  · rintro ⟨_, is, kept⟩
    split_ifs at kept with below
    cases kept
    exact ⟨is, below⟩
  · rintro ⟨is, below⟩
    exact ⟨index, is, if_pos below⟩

theorem registerAll_cons (names : List Name) :
    numbering.registerAll (name :: names) = (numbering.register name).registerAll names := rfl

theorem next_registerAll (numbering : Numbering Name) (names : List Name) :
    (numbering.registerAll names).next = numbering.next + names.length := by
  induction names generalizing numbering with
  | nil => rfl
  | cons name names induction =>
    rw [registerAll_cons, induction, next_register, List.length_cons]
    omega

theorem lookup_registerAll_of_not_mem {names : List Name} (absent : name ∉ names) :
    (numbering.registerAll names).lookup name = numbering.lookup name := by
  induction names generalizing numbering with
  | nil => rfl
  | cons _ _ induction =>
    rw [List.mem_cons, not_or] at absent
    rw [registerAll_cons, induction absent.2, lookup_register, if_neg absent.1]

/-- Where a list registers a name does not depend on the table it registers it in. -/
theorem lookup_registerAll_of_mem {names : List Name} (member : name ∈ names) :
    ∃ offset, ∀ numbering : Numbering Name,
      (numbering.registerAll names).lookup name = some (numbering.next + offset) := by
  induction names with
  | nil => cases member
  | cons head names induction =>
    by_cases again : name ∈ names
    · rcases induction again with ⟨offset, registers⟩
      refine ⟨offset + 1, fun numbering => ?_⟩
      rw [registerAll_cons, registers, next_register]
      congr 1
      omega
    · have isHead : name = head := (List.mem_cons.mp member).resolve_right again
      refine ⟨0, fun numbering => ?_⟩
      rw [registerAll_cons, lookup_registerAll_of_not_mem again, lookup_register, if_pos isHead]
      rfl

/-! ## Bounds and scopes -/

def Bounded (numbering : Numbering Name) : Prop :=
  ∀ ⦃name index⦄, numbering.lookup name = some index → index < numbering.next

theorem bounded_empty : (empty : Numbering Name).Bounded := nofun

theorem Bounded.register (bounded : numbering.Bounded) : (numbering.register name).Bounded := by
  intro _ _ found
  rw [lookup_register] at found
  split_ifs at found with same
  · cases found
    exact Nat.lt_succ_self _
  · exact Nat.lt_succ_of_lt (bounded found)

theorem Bounded.registerAll (bounded : numbering.Bounded) (names : List Name) :
    (numbering.registerAll names).Bounded := by
  induction names generalizing numbering with
  | nil => exact bounded
  | cons _ _ induction => exact induction bounded.register

theorem bounded_rollback (saved : Nat) : (numbering.rollback saved).Bounded :=
  fun _ _ found => (lookup_rollback.mp found).2

/-- `later` has only added numbers that `numbering` had not given yet. -/
structure Extends (numbering later : Numbering Name) : Prop where
  next : numbering.next ≤ later.next
  kept : ∀ {name index}, later.lookup name = some index → index < numbering.next →
    numbering.lookup name = some index

theorem Extends.refl : Extends numbering numbering := ⟨Nat.le_refl _, fun found _ => found⟩

variable {later : Numbering Name}

theorem Extends.trans {middle : Numbering Name} (first : Extends numbering middle)
    (second : Extends middle later) : Extends numbering later := by
  refine ⟨Nat.le_trans first.next second.next, fun found below => first.kept ?_ below⟩
  exact second.kept found (Nat.lt_of_lt_of_le below first.next)

theorem extends_register : Extends numbering (numbering.register name) := by
  refine ⟨Nat.le_succ _, fun {other index} found below => ?_⟩
  rw [lookup_register] at found
  split_ifs at found with same
  · cases found
    exact absurd below (Nat.lt_irrefl _)
  · exact found

theorem extends_registerAll (names : List Name) :
    Extends numbering (numbering.registerAll names) := by
  induction names generalizing numbering with
  | nil => exact .refl
  | cons _ _ induction => exact extends_register.trans induction

/-- A scope that has been closed leaves at most what was there before it. -/
structure Within (later numbering : Numbering Name) : Prop where
  next : later.next = numbering.next
  found : ∀ {name index}, later.lookup name = some index → numbering.lookup name = some index

theorem Within.refl : Within numbering numbering := ⟨rfl, id⟩

theorem Within.trans {first second third : Numbering Name} (inner : Within first second)
    (outer : Within second third) : Within first third :=
  ⟨inner.next.trans outer.next, fun found => outer.found (inner.found found)⟩

theorem Within.extends (within : Within later numbering) : Extends numbering later :=
  ⟨within.next.ge, fun found _ => within.found found⟩

theorem Extends.rollback (added : Extends numbering later) :
    Within (later.rollback numbering.next) numbering := by
  refine ⟨rfl, fun found => ?_⟩
  rcases lookup_rollback.mp found with ⟨is, below⟩
  exact added.kept is below

/-! ## Numbering a list -/

/-- The names in order have the numbers from zero on, and no other name has a number. -/
structure Numbers (numbering : Numbering Name) (names : List Name) : Prop where
  next : numbering.next = names.length
  found : ∀ {name index}, numbering.lookup name = some index ↔ names[index]? = some name

theorem numbers_empty : Numbers (empty : Numbering Name) [] :=
  ⟨rfl, fun {_ _} => iff_of_false nofun nofun⟩

section Numbers

variable {names more : List Name}

theorem Numbers.register (numbers : Numbers numbering names) (fresh : name ∉ names) :
    Numbers (numbering.register name) (names ++ [name]) := by
  refine ⟨by simp [numbers.next], fun {other index} => ?_⟩
  have inNames := @numbers.found
  rw [lookup_register, numbers.next, List.getElem?_append]
  split_ifs with same inside inside
  · subst same
    refine iff_of_false (fun is => ?_) fun is => fresh (List.mem_of_getElem? is)
    cases is
    exact Nat.lt_irrefl _ inside
  · subst same
    rw [List.getElem?_singleton]
    split_ifs with last
    · exact iff_of_true (congrArg some (by omega)) rfl
    · refine iff_of_false (fun is => last ?_) nofun
      cases is
      omega
  · exact numbers.found
  · rw [numbers.found, List.getElem?_eq_none (Nat.not_lt.mp inside), List.getElem?_singleton]
    refine iff_of_false nofun fun is => same ?_
    split_ifs at is
    exact (Option.some.inj is).symm

theorem Numbers.registerAll (numbers : Numbers numbering names)
    (distinct : (names ++ more).Nodup) : Numbers (numbering.registerAll more) (names ++ more) := by
  induction more generalizing numbering names with
  | nil => rwa [List.append_nil]
  | cons name _ induction =>
    rw [← List.singleton_append, ← List.append_assoc] at distinct ⊢
    have fresh := (List.nodup_append.mp (List.nodup_append.mp distinct).1).2.2
    exact induction (numbers.register fun member =>
      fresh name member name (List.mem_singleton_self name) rfl) distinct

theorem Numbers.rollback (numbers : Numbers numbering (names ++ more)) :
    Numbers (numbering.rollback names.length) names := by
  refine ⟨rfl, fun {name index} => ?_⟩
  rw [lookup_rollback, numbers.found]
  constructor
  · exact fun found => (List.getElem?_append_left found.2).symm.trans found.1
  · intro found
    have inside := (List.getElem?_eq_some_iff.mp found).1
    exact ⟨(List.getElem?_append_left inside).trans found, inside⟩

theorem Numbers.unique {second : Numbering Name} (numbers : Numbers numbering names)
    (others : Numbers second names) : numbering = second := by
  have next := numbers.next.trans others.next.symm
  have table : numbering.table = second.table := OrderedMap.eq_of_find?_eq fun name =>
    Option.ext fun index => numbers.found.trans others.found.symm
  cases numbering
  cases second
  exact congrArg₂ Numbering.mk table next

end Numbers

/-! ## Running ahead -/

/-- The same numbers so far; `behind` may know more names. -/
structure Matches (ahead behind : Numbering Name) : Prop where
  next : behind.next = ahead.next
  found : ∀ {name index}, ahead.lookup name = some index → behind.lookup name = some index
  bounded : behind.Bounded

/-- `ahead` has registered more names from `floor` on. The names of `inner` were registered
since then. -/
structure RunsAhead (floor : Nat) (inner : List Name) (ahead behind : Numbering Name) : Prop where
  later : behind.next < ahead.next
  above : floor ≤ behind.next
  bounded : behind.Bounded
  outside : ∀ {name index}, name ∉ inner → ahead.lookup name = some index →
    behind.lookup name = some index ∧ index < floor
  inside : ∀ {name index}, name ∈ inner → ahead.lookup name = some index →
    floor ≤ index ∧ ∀ {other}, behind.lookup name = some other → other < index

section RunsAhead

variable {inner : List Name}

section

variable (runs : RunsAhead floor inner ahead behind)

include runs

/-- Exactly the names from before have the same number in both. -/
theorem RunsAhead.lookup_eq_iff (found : ahead.lookup name = some index) :
    behind.lookup name = some index ↔ name ∉ inner := by
  constructor
  · intro same member
    exact absurd ((runs.inside member found).2 same) (Nat.lt_irrefl _)
  · intro absent
    exact (runs.outside absent found).1

theorem RunsAhead.register (name : Name) :
    RunsAhead floor (name :: inner) (ahead.register name) (behind.register name) := by
  refine ⟨Nat.succ_lt_succ runs.later, Nat.le_succ_of_le runs.above, runs.bounded.register,
    fun {other index} absent found => ?_, fun {other index} member found => ?_⟩
  · rw [List.mem_cons, not_or] at absent
    rw [lookup_register, if_neg absent.1] at found ⊢
    exact runs.outside absent.2 found
  · rw [lookup_register] at found
    by_cases same : other = name
    · rw [if_pos same] at found
      cases found
      refine ⟨Nat.le_trans runs.above (Nat.le_of_lt runs.later), fun {position} is => ?_⟩
      rw [lookup_register, if_pos same] at is
      cases is
      exact runs.later
    · rw [if_neg same] at found
      rcases runs.inside ((List.mem_cons.mp member).resolve_left same) found with ⟨high, lower⟩
      refine ⟨high, fun {position} is => lower ?_⟩
      rw [lookup_register, if_neg same] at is
      exact is

/-- What has been registered since, with `names` in front. -/
theorem RunsAhead.registerAll (names : List Name) :
    RunsAhead floor (names.reverse ++ inner) (ahead.registerAll names)
      (behind.registerAll names) := by
  induction names generalizing inner ahead behind with
  | nil => exact runs
  | cons name _ induction =>
    rw [List.reverse_cons, List.append_assoc]
    exact induction (runs.register name)

theorem RunsAhead.congr {same : List Name} (iff : ∀ name, name ∈ same ↔ name ∈ inner) :
    RunsAhead floor same ahead behind :=
  ⟨runs.later, runs.above, runs.bounded,
    fun absent found => runs.outside (fun member => absent ((iff _).mpr member)) found,
    fun member found => runs.inside ((iff _).mp member) found⟩

theorem RunsAhead.rollback {high low : Nat} (later : low < high) (above : floor ≤ low) :
    RunsAhead floor inner (ahead.rollback high) (behind.rollback low) := by
  refine ⟨later, above, bounded_rollback low, fun absent found => ?_, fun member found => ?_⟩
  · rcases runs.outside absent (lookup_rollback.mp found).1 with ⟨is, below⟩
    exact ⟨lookup_rollback.mpr ⟨is, Nat.lt_of_lt_of_le below above⟩, below⟩
  · rcases runs.inside member (lookup_rollback.mp found).1 with ⟨reaches, lower⟩
    exact ⟨reaches, fun is => lower (lookup_rollback.mp is).1⟩

end

variable {shrunk : Numbering Name}

/-- The one that runs ahead may close scopes of its own. -/
theorem RunsAhead.within (runs : RunsAhead floor inner ahead behind)
    (within : Within shrunk ahead) : RunsAhead floor inner shrunk behind :=
  ⟨within.next ▸ runs.later, runs.above, runs.bounded,
    fun absent found => runs.outside absent (within.found found),
    fun member found => runs.inside member (within.found found)⟩

theorem RunsAhead.advance (runs : RunsAhead floor inner ahead behind) (names : List Name) :
    RunsAhead floor (names ++ inner) (ahead.registerAll names) behind := by
  have next := next_registerAll ahead names
  refine ⟨?_, runs.above, runs.bounded, fun {name index} absent found => ?_,
    fun {name index} member found => ?_⟩
  · have later := runs.later
    omega
  · rw [List.mem_append, not_or] at absent
    rw [lookup_registerAll_of_not_mem absent.1] at found
    exact runs.outside absent.2 found
  · by_cases new : name ∈ names
    · rcases lookup_registerAll_of_mem new with ⟨offset, registers⟩
      rw [registers] at found
      cases found
      have later := runs.later
      have above := runs.above
      refine ⟨by omega, fun {other} is => ?_⟩
      have bound := runs.bounded is
      omega
    · rw [lookup_registerAll_of_not_mem new] at found
      exact runs.inside ((List.mem_append.mp member).resolve_left new) found

variable {names : List Name}

/-- The names that were registered ahead are registered behind. -/
theorem RunsAhead.catchUp {start : Numbering Name} (runs : RunsAhead floor inner shrunk behind)
    (within : Within shrunk (start.registerAll names)) (later : behind.next < start.next)
    (covers : ∀ name ∈ names, name ∈ inner) :
    RunsAhead floor inner shrunk (behind.registerAll names) := by
  have next := next_registerAll behind names
  have total := next_registerAll start names
  have above := runs.above
  have whole := within.next
  refine ⟨by omega, by omega, runs.bounded.registerAll names, fun {name index} absent found => ?_,
    fun {name index} member found => ?_⟩
  · have new : name ∉ names := fun member => absent (covers name member)
    rw [lookup_registerAll_of_not_mem new]
    exact runs.outside absent found
  · refine ⟨(runs.inside member found).1, fun {other} is => ?_⟩
    by_cases new : name ∈ names
    · rcases lookup_registerAll_of_mem new with ⟨offset, registers⟩
      have isStart := within.found found
      rw [registers] at isStart is
      cases isStart
      cases is
      omega
    · rw [lookup_registerAll_of_not_mem new] at is
      exact (runs.inside member found).2 is

/-! ## Meeting again -/

section

variable (same : Matches ahead behind)

include same

theorem Matches.registerAll (names : List Name) :
    Matches (ahead.registerAll names) (behind.registerAll names) := by
  refine ⟨?_, fun {name index} found => ?_, same.bounded.registerAll names⟩
  · rw [next_registerAll, next_registerAll, same.next]
  · by_cases new : name ∈ names
    · rcases lookup_registerAll_of_mem new with ⟨_, registers⟩
      rw [registers] at found ⊢
      rw [same.next, found]
    · rw [lookup_registerAll_of_not_mem new] at found ⊢
      exact same.found found

theorem Matches.rollback (saved : Nat) :
    Matches (ahead.rollback saved) (behind.rollback saved) := by
  refine ⟨rfl, fun found => ?_, bounded_rollback saved⟩
  rcases lookup_rollback.mp found with ⟨is, below⟩
  exact lookup_rollback.mpr ⟨same.found is, below⟩

theorem Matches.within (within : Within shrunk ahead) : Matches shrunk behind :=
  ⟨same.next.trans within.next.symm, fun found => same.found (within.found found), same.bounded⟩

theorem Matches.bounded_ahead : ahead.Bounded :=
  fun _ _ found => same.next ▸ same.bounded (same.found found)

/-- One of two matching numberings registers a few names. -/
theorem Matches.advance (some : names ≠ []) :
    RunsAhead behind.next names (ahead.registerAll names) behind := by
  have next := next_registerAll ahead names
  have positive := List.length_pos_iff.mpr some
  have equal := same.next
  refine ⟨by omega, Nat.le_refl _, same.bounded, fun {name index} absent found => ?_,
    fun {name index} member found => ?_⟩
  · rw [lookup_registerAll_of_not_mem absent] at found
    exact ⟨same.found found, same.bounded (same.found found)⟩
  · rcases lookup_registerAll_of_mem member with ⟨offset, registers⟩
    rw [registers] at found
    cases found
    refine ⟨by omega, fun {other} is => ?_⟩
    have bound := same.bounded is
    omega

end

theorem RunsAhead.meet {start : Numbering Name} (runs : RunsAhead start.next inner shrunk behind)
    (within : Within shrunk (start.registerAll names)) (bounded : start.Bounded)
    (next : behind.next = start.next) : Matches shrunk (behind.registerAll names) := by
  have total := next_registerAll start names
  have whole := within.next
  refine ⟨?_, fun {name index} found => ?_, runs.bounded.registerAll names⟩
  · rw [next_registerAll, next, whole, total]
  · have isStart := within.found found
    by_cases new : name ∈ names
    · rcases lookup_registerAll_of_mem new with ⟨_, registers⟩
      rw [registers] at isStart ⊢
      rw [next, isStart]
    · rw [lookup_registerAll_of_not_mem new] at isStart ⊢
      by_cases member : name ∈ inner
      · exact absurd (bounded isStart) (Nat.not_lt.mpr (runs.inside member found).1)
      · exact (runs.outside member found).1

end RunsAhead

end Numbering

end CuTile
