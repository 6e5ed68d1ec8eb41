import CuTile.Foundation.Interleaving
import CuTile.Launch.Plan

/-! # The plan cache

A cache keeps the plans of one kernel. A plan is stored under a hash of its device, its
options and the value-independent part of its layouts, and is served only where its whole
layout matches. Colliding keys and scalar hints therefore cost a comparison, and neither
loses a plan nor serves a wrong one.

The epoch is read under the lock of the map, so that an insertion and a lookup are each one
step at the moment of that read. An eviction is two: it bumps the epoch and empties the map
later.
-/

namespace CuTile

open List

/-- A plan together with what it was resolved under. The plans of one cache are those of one
kernel, with the kernel's number of parameters. -/
structure CachedPlan (Options : Type) (arity : Nat) extends PlanInner where
  epoch : Nat
  options : Options
  complete : params.length = arity

structure PlanLookup (Options : Type) (arity : Nat) where
  deviceId : Nat
  options : Options
  args : { args : List PlanArg // args.length = arity }

structure PlanMap (Options : Type) (arity : Nat) where
  newest : Option (CachedPlan Options arity)
  byKey : UInt64 → List (CachedPlan Options arity)

structure PlanCache (Options : Type) (arity : Nat) where
  epoch : Nat
  plans : PlanMap Options arity
  /-- Every plan handed to `insert` since the map was last emptied. -/
  inserted : List (CachedPlan Options arity)

inductive PlanCacheAction (Options : Type) (arity : Nat) where
  | insert (plan : CachedPlan Options arity)
  | clear
  | bumpEpoch
  | clearPlanCaches

section Cache

variable {Options : Type} [DecidableEq Options] {arity : Nat}

namespace CachedPlan

def layouts (plan : CachedPlan Options arity) : List ArgLayout := plan.params.map PlanParam.layout

/-- The plan is the one to launch for the lookup. -/
structure Serves (plan : CachedPlan Options arity) (epoch : Nat)
    (lookup : PlanLookup Options arity) : Prop where
  epoch : plan.epoch = epoch
  deviceId : plan.deviceId = lookup.deviceId
  options : plan.options = lookup.options
  layouts : List.Forall₂ (fun arg layout => argMatches arg layout) lookup.args.val plan.layouts

def serves (epoch : Nat) (lookup : PlanLookup Options arity)
    (plan : CachedPlan Options arity) : Bool :=
  plan.epoch = epoch && plan.deviceId = lookup.deviceId && plan.options = lookup.options &&
    plan.matchesArgs ⟨lookup.args.val, lookup.args.property.trans plan.complete.symm⟩

def sameEntry (plan other : CachedPlan Options arity) : Bool :=
  plan.epoch = other.epoch && plan.deviceId = other.deviceId && plan.options = other.options &&
    plan.params.length = other.params.length &&
      (plan.params.zip other.params).all fun entry => entry.1.layout = entry.2.layout

def cacheKey (hash : Nat → Options → List LayoutKey → UInt64)
    (plan : CachedPlan Options arity) : UInt64 :=
  hash plan.deviceId plan.options (plan.params.map fun param => param.layout.key)

end CachedPlan

variable (hash : Nat → Options → List LayoutKey → UInt64)

def argsKey (lookup : PlanLookup Options arity) : UInt64 :=
  hash lookup.deviceId lookup.options (lookup.args.val.map PlanArg.layoutKey)

namespace PlanMap

def empty : PlanMap Options arity := ⟨none, fun _ => []⟩

def get (plans : PlanMap Options arity) (epoch : Nat) (lookup : PlanLookup Options arity) :
    Option (CachedPlan Options arity) :=
  match plans.newest.filter (CachedPlan.serves epoch lookup) with
  | some plan => some plan
  | none => (plans.byKey (argsKey hash lookup)).find? (CachedPlan.serves epoch lookup)

def insert (plans : PlanMap Options arity) (epoch : Nat) (plan : CachedPlan Options arity) :
    PlanMap Options arity :=
  let key := plan.cacheKey hash
  if plan.epoch = epoch ∧ ¬(plans.byKey key).any fun stored => stored.sameEntry plan then
    ⟨some plan, Function.update plans.byKey key (plans.byKey key ++ [plan])⟩
  else plans

end PlanMap

namespace PlanCache

def new (epoch : Nat) : PlanCache Options arity := ⟨epoch, .empty, []⟩

/-- An epoch is only ever read from the current one, so no plan has a later epoch. -/
def step (cache : PlanCache Options arity) :
    PlanCacheAction Options arity → Option (PlanCache Options arity)
  | .insert plan =>
    if plan.epoch ≤ cache.epoch then
      some { cache with
        plans := cache.plans.insert hash cache.epoch plan
        inserted := plan :: cache.inserted }
    else none
  | .clear | .clearPlanCaches => some { cache with plans := .empty, inserted := [] }
  | .bumpEpoch => some { cache with epoch := cache.epoch + 1 }

def get (cache : PlanCache Options arity) (lookup : PlanLookup Options arity) :
    Option (CachedPlan Options arity) :=
  cache.plans.get hash cache.epoch lookup

end PlanCache

/-! ## Keys and layouts -/

namespace CachedPlan

variable {hash} {plan other : CachedPlan Options arity} {epoch : Nat}
  {lookup : PlanLookup Options arity}

theorem serves_iff : plan.serves epoch lookup ↔ plan.Serves epoch lookup := by
  have sameLength := lookup.args.property.trans plan.complete.symm
  have fits : plan.matchesArgs ⟨lookup.args.val, sameLength⟩ ↔
      Forall₂ (fun arg layout => argMatches arg layout) lookup.args.val plan.layouts := by
    rw [layouts, forall₂_map_right_iff, forall₂_iff_zip]
    exact all_eq_true.trans
      ⟨fun all => ⟨sameLength, fun member => all _ member⟩, fun all entry => all.2⟩
  simp only [serves, Bool.and_eq_true, decide_eq_true_eq, fits]
  exact ⟨fun ⟨⟨⟨sameEpoch, device⟩, options⟩, layouts⟩ => ⟨sameEpoch, device, options, layouts⟩,
    fun serves => ⟨⟨⟨serves.epoch, serves.deviceId⟩, serves.options⟩, serves.layouts⟩⟩

omit [DecidableEq Options] in
/-- The key leaves out what a scalar's value decides, so that a lookup computes the key of
every plan that could serve it. -/
theorem cacheKey_eq_argsKey (device : plan.deviceId = lookup.deviceId)
    (options : plan.options = lookup.options)
    (fits : Forall₂ (fun arg layout => argMatches arg layout) lookup.args.val plan.layouts) :
    plan.cacheKey hash = argsKey hash lookup := by
  have keys : lookup.args.val.map PlanArg.layoutKey = plan.layouts.map ArgLayout.key := by
    rw [← forall₂_eq_eq_eq, forall₂_map_left_iff, forall₂_map_right_iff]
    exact fits.imp fun _ _ => Fits.key_eq
  rw [argsKey, keys, ← device, ← options, layouts, map_map]
  rfl

theorem Serves.of_sameEntry (serves : plan.Serves epoch lookup) (same : other.sameEntry plan) :
    other.Serves epoch lookup := by
  simp only [sameEntry, Bool.and_eq_true, decide_eq_true_eq, all_eq_true] at same
  rcases same with ⟨⟨⟨⟨sameEpoch, device⟩, options⟩, length⟩, each⟩
  have sameLayouts : other.layouts = plan.layouts := by
    rw [CachedPlan.layouts, CachedPlan.layouts, ← forall₂_eq_eq_eq, forall₂_map_left_iff,
      forall₂_map_right_iff, forall₂_iff_zip]
    exact ⟨length, fun member => each _ member⟩
  exact ⟨sameEpoch.trans serves.epoch, device.trans serves.deviceId,
    options.trans serves.options, sameLayouts ▸ serves.layouts⟩

theorem sameEntry_self (plan : CachedPlan Options arity) : plan.sameEntry plan := by
  have layouts : Forall₂ (fun param other => param.layout = other.layout)
      plan.params plan.params := forall₂_same.mpr fun _ _ => rfl
  simp only [sameEntry, decide_true, Bool.true_and, all_eq_true, decide_eq_true_eq]
  exact fun entry => (forall₂_iff_zip.mp layouts).2

end CachedPlan

omit [DecidableEq Options] in
theorem PlanMap.mem_push {byKey : UInt64 → List (CachedPlan Options arity)} {key bucket : UInt64}
    {plan stored : CachedPlan Options arity} :
    stored ∈ Function.update byKey key (byKey key ++ [plan]) bucket ↔
      stored ∈ byKey bucket ∨ bucket = key ∧ stored = plan := by
  by_cases same : bucket = key
  · rw [same, Function.update_self, mem_append, mem_singleton, eq_self, true_and]
  · rw [Function.update_of_ne same, or_iff_left fun both => same both.1]

/-! ## Every history -/

namespace PlanCache

/-- What every history keeps. A plan that `insert` did not store, as another one was stored
for the same entry, is represented by that one. -/
structure Consistent (cache : PlanCache Options arity) : Prop where
  newest : ∀ plan ∈ cache.plans.newest, plan ∈ cache.inserted
  stored : ∀ key, ∀ plan ∈ cache.plans.byKey key, plan ∈ cache.inserted
  past : ∀ plan ∈ cache.inserted, plan.epoch ≤ cache.epoch
  represented : ∀ plan ∈ cache.inserted, plan.epoch = cache.epoch →
    ∃ kept ∈ cache.plans.byKey (plan.cacheKey hash), kept.sameEntry plan

variable {hash} {cache after : PlanCache Options arity}

theorem consistent_empty (epoch : Nat) :
    Consistent hash (⟨epoch, .empty, []⟩ : PlanCache Options arity) where
  newest := nofun
  stored := nofun
  past := nofun
  represented := nofun

variable {plan : CachedPlan Options arity}

theorem Consistent.insert (before : Consistent hash cache) (past : plan.epoch ≤ cache.epoch) :
    Consistent hash { cache with
      plans := cache.plans.insert hash cache.epoch plan
      inserted := plan :: cache.inserted } := by
  have allPast : ∀ other ∈ plan :: cache.inserted, other.epoch ≤ cache.epoch :=
    forall_mem_cons.mpr ⟨past, before.past⟩
  by_cases keep : plan.epoch = cache.epoch ∧
      ¬(cache.plans.byKey (plan.cacheKey hash)).any fun stored => stored.sameEntry plan
  · simp only [PlanMap.insert, if_pos keep]
    refine ⟨fun other isNewest => ?_, fun key other member => ?_, allPast,
      forall_mem_cons.mpr ⟨fun _ => ?_, fun other member current => ?_⟩⟩
    · cases isNewest
      exact mem_cons_self
    · rcases PlanMap.mem_push.mp member with member | ⟨-, isPlan⟩
      · exact mem_cons_of_mem _ (before.stored key other member)
      · exact isPlan ▸ mem_cons_self
    · exact ⟨plan, PlanMap.mem_push.mpr (.inr ⟨rfl, rfl⟩), plan.sameEntry_self⟩
    · rcases before.represented other member current with ⟨kept, isKept, same⟩
      exact ⟨kept, PlanMap.mem_push.mpr (.inl isKept), same⟩
  · simp only [PlanMap.insert, if_neg keep]
    refine ⟨fun other isNewest => mem_cons_of_mem _ (before.newest other isNewest),
      fun key other member => mem_cons_of_mem _ (before.stored key other member), allPast,
      forall_mem_cons.mpr ⟨fun current => ?_, before.represented⟩⟩
    -- A current plan is turned away only where its entry is taken.
    rw [not_and_not_right] at keep
    exact any_eq_true.mp (keep current)

theorem Consistent.step {action : PlanCacheAction Options arity} (before : Consistent hash cache)
    (steps : step hash cache action = some after) : Consistent hash after := by
  cases action with
  | insert =>
    rcases Option.ite_none_right_eq_some.mp steps with ⟨past, isAfter⟩
    cases isAfter
    exact before.insert past
  | clear | clearPlanCaches =>
    cases steps
    exact consistent_empty cache.epoch
  | bumpEpoch =>
    cases steps
    refine ⟨before.newest, before.stored,
      fun plan member => (before.past plan member).trans (Nat.le_succ _), ?_⟩
    -- No plan has the new epoch yet.
    intro plan member current
    exact absurd (current ▸ before.past plan member) (Nat.not_succ_le_self _)

theorem Consistent.serves_of_get (consistent : Consistent hash cache)
    {lookup : PlanLookup Options arity} (found : cache.get hash lookup = some plan) :
    plan ∈ cache.inserted ∧ plan.Serves cache.epoch lookup := by
  rw [get, PlanMap.get] at found
  split at found
  · rename_i isNewest
    cases found
    rcases Option.filter_eq_some_iff.mp isNewest with ⟨isNewest, serves⟩
    exact ⟨consistent.newest plan isNewest, CachedPlan.serves_iff.mp serves⟩
  · exact ⟨consistent.stored _ plan (mem_of_find?_eq_some found),
      CachedPlan.serves_iff.mp (find?_some found)⟩

theorem Consistent.get_isSome (consistent : Consistent hash cache)
    {lookup : PlanLookup Options arity} (inserted : plan ∈ cache.inserted)
    (serves : plan.Serves cache.epoch lookup) : (cache.get hash lookup).isSome := by
  rcases consistent.represented plan inserted serves.epoch with ⟨kept, stored, same⟩
  rw [CachedPlan.cacheKey_eq_argsKey serves.deviceId serves.options serves.layouts] at stored
  rw [get, PlanMap.get]
  split
  · rfl
  · rw [find?_isSome]
    exact ⟨kept, stored, CachedPlan.serves_iff.mpr (serves.of_sameEntry same)⟩

/-- After every history a lookup returns only plans that serve it, and returns one whenever
a plan that serves it was inserted since the map was last emptied. -/
theorem get_serves_exactly {start : Nat}
    (reached : Reachable (step hash) (new start) cache) (lookup : PlanLookup Options arity) :
    (∀ plan, cache.get hash lookup = some plan →
      plan ∈ cache.inserted ∧ plan.Serves cache.epoch lookup) ∧
    ((∃ plan ∈ cache.inserted, plan.Serves cache.epoch lookup) →
      ∃ plan, cache.get hash lookup = some plan ∧ plan.Serves cache.epoch lookup) ∧
    ∀ plan : CachedPlan Options arity, plan.deviceId = lookup.deviceId →
      plan.options = lookup.options →
      List.Forall₂ (fun arg layout => argMatches arg layout) lookup.args.val plan.layouts →
      plan.cacheKey hash = argsKey hash lookup := by
  have consistent : Consistent hash cache :=
    reached.invariant (consistent_empty start) Consistent.step
  refine ⟨fun plan => consistent.serves_of_get, ?_,
    fun plan device options fits => CachedPlan.cacheKey_eq_argsKey device options fits⟩
  intro ⟨plan, inserted, serves⟩
  rcases Option.isSome_iff_exists.mp (consistent.get_isSome inserted serves) with ⟨found, isFound⟩
  exact ⟨found, isFound, (consistent.serves_of_get isFound).2⟩

/-- A scalar of the recorded divisibility finds the plan under a hash that always collides. -/
theorem get_serves_exactly_scalar :
    let plan : CachedPlan Unit 1 :=
      ⟨⟨⟨(1, 1, 1), (1, 1, 1), 0⟩, 0, [0], [0], [⟨.scalar .i32 (some (DivHint.fromValue 24)), 0⟩]⟩,
        0, (), rfl⟩
    let lookup : PlanLookup Unit 1 := ⟨0, (), ⟨[.scalar ⟨.i32, 40#32⟩], rfl⟩⟩
    ∃ cache, execute (step fun _ _ _ => 0) (new 0) [.insert plan] = some cache ∧
      ∃ found, cache.get (fun _ _ _ => 0) lookup = some found ∧
        found.Serves cache.epoch lookup := by
  intro plan lookup
  have runs : execute (step fun _ _ _ => 0) (new 0) [.insert plan] =
      some ⟨0, ⟨some plan, Function.update (fun _ => []) 0 [plan]⟩, [plan]⟩ := rfl
  have serves : plan.Serves 0 lookup := ⟨rfl, rfl, rfl, .cons (by decide +kernel) .nil⟩
  exact ⟨_, runs, (get_serves_exactly ⟨_, runs⟩ lookup).2.1 ⟨plan, mem_cons_self, serves⟩⟩

end PlanCache

end Cache

end CuTile
