import CuTile.Foundation.Interleaving
import Mathlib.Tactic.Simps.Basic

/-! # Evictions from the kernel cache

The kernel cache, the launch sites and the plan caches that index it, and the epoch that
tells them of evictions. A function is known by the number of the slot it was compiled
into. Every call runs step by step between those of the others: loads and updates of the
epoch, operations on the map, and what happens under the lock of a site or plan store.

The locks of the two registries are left out, so a site may register while an eviction is
emptying the others; readers take no lock either and see the entries at the moment they
look them up. Both only add interleavings.
-/

namespace CuTile

inductive StoreKind where
  | site
  | plan
deriving DecidableEq, Repr

structure StoreId where
  kind : StoreKind
  index : Nat
deriving DecidableEq, Repr

/-- A resolved launch or plan: what is asked for, and the function with the epoch that was
read before it was resolved. -/
structure SiteResolution (Probe : Type*) where
  epoch : Nat
  probe : Probe
  function : Nat
deriving DecidableEq, Repr

/-- How requests and stored probes of one kind of store compare. -/
structure ProbeRules (Probe : Type*) where
  hash : Probe → Nat
  serves : Probe → Probe → Bool
  same : Probe → Probe → Bool

/-- `SiteEntries` and `PlanMap`. -/
structure StoreEntries (Probe : Type*) where
  newest : Option (SiteResolution Probe)
  byHash : Nat → List (SiteResolution Probe)

def swapRemove {Item : Type*} (items : List Item) (position : Nat) : List Item :=
  match items.getLast? with
  | none => items
  | some last => (items.set position last).dropLast

namespace StoreEntries

variable {Probe : Type*} (rules : ProbeRules Probe)

def empty : StoreEntries Probe :=
  ⟨none, fun _ => []⟩

/-- `LaunchSite::get` and `PlanCache::get` after the epoch is loaded. -/
def get (entries : StoreEntries Probe) (epoch : Nat) (request : Probe) :
    Option (SiteResolution Probe) :=
  let serves := fun resolution : SiteResolution Probe =>
    resolution.epoch == epoch && rules.serves request resolution.probe
  match entries.newest.filter serves with
  | some resolution => some resolution
  | none => (entries.byHash (rules.hash request)).find? serves

/-- `LaunchSite::store` replaces a resolution of the same probe. -/
def store (entries : StoreEntries Probe) (resolution : SiteResolution Probe) : StoreEntries Probe :=
  let hash := rules.hash resolution.probe
  let bucket := entries.byHash hash
  let others := match bucket.findIdx? fun other => rules.same other.probe resolution.probe with
    | some position => swapRemove bucket position
    | none => bucket
  ⟨some resolution, Function.update entries.byHash hash (others ++ [resolution])⟩

/-- `PlanCache::insert` keeps a plan of the same epoch and layout. -/
def insert (entries : StoreEntries Probe) (resolution : SiteResolution Probe) :
    StoreEntries Probe :=
  let hash := rules.hash resolution.probe
  let bucket := entries.byHash hash
  if bucket.any fun other =>
      other.epoch == resolution.epoch && rules.same other.probe resolution.probe then entries
  else ⟨some resolution, Function.update entries.byHash hash (bucket ++ [resolution])⟩

def add (kind : StoreKind) (entries : StoreEntries Probe) (resolution : SiteResolution Probe) :
    StoreEntries Probe :=
  match kind with
  | .site => entries.store rules resolution
  | .plan => entries.insert rules resolution

def Contains (entries : StoreEntries Probe) (resolution : SiteResolution Probe) : Prop :=
  entries.newest = some resolution ∨ ∃ hash, resolution ∈ entries.byHash hash

variable {rules} {entries : StoreEntries Probe} {resolution other : SiteResolution Probe}

theorem not_contains_empty : ¬ (empty : StoreEntries Probe).Contains resolution := by
  simp [Contains, empty]

theorem mem_of_mem_swapRemove {Item : Type*} {items : List Item} {position : Nat} {item : Item}
    (member : item ∈ swapRemove items position) : item ∈ items := by
  unfold swapRemove at member
  split at member
  · exact member
  · rename_i last isLast
    rcases List.mem_or_eq_of_mem_set ((List.dropLast_subset _ member)) with before | rfl
    · exact before
    · exact List.mem_of_getLast? isLast

theorem contains_of_update {hash : Nat} {bucket : List (SiteResolution Probe)}
    (items : ∀ item ∈ bucket, item ∈ entries.byHash hash ∨ item = resolution)
    (contains : Contains ⟨some resolution, Function.update entries.byHash hash bucket⟩ other) :
    entries.Contains other ∨ other = resolution := by
  rcases contains with newest | ⟨place, member⟩
  · exact .inr (Option.some_inj.mp newest).symm
  · rcases update_cases (other ∈ ·) member with ⟨-, now⟩ | ⟨-, before⟩
    · exact (items other now).imp_left fun before => .inr ⟨hash, before⟩
    · exact .inl (.inr ⟨place, before⟩)

theorem contains_of_add {kind : StoreKind}
    (contains : (entries.add rules kind resolution).Contains other) :
    entries.Contains other ∨ other = resolution := by
  cases kind with
  | site =>
    refine contains_of_update (fun item member => ?_) contains
    rcases List.mem_append.mp member with before | last
    · refine .inl ?_
      split at before
      · exact mem_of_mem_swapRemove before
      · exact before
    · exact .inr (List.mem_singleton.mp last)
  | plan =>
    unfold add insert at contains
    dsimp only at contains
    split at contains
    · exact .inl contains
    · refine contains_of_update (fun item member => ?_) contains
      rcases List.mem_append.mp member with before | last
      · exact .inl before
      · exact .inr (List.mem_singleton.mp last)

theorem contains_of_get {epoch : Nat} {request : Probe}
    (found : entries.get rules epoch request = some resolution) :
    entries.Contains resolution ∧ resolution.epoch = epoch := by
  unfold get at found
  dsimp only at found
  split at found
  · rename_i isNewest
    cases found
    rw [Option.filter_eq_some_iff, Bool.and_eq_true, beq_iff_eq] at isNewest
    exact ⟨.inl isNewest.1, isNewest.2.1⟩
  · have serves := List.find?_some found
    rw [Bool.and_eq_true, beq_iff_eq] at serves
    exact ⟨.inr ⟨_, List.mem_of_find?_eq_some found⟩, serves.1⟩

end StoreEntries

/-- Where a call stands. A launch reads the epoch, looks into its site, and on a miss takes a
slot of the cache; what it has resolved it may store anywhere. An eviction removes entries,
bumps the epoch and empties the stores. -/
inductive CallStage (Probe : Type*) where
  | idle
  | stamped (epoch : Nat)
  /-- In `get`, with the epoch loaded there. -/
  | probing (epoch : Nat) (store : StoreId) (request : Probe) (loaded : Nat)
  | holding (epoch slot : Nat)
  | resolved (epoch function : Nat)
  | storing (store : StoreId) (resolution : SiteResolution Probe)
  /-- The store was not registered when the call looked. -/
  | registering (store : StoreId) (resolution : SiteResolution Probe)
  | listed (store : StoreId) (resolution : SiteResolution Probe)
  | registered (store : StoreId) (resolution : SiteResolution Probe)
  | locked (store : StoreId) (resolution : SiteResolution Probe)
  /-- The epoch was current when the call checked it under the lock. -/
  | checked (store : StoreId) (resolution : SiteResolution Probe)
  | evicting (removed : List Nat)
  | bumped (removed : List Nat)
  | clearing (removed : List Nat) (kind : StoreKind) (remaining : List StoreId)
  | evicted (removed : List Nat)

/-- `flagged` is a site's `registered` flag and a plan cache's initialised cell; `registry`
is `LAUNCH_SITES` and `PLAN_STORES`, of which the latter may name dropped stores. -/
structure EvictionSystem (Key Probe : Type*) where
  map : Key → Option Nat
  nextSlot : Nat
  epoch : Nat
  entries : StoreId → StoreEntries Probe
  writer : StoreId → Option Nat
  flagged : StoreId → Bool
  registry : StoreKind → List StoreId
  alive : StoreId → Bool
  calls : Nat → CallStage Probe

inductive EvictionAction (Key Probe : Type*) where
  | readEpoch (call : Nat)
  | loadEpoch (call : Nat) (store : StoreId) (request : Probe)
  | find (call : Nat)
  | takeSlot (call : Nat) (key : Key)
  | compiled (call : Nat)
  /-- `remove_if` after a failed compilation. -/
  | discard (key : Key)
  | beginStore (call : Nat) (store : StoreId) (probe : Probe)
  | readFlag (call : Nat)
  | push (call : Nat)
  | setFlag (call : Nat)
  | lock (call : Nat)
  | checkEpoch (call : Nat)
  | add (call : Nat)
  | dropStore (index : Nat)
  | beginEviction (call : Nat)
  | remove (call : Nat) (key : Key)
  | bump (call : Nat)
  /-- An eviction that removed nothing returns at once. -/
  | skip (call : Nat)
  | openRegistry (call : Nat)
  | clear (call : Nat)

namespace EvictionSystem

variable {Key Probe : Type*} [DecidableEq Key]

def new : EvictionSystem Key Probe where
  map := fun _ => none
  nextSlot := 0
  epoch := 0
  entries := fun _ => .empty
  writer := fun _ => none
  flagged := fun _ => false
  registry := fun _ => []
  alive := fun _ => true
  calls := fun _ => .idle

@[simps]
def setCall (system : EvictionSystem Key Probe) (call : Nat) (stage : CallStage Probe) :
    EvictionSystem Key Probe :=
  { system with calls := Function.update system.calls call stage }

@[simps]
def setEntries (system : EvictionSystem Key Probe) (store : StoreId)
    (entries : StoreEntries Probe) : EvictionSystem Key Probe :=
  { system with entries := Function.update system.entries store entries }

@[simps]
def setWriter (system : EvictionSystem Key Probe) (store : StoreId) (writer : Option Nat) :
    EvictionSystem Key Probe :=
  { system with writer := Function.update system.writer store writer }

@[simps]
def setMap (system : EvictionSystem Key Probe) (key : Key) (slot : Option Nat) :
    EvictionSystem Key Probe :=
  { system with map := Function.update system.map key slot }

/-- The stores an eviction finds in a registry. -/
def live (system : EvictionSystem Key Probe) (kind : StoreKind) : List StoreId :=
  (system.registry kind).filter system.alive

/-- Registering also prunes the stores that are gone. -/
def register (system : EvictionSystem Key Probe) (store : StoreId) : EvictionSystem Key Probe :=
  { system with
    registry :=
      if system.flagged store then system.registry
      else Function.update system.registry store.kind (system.live store.kind ++ [store]) }

/-- A `Function` of the map, or of a new slot. -/
def takeSlot (system : EvictionSystem Key Probe) (key : Key) : Nat × EvictionSystem Key Probe :=
  match system.map key with
  | some slot => (slot, system)
  | none => (system.nextSlot,
      { (system.setMap key (some system.nextSlot)) with nextSlot := system.nextSlot + 1 })

def step (rules : StoreKind → ProbeRules Probe) (system : EvictionSystem Key Probe) :
    EvictionAction Key Probe → Option (EvictionSystem Key Probe)
  | .readEpoch call =>
    match system.calls call with
    | .idle => some (system.setCall call (.stamped system.epoch))
    | _ => none
  | .loadEpoch call store request =>
    match system.calls call with
    | .stamped epoch => some (system.setCall call (.probing epoch store request system.epoch))
    | _ => none
  | .find call =>
    match system.calls call with
    | .probing epoch store request loaded =>
      match (system.entries store).get (rules store.kind) loaded request with
      | some hit => some (system.setCall call (.resolved epoch hit.function))
      | none => some (system.setCall call (.stamped epoch))
    | _ => none
  | .takeSlot call key =>
    match system.calls call with
    | .stamped epoch =>
      let (slot, taken) := system.takeSlot key
      some (taken.setCall call (.holding epoch slot))
    | _ => none
  | .compiled call =>
    match system.calls call with
    | .holding epoch slot => some (system.setCall call (.resolved epoch slot))
    | _ => none
  | .discard key => some (system.setMap key none)
  | .beginStore call store probe =>
    match system.calls call with
    | .resolved epoch function =>
      some (system.setCall call (.storing store ⟨epoch, probe, function⟩))
    | _ => none
  | .readFlag call =>
    match system.calls call with
    | .storing store resolution =>
      if system.flagged store then some (system.setCall call (.registered store resolution))
      else some (system.setCall call (.registering store resolution))
    | _ => none
  | .push call =>
    match system.calls call with
    | .registering store resolution =>
      some ((system.register store).setCall call (.listed store resolution))
    | _ => none
  | .setFlag call =>
    match system.calls call with
    | .listed store resolution =>
      some { (system.setCall call (.registered store resolution)) with
        flagged := Function.update system.flagged store true }
    | _ => none
  | .lock call =>
    match system.calls call with
    | .registered store resolution =>
      if system.writer store = none ∧ system.alive store = true then
        some ((system.setWriter store (some call)).setCall call (.locked store resolution))
      else none
    | _ => none
  | .checkEpoch call =>
    match system.calls call with
    | .locked store resolution =>
      if resolution.epoch = system.epoch then
        some (system.setCall call (.checked store resolution))
      else
        some ((system.setWriter store none).setCall call
          (.resolved resolution.epoch resolution.function))
    | _ => none
  | .add call =>
    match system.calls call with
    | .checked store resolution =>
      let entries := (system.entries store).add (rules store.kind) store.kind resolution
      some (((system.setEntries store entries).setWriter store none).setCall call
        (.resolved resolution.epoch resolution.function))
    | _ => none
  | .dropStore index =>
    if system.writer ⟨.plan, index⟩ = none then
      some { (system.setEntries ⟨.plan, index⟩ .empty) with
        alive := Function.update system.alive ⟨.plan, index⟩ false }
    else none
  | .beginEviction call =>
    match system.calls call with
    | .idle => some (system.setCall call (.evicting []))
    | _ => none
  | .remove call key =>
    match system.calls call with
    | .evicting removed =>
      match system.map key with
      | some slot => some ((system.setMap key none).setCall call (.evicting (slot :: removed)))
      | none => some system
    | _ => none
  | .bump call =>
    match system.calls call with
    | .evicting removed =>
      some { (system.setCall call (.bumped removed)) with epoch := system.epoch + 1 }
    | _ => none
  | .skip call =>
    match system.calls call with
    | .evicting [] => some (system.setCall call (.evicted []))
    | _ => none
  | .openRegistry call =>
    match system.calls call with
    | .bumped removed =>
      some (system.setCall call (.clearing removed .site (system.live .site)))
    | .clearing removed .site [] =>
      some (system.setCall call (.clearing removed .plan (system.live .plan)))
    | .clearing removed .plan [] => some (system.setCall call (.evicted removed))
    | _ => none
  | .clear call =>
    match system.calls call with
    | .clearing removed kind (store :: remaining) =>
      if system.writer store = none then
        some ((system.setEntries store .empty).setCall call (.clearing removed kind remaining))
      else none
    | _ => none

end EvictionSystem

end CuTile
