import CuTile.Launch.KernelEviction
import Mathlib.Tactic.SplitIfs

/-! # Evicted kernels are not served

An eviction's functions were resolved before the epochs that are current after its bump.
So what it clears away cannot be stored again, and a store that registers too late for the
clearing only takes current entries.
-/

namespace CuTile

open Function StoreEntries

namespace CallStage

variable {Probe : Type*}

/-- The function a call has in hand, with the epoch it goes by. -/
def pair : CallStage Probe → Option (Nat × Nat)
  | .holding epoch slot | .resolved epoch slot => some (epoch, slot)
  | .storing _ resolution | .registering _ resolution | .listed _ resolution
  | .registered _ resolution | .locked _ resolution | .checked _ resolution =>
    some (resolution.epoch, resolution.function)
  | _ => none

/-- The epochs a call has read and not used yet. -/
def Stamped (bound : Nat) : CallStage Probe → Prop
  | .stamped epoch => epoch ≤ bound
  | .probing epoch _ _ loaded => epoch ≤ loaded ∧ loaded ≤ bound
  | _ => True

variable {stage : CallStage Probe}

theorem Stamped.mono {bound larger : Nat} (stamped : stage.Stamped bound) (le : bound ≤ larger) :
    stage.Stamped larger := by
  cases stage with
  | stamped => exact Nat.le_trans stamped le
  | probing => exact ⟨stamped.1, Nat.le_trans stamped.2 le⟩
  | _ => trivial

/-- The store that a call knows to be registered. -/
def registeredAt : CallStage Probe → Option StoreId
  | .listed store _ | .registered store _ | .locked store _ | .checked store _ => some store
  | _ => none

def lockOf : CallStage Probe → Option StoreId
  | .locked store _ | .checked store _ => some store
  | _ => none

/-- What a call is about to add, having found it current. -/
def adding : CallStage Probe → Option (StoreId × SiteResolution Probe)
  | .checked store resolution => some (store, resolution)
  | _ => none

def removed : CallStage Probe → List Nat
  | .evicting removed | .bumped removed | .clearing removed _ _ | .evicted removed => removed
  | _ => []

/-- The slots an eviction had removed when it bumped the epoch. -/
def outdated : CallStage Probe → List Nat
  | .bumped removed | .clearing removed _ _ | .evicted removed => removed
  | _ => []

/-- The stores that an eviction need not clear any more. -/
def Cleared (store : StoreId) : CallStage Probe → Prop
  | .clearing _ .site remaining => store.kind = .site ∧ store ∉ remaining
  | .clearing _ .plan remaining => store.kind = .site ∨ store ∉ remaining
  | .evicted _ => True
  | _ => False

theorem removed_of_outdated {slot : Nat} (outdated : slot ∈ stage.outdated) :
    slot ∈ stage.removed := by
  cases stage with
  | bumped | clearing | evicted => exact outdated
  | _ => cases outdated

theorem registeredAt_of_lockOf {store : StoreId} (holds : stage.lockOf = some store) :
    stage.registeredAt = some store := by
  cases stage with
  | locked | checked => exact holds
  | _ => cases holds

theorem lockOf_of_adding {store : StoreId} {resolution : SiteResolution Probe}
    (adds : stage.adding = some (store, resolution)) : stage.lockOf = some store := by
  cases stage with
  | checked =>
    cases adds
    rfl
  | _ => cases adds

end CallStage

namespace EvictionSystem

variable {Key Probe : Type*} {rules : StoreKind → ProbeRules Probe}
  {system after : EvictionSystem Key Probe}

/-! ## What one step can do -/

section Moves

variable [DecidableEq Key]

/-- The transitions, with what each of them finds. -/
inductive Moves (rules : StoreKind → ProbeRules Probe) (system : EvictionSystem Key Probe) :
    EvictionSystem Key Probe → Prop
  | readEpoch {call} (stage : system.calls call = .idle) :
      Moves rules system (system.setCall call (.stamped system.epoch))
  | loadEpoch {call epoch store request} (stage : system.calls call = .stamped epoch) :
      Moves rules system (system.setCall call (.probing epoch store request system.epoch))
  | hit {call epoch store request loaded hit}
      (stage : system.calls call = .probing epoch store request loaded)
      (found : (system.entries store).get (rules store.kind) loaded request = some hit) :
      Moves rules system (system.setCall call (.resolved epoch hit.function))
  | miss {call epoch store request loaded}
      (stage : system.calls call = .probing epoch store request loaded) :
      Moves rules system (system.setCall call (.stamped epoch))
  | takeKnown {call epoch key slot} (stage : system.calls call = .stamped epoch)
      (present : system.map key = some slot) :
      Moves rules system (system.setCall call (.holding epoch slot))
  | takeNew {call epoch key} (stage : system.calls call = .stamped epoch)
      (absent : system.map key = none) :
      Moves rules system (setCall
        { system.setMap key (some system.nextSlot) with nextSlot := system.nextSlot + 1 }
        call (.holding epoch system.nextSlot))
  | compiled {call epoch slot} (stage : system.calls call = .holding epoch slot) :
      Moves rules system (system.setCall call (.resolved epoch slot))
  | discard {key} : Moves rules system (system.setMap key none)
  | beginStore {call epoch function store probe}
      (stage : system.calls call = .resolved epoch function) :
      Moves rules system (system.setCall call (.storing store ⟨epoch, probe, function⟩))
  | flagSeen {call store resolution} (stage : system.calls call = .storing store resolution)
      (flagged : system.flagged store = true) :
      Moves rules system (system.setCall call (.registered store resolution))
  | flagMissed {call store resolution}
      (stage : system.calls call = .storing store resolution) :
      Moves rules system (system.setCall call (.registering store resolution))
  | push {call store resolution} (stage : system.calls call = .registering store resolution) :
      Moves rules system ((system.register store).setCall call (.listed store resolution))
  | setFlag {call store resolution} (stage : system.calls call = .listed store resolution) :
      Moves rules system { system.setCall call (.registered store resolution) with
        flagged := Function.update system.flagged store true }
  | lock {call store resolution} (stage : system.calls call = .registered store resolution)
      (free : system.writer store = none) (alive : system.alive store = true) :
      Moves rules system
        ((system.setWriter store (some call)).setCall call (.locked store resolution))
  | confirm {call store resolution} (stage : system.calls call = .locked store resolution)
      (current : resolution.epoch = system.epoch) :
      Moves rules system (system.setCall call (.checked store resolution))
  | reject {call store resolution} (stage : system.calls call = .locked store resolution) :
      Moves rules system ((system.setWriter store none).setCall call
        (.resolved resolution.epoch resolution.function))
  | add {call store resolution} (stage : system.calls call = .checked store resolution) :
      Moves rules system (((system.setEntries store
        ((system.entries store).add (rules store.kind) store.kind resolution)).setWriter
          store none).setCall call (.resolved resolution.epoch resolution.function))
  | dropStore {store} (free : system.writer store = none) :
      Moves rules system { system.setEntries store .empty with
        alive := Function.update system.alive store false }
  | beginEviction {call} (stage : system.calls call = .idle) :
      Moves rules system (system.setCall call (.evicting []))
  | remove {call removed key slot} (stage : system.calls call = .evicting removed)
      (present : system.map key = some slot) :
      Moves rules system
        ((system.setMap key none).setCall call (.evicting (slot :: removed)))
  | stay : Moves rules system system
  | bump {call removed} (stage : system.calls call = .evicting removed) :
      Moves rules system
        { system.setCall call (.bumped removed) with epoch := system.epoch + 1 }
  | skip {call} (stage : system.calls call = .evicting []) :
      Moves rules system (system.setCall call (.evicted []))
  | openSites {call removed} (stage : system.calls call = .bumped removed) :
      Moves rules system (system.setCall call (.clearing removed .site (system.live .site)))
  | openPlans {call removed} (stage : system.calls call = .clearing removed .site []) :
      Moves rules system (system.setCall call (.clearing removed .plan (system.live .plan)))
  | finish {call removed} (stage : system.calls call = .clearing removed .plan []) :
      Moves rules system (system.setCall call (.evicted removed))
  | clear {call removed kind store remaining}
      (stage : system.calls call = .clearing removed kind (store :: remaining))
      (free : system.writer store = none) :
      Moves rules system
        ((system.setEntries store .empty).setCall call (.clearing removed kind remaining))

theorem moves_of_step {action : EvictionAction Key Probe}
    (taken : system.step rules action = some after) : Moves rules system after := by
  cases action <;> simp only [step] at taken
  case readEpoch call =>
    split at taken <;> cases taken
    exact .readEpoch ‹_›
  case loadEpoch call store request =>
    split at taken <;> cases taken
    exact .loadEpoch ‹_›
  case find call =>
    split at taken
    · split at taken <;> cases taken
      · exact .hit ‹_› ‹_›
      · exact .miss ‹_›
    · cases taken
  case takeSlot call key =>
    split at taken
    · rename_i epoch stage
      cases known : system.map key with
      | some slot =>
        simp only [takeSlot, known] at taken
        cases taken
        exact .takeKnown stage known
      | none =>
        simp only [takeSlot, known] at taken
        cases taken
        exact .takeNew stage known
    · cases taken
  case compiled call =>
    split at taken <;> cases taken
    exact .compiled ‹_›
  case discard key =>
    cases taken
    exact .discard
  case beginStore call store probe =>
    split at taken <;> cases taken
    exact .beginStore ‹_›
  case readFlag call =>
    split at taken
    · split_ifs at taken <;> cases taken
      · exact .flagSeen ‹_› ‹_›
      · exact .flagMissed ‹_›
    · cases taken
  case push call =>
    split at taken <;> cases taken
    exact .push ‹_›
  case setFlag call =>
    split at taken <;> cases taken
    exact .setFlag ‹_›
  case lock call =>
    split at taken
    · split_ifs at taken with enabled
      cases taken
      exact .lock ‹_› enabled.1 enabled.2
    · cases taken
  case checkEpoch call =>
    split at taken
    · split_ifs at taken <;> cases taken
      · exact .confirm ‹_› ‹_›
      · exact .reject ‹_›
    · cases taken
  case add call =>
    split at taken <;> cases taken
    exact .add ‹_›
  case dropStore index =>
    split_ifs at taken
    cases taken
    exact .dropStore ‹_›
  case beginEviction call =>
    split at taken <;> cases taken
    exact .beginEviction ‹_›
  case remove call key =>
    split at taken
    · split at taken <;> cases taken
      · exact .remove ‹_› ‹_›
      · exact .stay
    · cases taken
  case bump call =>
    split at taken <;> cases taken
    exact .bump ‹_›
  case skip call =>
    split at taken <;> cases taken
    exact .skip ‹_›
  case openRegistry call =>
    split at taken <;> cases taken
    · exact .openSites ‹_›
    · exact .openPlans ‹_›
    · exact .finish ‹_›
  case clear call =>
    split at taken
    · split_ifs at taken
      cases taken
      exact .clear ‹_› ‹_›
    · cases taken

end Moves

/-! ## What is known of a function -/

/-- A call has the function in hand or a store contains it, by this epoch. -/
def Knows (system : EvictionSystem Key Probe) (epoch function : Nat) : Prop :=
  (∃ call, (system.calls call).pair = some (epoch, function)) ∨
    ∃ store resolution, (system.entries store).Contains resolution ∧
      resolution.epoch = epoch ∧ resolution.function = function

def Available (system : EvictionSystem Key Probe) (function : Nat) : Prop :=
  (∃ key, system.map key = some function) ∨ function = system.nextSlot

variable {call : Nat} {stage : CallStage Probe}

theorem pair_update {calls : Nat → CallStage Probe} {other : Nat} {known : Nat × Nat}
    (has : (update calls call stage other).pair = some known) :
    (calls other).pair = some known ∨ stage.pair = some known :=
  (update_cases (CallStage.pair · = some known) has).symm.imp And.right And.right

theorem Knows.of_call {epoch function : Nat} (knows : after.Knows epoch function)
    (calls : after.calls = update system.calls call stage)
    (entries : after.entries = system.entries) :
    system.Knows epoch function ∨ stage.pair = some (epoch, function) := by
  rcases knows with ⟨other, has⟩ | ⟨store, resolution, contains, is⟩
  · rw [calls] at has
    exact (pair_update has).imp_left fun before => .inl ⟨other, before⟩
  · rw [entries] at contains
    exact .inl (.inr ⟨store, resolution, contains, is⟩)

variable {store : StoreId}

theorem Knows.of_cleared {epoch function : Nat} (knows : after.Knows epoch function)
    (calls : ∀ call, (after.calls call).pair = (system.calls call).pair)
    (entries : after.entries = update system.entries store .empty) :
    system.Knows epoch function := by
  rcases knows with ⟨other, has⟩ | ⟨place, resolution, contains, is⟩
  · exact .inl ⟨other, (calls other).symm.trans has⟩
  · rw [entries] at contains
    rcases update_cases (Contains · resolution) contains with ⟨-, now⟩ | ⟨-, before⟩
    · exact absurd now not_contains_empty
    · exact .inr ⟨place, resolution, before, is⟩

/-- The epochs that calls have read are in the past. -/
def Stamped (system : EvictionSystem Key Probe) : Prop :=
  ∀ call, (system.calls call).Stamped system.epoch

/-- Where new knowledge comes from: it is as old as some earlier knowledge of the function,
or the function was taken from the map by an epoch read before. -/
theorem Knows.step [DecidableEq Key] {epoch function : Nat} (stamped : system.Stamped)
    (moves : Moves rules system after) (knows : after.Knows epoch function) :
    (∃ known, epoch ≤ known ∧ system.Knows known function) ∨
      epoch ≤ system.epoch ∧ system.Available function := by
  have old : system.Knows epoch function →
      (∃ known, epoch ≤ known ∧ system.Knows known function) ∨
        epoch ≤ system.epoch ∧ system.Available function :=
    fun before => .inl ⟨epoch, Nat.le_refl epoch, before⟩
  -- A call that had the function in hand before.
  have kept : ∀ {call : Nat} {stage next : CallStage Probe}, system.calls call = stage →
      (system.Knows epoch function ∨ next.pair = some (epoch, function)) →
      next.pair = stage.pair → system.Knows epoch function := by
    rintro call stage next is (before | now) same
    · exact before
    · exact .inl ⟨call, by rw [is, ← same, now]⟩
  cases moves with
  | stay => exact old knows
  | discard => exact old knows
  | @hit call stamp store request loaded hit stage found =>
    rcases knows.of_call rfl rfl with before | now
    · exact old before
    · cases now
      have read := stamped call
      rw [stage] at read
      rcases contains_of_get found with ⟨contains, isLoaded⟩
      exact .inl ⟨loaded, read.1, .inr ⟨store, hit, contains, isLoaded, rfl⟩⟩
  | @takeKnown call stamp key slot stage present =>
    rcases knows.of_call rfl rfl with before | now
    · exact old before
    · cases now
      have read := stamped call
      rw [stage] at read
      exact .inr ⟨read, .inl ⟨key, present⟩⟩
  | @takeNew call stamp key stage absent =>
    rcases knows.of_call rfl rfl with before | now
    · exact old before
    · cases now
      have read := stamped call
      rw [stage] at read
      exact .inr ⟨read, .inr rfl⟩
  | @add call store resolution stage =>
    have inHand : system.Knows resolution.epoch resolution.function :=
      .inl ⟨call, by rw [stage]; rfl⟩
    rcases knows with ⟨other, has⟩ | ⟨place, found, contains, rfl, rfl⟩
    · rcases pair_update has with before | now
      · exact old (.inl ⟨other, before⟩)
      · cases now
        exact old inHand
    · rcases update_cases (Contains · found) contains with ⟨-, now⟩ | ⟨-, before⟩
      · rcases contains_of_add now with before | rfl
        · exact old (.inr ⟨store, found, before, rfl, rfl⟩)
        · exact old inHand
      · exact old (.inr ⟨place, found, before, rfl, rfl⟩)
  | dropStore => exact old (knows.of_cleared (fun _ => rfl) rfl)
  | @clear call removed kind store remaining stage free =>
    have same : (CallStage.clearing removed kind remaining : CallStage Probe).pair =
        (system.calls call).pair := by rw [stage]; rfl
    exact old (knows.of_cleared (fun other => view_update CallStage.pair same other) rfl)
  | _ =>
    have stage := ‹system.calls _ = _›
    exact old (kept stage (knows.of_call rfl rfl) rfl)

/-! ## Epochs -/

theorem epoch_le_step [DecidableEq Key] (moves : Moves rules system after) :
    system.epoch ≤ after.epoch := by
  cases moves with
  | bump => exact Nat.le_succ _
  | _ => exact Nat.le_refl _

theorem Stamped.step [DecidableEq Key] (stamped : system.Stamped)
    (moves : Moves rules system after) : after.Stamped := by
  -- All calls but the moving one have read what they had read.
  have others : ∀ {call : Nat} {stage : CallStage Probe}, stage.Stamped after.epoch →
      ∀ other, (update system.calls call stage other).Stamped after.epoch := by
    intro _ _ now other
    rw [update_apply]
    split_ifs
    · exact now
    · exact CallStage.Stamped.mono (stamped other) (epoch_le_step moves)
  cases moves with
  | stay | discard | dropStore => exact stamped
  | readEpoch => exact others (Nat.le_refl _)
  | @loadEpoch call _ _ _ stage =>
    have read := stamped call
    rw [stage] at read
    exact others ⟨read, Nat.le_refl _⟩
  | @miss call _ _ _ _ stage =>
    have read := stamped call
    rw [stage] at read
    exact others (Nat.le_trans read.1 read.2)
  | _ => exact others trivial

/-- Every function is known by an epoch of the past. -/
def Past (system : EvictionSystem Key Probe) : Prop :=
  ∀ epoch function, system.Knows epoch function → epoch ≤ system.epoch

theorem Past.step [DecidableEq Key] (past : system.Past) (stamped : system.Stamped)
    (moves : Moves rules system after) : after.Past := by
  intro _ function knows
  refine Nat.le_trans ?_ (epoch_le_step moves)
  rcases knows.step stamped moves with ⟨known, le, before⟩ | ⟨le, -⟩
  · exact Nat.le_trans le (past known function before)
  · exact le

/-! ## Removed slots -/

/-- A removed slot is in no entry of the map, and will not be again. -/
structure Slots (system : EvictionSystem Key Probe) : Prop where
  bounded : ∀ {key slot}, system.map key = some slot → slot < system.nextSlot
  injective : ∀ {first second slot}, system.map first = some slot →
    system.map second = some slot → first = second
  removed : ∀ {call slot}, slot ∈ (system.calls call).removed →
    slot < system.nextSlot ∧ ∀ key, system.map key ≠ some slot

section

variable (slots : system.Slots)

include slots

theorem Slots.not_available {slot : Nat} (removed : slot ∈ (system.calls call).removed) :
    ¬ system.Available slot := by
  rcases slots.removed removed with ⟨bounded, unmapped⟩
  rintro (⟨key, mapped⟩ | rfl)
  · exact unmapped key mapped
  · exact Nat.lt_irrefl _ bounded

theorem Slots.frame (map : after.map = system.map) (nextSlot : after.nextSlot = system.nextSlot)
    (removed : ∀ call, (after.calls call).removed = (system.calls call).removed) : after.Slots := by
  refine ⟨fun mapped => ?_, fun first second => ?_, fun {call slot} member => ?_⟩
  · rw [map] at mapped
    rw [nextSlot]
    exact slots.bounded mapped
  · rw [map] at first second
    exact slots.injective first second
  · rw [removed call] at member
    rw [nextSlot, map]
    exact slots.removed member

theorem Slots.unmap [DecidableEq Key] (key : Key) : (system.setMap key none).Slots := by
  have before : ∀ {other slot}, (system.setMap key none).map other = some slot →
      system.map other = some slot ∧ other ≠ key := by
    intro _ slot mapped
    rcases update_cases (· = some slot) mapped with ⟨-, now⟩ | ⟨different, before⟩
    · cases now
    · exact ⟨before, different⟩
  refine ⟨fun mapped => slots.bounded (before mapped).1,
    fun first second => slots.injective (before first).1 (before second).1, fun member => ?_⟩
  rcases slots.removed member with ⟨bounded, unmapped⟩
  exact ⟨bounded, fun other mapped => unmapped other (before mapped).1⟩

theorem Slots.map_new [DecidableEq Key] {key : Key} :
    Slots { system.setMap key (some system.nextSlot) with nextSlot := system.nextSlot + 1 } := by
  have entry : ∀ {other slot},
      update system.map key (some system.nextSlot) other = some slot →
      system.map other = some slot ∧ other ≠ key ∨ slot = system.nextSlot ∧ other = key := by
    intro _ slot mapped
    rcases update_cases (· = some slot) mapped with ⟨same, now⟩ | ⟨different, before⟩
    · exact .inr ⟨(Option.some_inj.mp now).symm, same⟩
    · exact .inl ⟨before, different⟩
  refine ⟨fun mapped => ?_, fun {first second slot} firstMapped secondMapped => ?_,
    fun {call slot} member => ?_⟩
  · rcases entry mapped with ⟨before, -⟩ | ⟨rfl, -⟩
    · exact Nat.lt_succ_of_lt (slots.bounded before)
    · exact Nat.lt_succ_self _
  · rcases entry firstMapped with ⟨first', -⟩ | ⟨isNew, rfl⟩ <;>
      rcases entry secondMapped with ⟨second', -⟩ | ⟨isNew', rfl⟩
    · exact slots.injective first' second'
    · exact absurd (slots.bounded first') (isNew' ▸ Nat.lt_irrefl _)
    · exact absurd (slots.bounded second') (isNew ▸ Nat.lt_irrefl _)
    · rfl
  · rcases slots.removed member with ⟨bounded, unmapped⟩
    refine ⟨Nat.lt_succ_of_lt bounded, fun other mapped => ?_⟩
    rcases entry mapped with ⟨before, -⟩ | ⟨rfl, -⟩
    · exact unmapped other before
    · exact Nat.lt_irrefl _ bounded

theorem Slots.step [DecidableEq Key] (moves : Moves rules system after) : after.Slots := by
  have seen : ∀ {call : Nat} {stage next : CallStage Probe}, system.calls call = stage →
      next.removed = stage.removed → ∀ other,
      (update system.calls call next other).removed = (system.calls other).removed :=
    fun is same other => view_update CallStage.removed (by rw [is, same]) other
  cases moves with
  | stay => exact slots
  | dropStore => exact slots.frame rfl rfl fun _ => rfl
  | discard => exact slots.unmap _
  | takeNew stage => exact slots.map_new.frame rfl rfl (seen stage (by rfl))
  | @remove call removed key slot stage present =>
    have smaller := slots.unmap key
    refine ⟨smaller.bounded, smaller.injective, fun {other place} member => ?_⟩
    rcases update_cases (place ∈ CallStage.removed ·) member with ⟨-, now⟩ | ⟨-, before⟩
    · rcases List.mem_cons.mp now with rfl | earlier
      · refine ⟨slots.bounded present, fun another mapped => ?_⟩
        rcases update_cases (· = some place) mapped with ⟨-, now⟩ | ⟨isKey, before⟩
        · cases now
        · exact isKey (slots.injective before present)
      · have before : place ∈ ((system.setMap key none).calls call).removed := by
          rw [setMap_calls, stage]
          exact earlier
        exact smaller.removed before
    · exact smaller.removed before
  | _ =>
    have stage := ‹system.calls _ = _›
    exact slots.frame rfl rfl (seen stage (by rfl))

end

/-- What an eviction removed before its bump is known by earlier epochs only. -/
def Outdated (system : EvictionSystem Key Probe) : Prop :=
  ∀ call, ∀ slot ∈ (system.calls call).outdated, ∀ epoch,
    system.Knows epoch slot → epoch < system.epoch

/-- A slot gets outdated by the bump of the eviction that removed it. -/
theorem outdated_step [DecidableEq Key] {slot : Nat} (moves : Moves rules system after)
    (outdated : slot ∈ (after.calls call).outdated) :
    slot ∈ (system.calls call).outdated ∨ after.epoch = system.epoch + 1 := by
  have seen : ∀ {mover : Nat} {stage next : CallStage Probe}, system.calls mover = stage →
      slot ∈ (update system.calls mover next call).outdated →
      next.outdated = stage.outdated → slot ∈ (system.calls call).outdated := by
    intro mover stage next is member same
    rw [view_update CallStage.outdated (same.trans (congrArg CallStage.outdated is).symm)]
      at member
    exact member
  cases moves with
  | stay | dropStore | discard => exact .inl outdated
  | bump => exact .inr rfl
  | _ =>
    have stage := ‹system.calls _ = _›
    exact .inl (seen stage outdated rfl)

theorem Outdated.step [DecidableEq Key] (outdated : system.Outdated) (stamped : system.Stamped)
    (past : system.Past) (slots : system.Slots) (moves : Moves rules system after) :
    after.Outdated := by
  intro call slot member _ knows
  rcases outdated_step moves member with before | bumped
  · refine Nat.lt_of_lt_of_le ?_ (epoch_le_step moves)
    rcases knows.step stamped moves with ⟨known, le, earlier⟩ | ⟨-, available⟩
    · exact Nat.lt_of_le_of_lt le (outdated call slot before known earlier)
    · exact absurd available (slots.not_available (CallStage.removed_of_outdated before))
  · rw [bumped, Nat.lt_succ_iff]
    rcases knows.step stamped moves with ⟨known, le, earlier⟩ | ⟨le, -⟩
    · exact Nat.le_trans le (past known slot earlier)
    · exact le

/-! ## Registration and locks -/

def InUse (system : EvictionSystem Key Probe) (store : StoreId) : Prop :=
  system.flagged store = true ∨ (∃ call, (system.calls call).registeredAt = some store) ∨
    ∃ resolution, (system.entries store).Contains resolution

/-- A store in use is in its registry; a lock has one holder, and its store is not dropped;
what is dropped is empty. -/
structure Reached (system : EvictionSystem Key Probe) : Prop where
  listed : ∀ {store}, system.alive store = true → system.InUse store →
    store ∈ system.registry store.kind
  locks : ∀ {call store}, (system.calls call).lockOf = some store →
    system.writer store = some call ∧ system.alive store = true
  dropped : ∀ {store resolution}, system.alive store = false →
    ¬ (system.entries store).Contains resolution

section

variable [DecidableEq Key] (moves : Moves rules system after)

include moves

/-- The stores with more entries after a step had the new one checked before. -/
theorem contains_step {resolution : SiteResolution Probe}
    (contains : (after.entries store).Contains resolution) :
    (system.entries store).Contains resolution ∨
      ∃ call, (system.calls call).adding = some (store, resolution) := by
  have emptied : ∀ {place : StoreId},
      (update system.entries place .empty store).Contains resolution →
      (system.entries store).Contains resolution := by
    intro _ contains
    rcases update_cases (Contains · resolution) contains with ⟨-, now⟩ | ⟨-, before⟩
    · exact absurd now not_contains_empty
    · exact before
  cases moves with
  | dropStore | clear => exact .inl (emptied contains)
  | @add call _ _ stage =>
    rcases update_cases (Contains · resolution) contains with ⟨same, now⟩ | ⟨-, before⟩
    · rcases contains_of_add now with before | rfl
      · exact .inl (same ▸ before)
      · exact .inr ⟨call, by rw [stage, same]; rfl⟩
    · exact .inl before
  | _ => exact .inl contains

/-- A store comes into use by a call that has put it into the registry. -/
theorem InUse.step (inUse : after.InUse store) :
    system.InUse store ∨ store ∈ after.registry store.kind := by
  have seen : ∀ {mover call : Nat} {stage next : CallStage Probe}, system.calls mover = stage →
      (update system.calls mover next call).registeredAt = some store →
      (next.registeredAt = some store → stage.registeredAt = some store) →
      system.InUse store := by
    intro mover call stage next is at' keeps
    rcases update_cases (CallStage.registeredAt · = some store) at' with ⟨-, now⟩ | ⟨-, before⟩
    · exact .inr (.inl ⟨mover, by rw [is]; exact keeps now⟩)
    · exact .inr (.inl ⟨call, before⟩)
  rcases inUse with flagged | ⟨call, at'⟩ | ⟨resolution, contains⟩
  · cases moves with
    | @setFlag mover place resolution stage =>
      by_cases same : store = place
      · exact .inl (.inr (.inl ⟨mover, by rw [stage, same]; rfl⟩))
      · exact .inl (.inl ((update_of_ne same ..).symm.trans flagged))
    | _ => exact .inl (.inl flagged)
  · cases moves with
    | stay | dropStore | discard => exact .inl (.inr (.inl ⟨call, at'⟩))
    | @flagSeen mover place resolution stage isFlagged =>
      by_cases same : store = place
      · exact .inl (.inl (same ▸ isFlagged))
      · exact .inl (seen stage at' fun is => absurd (Option.some_inj.mp is).symm same)
    | @push mover place resolution stage =>
      by_cases same : store = place
      · cases isFlagged : system.flagged store with
        | true => exact .inl (.inl isFlagged)
        | false => exact .inr (by simp [register, ← same, isFlagged])
      · exact .inl (seen stage at' fun is => absurd (Option.some_inj.mp is).symm same)
    | setFlag stage | lock stage | confirm stage => exact .inl (seen stage at' id)
    | _ =>
      have stage := ‹system.calls _ = _›
      exact .inl (seen stage at' (by simp [CallStage.registeredAt]))
  · rcases contains_step moves contains with before | ⟨call, adds⟩
    · exact .inl (.inr (.inr ⟨resolution, before⟩))
    · have holds := CallStage.lockOf_of_adding adds
      exact .inl (.inr (.inl ⟨call, CallStage.registeredAt_of_lockOf holds⟩))

theorem registry_step (alive : after.alive store = true)
    (member : store ∈ system.registry store.kind) : store ∈ after.registry store.kind := by
  cases moves with
  | @push _ place =>
    simp only [setCall_registry, register]
    split_ifs
    · exact member
    · by_cases same : store.kind = place.kind
      · rw [same] at member
        rw [same, update_self]
        exact List.mem_append_left _ (List.mem_filter.mpr ⟨member, alive⟩)
      · rw [update_of_ne same]
        exact member
  | _ => exact member

theorem alive_step (alive : after.alive store = true) :
    system.alive store = true := by
  cases moves with
  | @dropStore place =>
    by_cases same : store = place
    · simp [same] at alive
    · simpa [same] using alive
  | _ => exact alive

theorem not_contains_of_dropped {resolution : SiteResolution Probe}
    (before : system.alive store = true) (now : after.alive store = false) :
    ¬ (after.entries store).Contains resolution := by
  cases moves with
  | @dropStore place =>
    by_cases same : store = place
    · subst same
      simp only [setEntries_entries, update_self]
      exact not_contains_empty
    · simp [same, before] at now
  | _ => exact absurd (before.symm.trans now) (by simp)

end

/-- A step takes a lock that is free, gives up the caller's, or leaves the locks alone. -/
theorem Reached.locks_step [DecidableEq Key] (reached : system.Reached)
    (moves : Moves rules system after) {other : Nat}
    (holds : (after.calls other).lockOf = some store) :
    after.writer store = some other ∧ after.alive store = true := by
  have seen : ∀ {mover : Nat} {stage next : CallStage Probe}, system.calls mover = stage →
      (update system.calls mover next other).lockOf = some store →
      (next.lockOf = none ∨ next.lockOf = stage.lockOf) →
      (system.calls other).lockOf = some store := by
    intro mover stage next is holds same
    rcases update_cases (CallStage.lockOf · = some store) holds with ⟨isMover, now⟩ | ⟨-, before⟩
    · rcases same with none | same
      · rw [none] at now
        cases now
      · rw [isMover, is, ← same]
        exact now
    · exact before
  -- The caller releases its own lock and nobody else's.
  have released : ∀ {mover : Nat} {place : StoreId} {stage next : CallStage Probe},
      system.calls mover = stage → stage.lockOf = some place → next.lockOf = none →
      (update system.calls mover next other).lockOf = some store →
      update system.writer place none store = some other ∧
        system.alive store = true := by
    intro mover place stage next is holdsPlace none holds
    have before := seen is holds (.inl none)
    have mine := reached.locks before
    refine ⟨?_, mine.2⟩
    rw [update_of_ne, mine.1]
    rintro rfl
    have his : system.writer store = some mover :=
      (reached.locks (by rw [is]; exact holdsPlace)).1
    have isMover : other = mover := Option.some_inj.mp (mine.1.symm.trans his)
    rw [isMover, update_self, none] at holds
    cases holds
  cases moves with
  | stay | discard => exact reached.locks holds
  | @dropStore place free =>
    have mine := reached.locks holds
    have different : store ≠ place := by
      rintro rfl
      rw [free] at mine
      cases mine.1
    exact ⟨mine.1, by simpa [different] using mine.2⟩
  | @lock mover place resolution stage free alive =>
    rcases update_cases (CallStage.lockOf · = some store) holds with ⟨isMover, now⟩ | ⟨-, before⟩
    · cases now
      exact ⟨by simp [isMover], alive⟩
    · have mine := reached.locks before
      have different : store ≠ place := by
        rintro rfl
        rw [free] at mine
        cases mine.1
      exact ⟨by simpa [different] using mine.1, mine.2⟩
  | reject stage => exact released stage rfl rfl holds
  | add stage => exact released stage rfl rfl holds
  | confirm stage => exact reached.locks (seen stage holds (.inr rfl))
  | _ =>
    have stage := ‹system.calls _ = _›
    exact reached.locks (seen stage holds (.inl rfl))

theorem Reached.step [DecidableEq Key] (reached : system.Reached)
    (moves : Moves rules system after) : after.Reached := by
  refine ⟨fun alive inUse => ?_, reached.locks_step moves, fun {store resolution} dead => ?_⟩
  · rcases inUse.step moves with before | now
    · exact registry_step moves alive (reached.listed (alive_step moves alive) before)
    · exact now
  · cases before : system.alive store with
    | true => exact not_contains_of_dropped moves before dead
    | false =>
      intro contains
      rcases contains_step moves contains with held | ⟨_, adds⟩
      · exact reached.dropped before held
      · have alive := (reached.locks (CallStage.lockOf_of_adding adds)).2
        rw [before] at alive
        cases alive

/-! ## Cleared stores -/

/-- The store neither contains one of the functions nor is about to. -/
def FreeOf (functions : List Nat) (store : StoreId) (system : EvictionSystem Key Probe) : Prop :=
  (∀ resolution, (system.entries store).Contains resolution → resolution.function ∉ functions) ∧
    ∀ call resolution, (system.calls call).adding = some (store, resolution) →
      resolution.function ∉ functions

/-- What is checked under the lock is current, and what gets in has been checked. -/
theorem FreeOf.step [DecidableEq Key] {functions : List Nat}
    (free : system.FreeOf functions store)
    (outdated : ∀ function ∈ functions, ∀ epoch, system.Knows epoch function →
      epoch < system.epoch) (moves : Moves rules system after) : after.FreeOf functions store := by
  refine ⟨fun resolution contains => ?_, fun call resolution adds => ?_⟩
  · rcases contains_step moves contains with before | ⟨call, adds⟩
    · exact free.1 resolution before
    · exact free.2 call resolution adds
  · cases moves with
    | stay | dropStore | discard => exact free.2 call resolution adds
    | @confirm mover _ _ stage current =>
      rcases update_cases (CallStage.adding · = some (store, resolution)) adds with
        ⟨-, now⟩ | ⟨-, before⟩
      · cases now
        intro member
        have known : system.Knows resolution.epoch resolution.function :=
          .inl ⟨mover, by rw [stage]; rfl⟩
        have earlier := outdated resolution.function member resolution.epoch known
        rw [current] at earlier
        exact Nat.lt_irrefl _ earlier
      · exact free.2 call resolution before
    | _ =>
      exact free.2 call resolution (view_of_update_eq CallStage.adding adds nofun)

/-- Nothing is in a store, or on its way into it, that an eviction does not find. -/
theorem Reached.freeOf_of_not_live (reached : system.Reached) {functions : List Nat}
    (absent : store ∉ system.live store.kind) : system.FreeOf functions store := by
  have unused : system.alive store = true → ¬ system.InUse store := fun alive inUse =>
    absent (List.mem_filter.mpr ⟨reached.listed alive inUse, alive⟩)
  refine ⟨fun resolution contains => ?_, fun call resolution adds => ?_⟩
  · cases alive : system.alive store with
    | true => exact absurd (.inr (.inr ⟨resolution, contains⟩)) (unused alive)
    | false => exact absurd contains (reached.dropped alive)
  · have holds := CallStage.lockOf_of_adding adds
    exact absurd (.inr (.inl ⟨call, CallStage.registeredAt_of_lockOf holds⟩))
      (unused (reached.locks holds).2)

/-- Evictions leave the stores behind them free of what they removed. -/
def Freed (system : EvictionSystem Key Probe) : Prop :=
  ∀ call store, (system.calls call).Cleared store →
    system.FreeOf (system.calls call).outdated store

theorem Freed.clear [DecidableEq Key] (reached : system.Reached)
    (unlocked : system.writer store = none) (functions : List Nat) (quiet : stage.adding = none) :
    ((system.setEntries store .empty).setCall call stage).FreeOf functions store := by
  refine ⟨fun resolution contains => ?_, fun other resolution adds => ?_⟩
  · rw [setCall_entries, setEntries_entries, update_self] at contains
    exact absurd contains not_contains_empty
  · have before := view_of_update_eq CallStage.adding adds (by simp [quiet])
    have holds := (reached.locks (CallStage.lockOf_of_adding before)).1
    rw [unlocked] at holds
    cases holds

theorem Freed.step [DecidableEq Key] (freed : system.Freed) (reached : system.Reached)
    (outdated : system.Outdated) (moves : Moves rules system after) : after.Freed := by
  intro call store cleared
  have kept : ∀ {other : Nat} {stage : CallStage Probe} {functions : List Nat},
      system.calls other = stage → stage.outdated = functions → stage.Cleared store →
      after.FreeOf functions store := by
    rintro other stage functions rfl rfl before
    exact (freed other store before).step (outdated other) moves
  have unlisted : ∀ {other : Nat} {stage : CallStage Probe} {functions : List Nat},
      system.calls other = stage → stage.outdated = functions →
      store ∉ system.live store.kind → after.FreeOf functions store := by
    rintro other stage functions rfl rfl absent
    exact (reached.freeOf_of_not_live absent).step (outdated other) moves
  -- The moving call's stage tells which stores it has cleared; the others stand where they did.
  have seen : ∀ {mover : Nat} {next : CallStage Probe},
      after.calls = update system.calls mover next →
      (next.Cleared store → after.FreeOf next.outdated store) →
      after.FreeOf (after.calls call).outdated store := by
    intro mover next calls own
    by_cases isMover : call = mover
    · have now : after.calls call = next := by rw [calls, isMover, update_self]
      rw [now] at cleared ⊢
      exact own cleared
    · have now : after.calls call = system.calls call := by
        rw [calls, update_of_ne isMover]
      rw [now] at cleared ⊢
      exact kept rfl rfl cleared
  cases moves with
  | stay | dropStore | discard => exact kept rfl rfl cleared
  | openSites stage =>
    exact seen rfl fun now => unlisted stage rfl (now.1 ▸ now.2)
  | openPlans stage =>
    refine seen rfl fun now => ?_
    cases kind : store.kind with
    | site => exact kept stage rfl ⟨kind, List.not_mem_nil⟩
    | plan =>
      rcases now with isSite | absent
      · rw [kind] at isSite
        cases isSite
      · exact unlisted stage rfl (kind ▸ absent)
  | finish stage => exact seen rfl fun _ => kept stage rfl (.inr List.not_mem_nil)
  | skip => exact seen rfl fun _ => ⟨fun _ _ => List.not_mem_nil, fun _ _ _ => List.not_mem_nil⟩
  | @clear _ _ kind place remaining stage free =>
    refine seen rfl fun now => ?_
    by_cases same : store = place
    · subst same
      exact Freed.clear reached free _ rfl
    · have rest : store ∉ remaining → store ∉ place :: remaining := fun absent member =>
        (List.mem_cons.mp member).elim same absent
      cases kind with
      | site => exact kept stage rfl ⟨now.1, rest now.2⟩
      | plan => exact kept stage rfl (now.imp_right rest)
  | _ => exact seen rfl False.elim

/-! ## All interleavings -/

structure Invariant (system : EvictionSystem Key Probe) : Prop where
  stamped : system.Stamped
  past : system.Past
  slots : system.Slots
  outdated : system.Outdated
  reached : system.Reached
  freed : system.Freed

theorem Invariant.new : (EvictionSystem.new : EvictionSystem Key Probe).Invariant where
  stamped := fun _ => trivial
  past := by simp [Past, Knows, EvictionSystem.new, CallStage.pair, Contains,
    empty]
  slots := ⟨by simp [EvictionSystem.new], by simp [EvictionSystem.new],
    by simp [EvictionSystem.new, CallStage.removed]⟩
  outdated := by simp [Outdated, EvictionSystem.new, CallStage.outdated]
  reached := ⟨by simp [InUse, EvictionSystem.new, CallStage.registeredAt, Contains,
      empty],
    by simp [EvictionSystem.new, CallStage.lockOf], by simp [EvictionSystem.new]⟩
  freed := fun _ _ => False.elim

theorem Invariant.step [DecidableEq Key] {action : EvictionAction Key Probe}
    (invariant : system.Invariant) (taken : system.step rules action = some after) :
    after.Invariant := by
  rcases invariant with ⟨stamped, past, slots, outdated, reached, freed⟩
  have moves := moves_of_step taken
  exact ⟨stamped.step moves, past.step stamped moves, slots.step moves,
    outdated.step stamped past slots moves, reached.step moves,
    freed.step reached outdated moves⟩

def Returned (call : Nat) (removed : List Nat) (system : EvictionSystem Key Probe) : Prop :=
  system.Invariant ∧ system.calls call = .evicted removed

theorem Returned.step [DecidableEq Key] {removed : List Nat} {action : EvictionAction Key Probe}
    (returned : Returned call removed system) (taken : system.step rules action = some after) :
    Returned call removed after := by
  refine ⟨returned.1.step taken, ?_⟩
  have evicted := returned.2
  cases moves_of_step taken with
  | stay | dropStore | discard => exact evicted
  | _ =>
    have stage := ‹system.calls _ = _›
    exact update_eq_of_eq evicted fun is => by cases stage.symm.trans is

/-- Once an eviction has returned, no launch site and no plan cache contains a function whose
entry it removed, or returns one, then or later. -/
theorem evicted_not_served [DecidableEq Key] (rules : StoreKind → ProbeRules Probe)
    (system : EvictionSystem Key Probe)
    (reached : Reachable (EvictionSystem.step rules) EvictionSystem.new system) (call : Nat)
    (removed : List Nat) (returned : system.calls call = .evicted removed)
    (later : EvictionSystem Key Probe)
    (follows : Reachable (EvictionSystem.step rules) system later)
    (store : StoreId) (resolution : SiteResolution Probe) :
    ((later.entries store).Contains resolution → resolution.function ∉ removed) ∧
      ∀ epoch request,
        (later.entries store).get (rules store.kind) epoch request = some resolution →
          resolution.function ∉ removed := by
  have invariant : system.Invariant := reached.invariant Invariant.new Invariant.step
  have now : Returned call removed later :=
    follows.invariant (show Returned call removed system from ⟨invariant, returned⟩) Returned.step
  have free : later.FreeOf removed store := by
    have cleared := now.1.freed call store
    rw [now.2] at cleared
    exact cleared trivial
  refine ⟨free.1 resolution, fun epoch request found => ?_⟩
  exact free.1 resolution (contains_of_get found).1

/-- A store checks the epoch just before the eviction of its function bumps it. -/
theorem evicted_not_served_race :
    let rules : StoreKind → ProbeRules Unit := fun _ =>
      ⟨fun _ => 0, fun _ _ => true, fun _ _ => true⟩
    let site : StoreId := ⟨.site, 0⟩
    ∃ system : EvictionSystem Nat Unit, execute (EvictionSystem.step rules) EvictionSystem.new
        [.readEpoch 0, .takeSlot 0 7, .compiled 0, .beginStore 0 site (), .readFlag 0, .push 0,
          .setFlag 0, .lock 0, .checkEpoch 0, .beginEviction 1, .remove 1 7, .bump 1,
          .openRegistry 1, .add 0, .clear 1, .openRegistry 1, .openRegistry 1] = some system ∧
      system.calls 1 = .evicted [0] ∧
      ∀ resolution, (system.entries site).Contains resolution → resolution.function ∉ [0] := by
  intro rules site
  obtain ⟨system, runs⟩ : ∃ system : EvictionSystem Nat Unit,
      execute (EvictionSystem.step rules) EvictionSystem.new
        [.readEpoch 0, .takeSlot 0 7, .compiled 0, .beginStore 0 site (), .readFlag 0, .push 0,
          .setFlag 0, .lock 0, .checkEpoch 0, .beginEviction 1, .remove 1 7, .bump 1,
          .openRegistry 1, .add 0, .clear 1, .openRegistry 1, .openRegistry 1] = some system :=
    ⟨_, rfl⟩
  have returned : system.calls 1 = .evicted [0] := by
    cases runs
    rfl
  refine ⟨system, runs, returned, fun resolution => ?_⟩
  exact (evicted_not_served rules system ⟨_, runs⟩ 1 [0] returned system ⟨[], rfl⟩ site
    resolution).1

end EvictionSystem

end CuTile
