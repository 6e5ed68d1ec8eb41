import CuTile.Foundation.Representatives
import CuTile.Tensor.Storage

/-! # Graph captures and the accesses they replay

The storages of a process with their in-flight accesses, the resources that captures
record, and the graphs that replay them. An action is at most one critical section of a
storage: accesses are registered and released in any order, by any context and at any
time, and a replay retains its resources one after the other.
-/

namespace CuTile

open Function

structure StorageLease where
  storage : Nat
  id : Nat
  write : Bool
deriving DecidableEq, Repr

inductive ReplayResource where
  | storage (lease : StorageLease)
  /-- Keeps a function loaded. -/
  | function (index : Nat)
deriving DecidableEq, Repr

inductive LiveAllocation where
  | storage (index : Nat)
  | function (index : Nat)
deriving DecidableEq, Repr

def ReplayResource.replayIdentity : ReplayResource → LiveAllocation × Bool
  | .storage lease => (.storage lease.storage, lease.write)
  | .function index => (.function index, false)

def ReplayResource.allocation (resource : ReplayResource) : LiveAllocation :=
  resource.replayIdentity.1

def ReplayResource.writes (resource : ReplayResource) : Bool :=
  resource.replayIdentity.2

/-- What retaining reads of an execution context. A recording context belongs to a
capture. -/
structure RetainContext where
  device : Nat
  stream : Nat
  capture : Option Nat
  completed : Bool
deriving DecidableEq, Repr

/-- `graphs` lists the replay sets of the graphs made so far. -/
structure GraphSystem where
  device : Nat → Nat
  accesses : Nat → List StorageAccess
  nextId : Nat
  recorded : Nat → List ReplayResource
  graphs : List (List ReplayResource)

inductive GraphAction where
  | retain (context : RetainContext) (storage : Nat) (write : Bool)
  | recordFunction (capture function : Nat)
  | releaseAccess (storage id : Nat)
  | adoptCapture (capture : Nat)
  /-- One pass of the loop over the captured resources. -/
  | retainForLaunch (context : RetainContext) (graph position : Nat)
deriving DecidableEq, Repr

namespace GraphSystem

def new (device : Nat → Nat) : GraphSystem where
  device := device
  accesses := fun _ => []
  nextId := 1
  recorded := fun _ => []
  graphs := []

def registerAccess (system : GraphSystem) (storage : Nat) (request : AccessRequest) :
    Except String (Nat × GraphSystem) :=
  if !request.recording && (system.accesses storage).any (StorageSystem.conflicts request) then
    .error "tensor has a conflicting in-flight access on another stream; await its operation before reusing it"
  else
    .ok (system.nextId, { system with
      accesses := Function.update system.accesses storage (system.accesses storage ++
        [⟨system.nextId, request.stream, request.write, request.recording⟩])
      nextId := system.nextId + 1 })

/-- `swap_remove` also reorders the list, which nothing observes. -/
def releaseAccess (system : GraphSystem) (storage id : Nat) : GraphSystem :=
  { system with
    accesses := Function.update system.accesses storage
      ((system.accesses storage).eraseP fun access => access.id == id) }

def retain (system : GraphSystem) (context : RetainContext) (storage : Nat) (write : Bool) :
    GraphSystem × Except String Unit :=
  if system.device storage ≠ context.device then
    (system, .error "tensor and execution stream are on different devices")
  else
    match system.registerAccess storage
        ⟨context.device, context.stream, write, context.capture.isSome⟩ with
    | .error message => (system, .error message)
    | .ok (id, registered) =>
      match context.capture with
      | some capture =>
        ({ registered with
          recorded := Function.update registered.recorded capture
            (registered.recorded capture ++ [.storage ⟨storage, id, write⟩]) }, .ok ())
      | none =>
        -- A completed submission takes no lease: it is dropped at once.
        if context.completed then
          (registered.releaseAccess storage id, .error "submission already completed")
        else (registered, .ok ())

def retainForLaunch (system : GraphSystem) (context : RetainContext) :
    ReplayResource → GraphSystem × Except String Unit
  | .storage lease => system.retain context lease.storage lease.write
  | .function _ => (system, .ok ())

/-- The loop of `GraphLaunch::execute`, which stops at the first failure. -/
def replay (context : RetainContext) :
    List ReplayResource → GraphSystem → GraphSystem × Except String Unit
  | [], system => (system, .ok ())
  | resource :: rest, system =>
    match system.retainForLaunch context resource with
    | (next, .error message) => (next, .error message)
    | (next, .ok ()) => replay context rest next

def dropResource (system : GraphSystem) : ReplayResource → GraphSystem
  | .storage lease => system.releaseAccess lease.storage lease.id
  | .function _ => system

/-- The graph has just been instantiated, so its cells are empty and are set here. -/
def adoptCapture (system : GraphSystem) (capture : Nat) : Except Panic GraphSystem := do
  let (captured, dropped) ←
    Kept.empty.insertAll ReplayResource.allocation ReplayResource.writes (system.recorded capture)
  return { dropped.foldl dropResource system with
    recorded := Function.update system.recorded capture []
    graphs := system.graphs ++ [captured.items] }

def step (system : GraphSystem) : GraphAction → Option GraphSystem
  | .retain context storage write => some (system.retain context storage write).1
  | .recordFunction capture function =>
    some { system with
      recorded := Function.update system.recorded capture
        (system.recorded capture ++ [.function function]) }
  | .releaseAccess storage id => some (system.releaseAccess storage id)
  | .adoptCapture capture => (system.adoptCapture capture).toOption
  | .retainForLaunch context graph position =>
    match system.graphs[graph]? >>= (·[position]?) with
    | none => none
    | some resource => some (system.retainForLaunch context resource).1

/-! ## Accesses on different streams -/

/-- Any two accesses that are in flight on different streams are reads. -/
def Compatible (accesses : List StorageAccess) : Prop :=
  ∀ first ∈ accesses, ∀ second ∈ accesses, first.recording = false → second.recording = false →
    first.stream ≠ second.stream → first.write = false ∧ second.write = false

theorem Compatible.append {accesses : List StorageAccess} (compatible : Compatible accesses)
    {request : AccessRequest} (quiet : request.recording = false →
      accesses.any (StorageSystem.conflicts request) = false) (id : Nat) :
    Compatible (accesses ++ [⟨id, request.stream, request.write, request.recording⟩]) := by
  have reads : ∀ access ∈ accesses, access.recording = false → request.recording = false →
      access.stream ≠ request.stream → request.write = false ∧ access.write = false := by
    intro access member plain requested apart
    have free := List.any_eq_false.mp (quiet requested) access member
    simpa [StorageSystem.conflicts, plain, apart] using free
  intro first firstMember second secondMember firstPlain secondPlain apart
  rw [List.mem_append, List.mem_singleton] at firstMember secondMember
  rcases firstMember with firstOld | rfl <;> rcases secondMember with secondOld | rfl
  · exact compatible first firstOld second secondOld firstPlain secondPlain apart
  · exact (reads first firstOld firstPlain secondPlain apart).symm
  · exact reads second secondOld secondPlain firstPlain apart.symm
  · exact absurd rfl apart

def Safe (system : GraphSystem) : Prop :=
  ∀ storage, Compatible (system.accesses storage)

variable {system after : GraphSystem}

theorem Safe.update (safe : system.Safe) {storage : Nat} {accesses : List StorageAccess}
    (compatible : Compatible accesses) (other : Nat) :
    Compatible (update system.accesses storage accesses other) := by
  by_cases same : other = storage
  · rw [same, update_self]
    exact compatible
  · rw [update_of_ne same]
    exact safe other

theorem Safe.registerAccess (safe : system.Safe) {storage id : Nat} {request : AccessRequest}
    (registers : system.registerAccess storage request = .ok (id, after)) : after.Safe := by
  unfold GraphSystem.registerAccess at registers
  split_ifs at registers with conflicting
  cases registers
  refine safe.update ((safe storage).append (fun plain => ?_) _)
  simpa [plain] using conflicting

theorem Safe.releaseAccess (safe : system.Safe) (storage id : Nat) :
    (system.releaseAccess storage id).Safe :=
  safe.update fun first firstMember second secondMember =>
    safe storage first (List.mem_of_mem_eraseP firstMember) second
      (List.mem_of_mem_eraseP secondMember)

theorem retain_cases (Holds : GraphSystem → Prop) {context : RetainContext} {storage : Nat}
    {write : Bool} (refused : Holds system)
    (registered : ∀ id after, system.registerAccess storage
        ⟨context.device, context.stream, write, context.capture.isSome⟩ = .ok (id, after) →
      (∀ recorded, Holds { after with recorded := recorded }) ∧
        Holds (after.releaseAccess storage id)) :
    Holds (system.retain context storage write).1 := by
  unfold GraphSystem.retain
  by_cases apart : system.device storage ≠ context.device
  · rw [if_pos apart]
    exact refused
  rw [if_neg apart]
  cases registers : system.registerAccess storage
      ⟨context.device, context.stream, write, context.capture.isSome⟩ with
  | error => exact refused
  | ok result =>
    obtain ⟨kept, released⟩ := registered result.1 result.2 registers
    dsimp only
    split
    · exact kept _
    · split_ifs
      · exact released
      · exact kept result.2.recorded

theorem Safe.retain (safe : system.Safe) (context : RetainContext) (storage : Nat) (write : Bool) :
    (system.retain context storage write).1.Safe := by
  refine retain_cases Safe safe fun id after registers => ?_
  have registered := safe.registerAccess registers
  exact ⟨fun _ => registered, registered.releaseAccess storage id⟩

theorem Safe.retainForLaunch (safe : system.Safe) (context : RetainContext)
    (resource : ReplayResource) : (system.retainForLaunch context resource).1.Safe := by
  cases resource with
  | storage lease => exact safe.retain context lease.storage lease.write
  | function => exact safe

theorem Safe.dropAll (safe : system.Safe) (resources : List ReplayResource) :
    (resources.foldl dropResource system).Safe := by
  induction resources generalizing system with
  | nil => exact safe
  | cons resource _ induction =>
    refine induction ?_
    cases resource with
    | storage lease => exact safe.releaseAccess lease.storage lease.id
    | function => exact safe

/-- What `adopt_capture` does: it never indexes out of range, and what it keeps stands for
everything that was recorded. -/
theorem adoptCapture_eq_ok (system : GraphSystem) (capture : Nat) :
    ∃ (captured : Kept ReplayResource LiveAllocation) (dropped : List ReplayResource),
      captured.StandsFor ReplayResource.allocation ReplayResource.writes
        (system.recorded capture) ∧
      system.adoptCapture capture = .ok { dropped.foldl dropResource system with
        recorded := update system.recorded capture []
        graphs := system.graphs ++ [captured.items] } := by
  have none : (Kept.empty : Kept ReplayResource LiveAllocation).StandsFor
      ReplayResource.allocation ReplayResource.writes [] := .empty
  obtain ⟨captured, dropped, inserts, stands⟩ := none.insertAll (system.recorded capture)
  refine ⟨captured, dropped, stands, ?_⟩
  simp only [GraphSystem.adoptCapture, inserts, Fallible.ok_bind]
  rfl

theorem Safe.step {action : GraphAction} (safe : system.Safe)
    (taken : system.step action = some after) : after.Safe := by
  cases action with
  | retain context storage write =>
    cases taken
    exact safe.retain context storage write
  | recordFunction =>
    cases taken
    exact safe
  | releaseAccess storage id =>
    cases taken
    exact safe.releaseAccess storage id
  | adoptCapture capture =>
    obtain ⟨_, dropped, -, adopts⟩ := adoptCapture_eq_ok system capture
    rw [GraphSystem.step, adopts] at taken
    cases taken
    exact safe.dropAll dropped
  | retainForLaunch context =>
    rw [GraphSystem.step] at taken
    split at taken
    · cases taken
    · cases taken
      exact safe.retainForLaunch context _

theorem Safe.new (device : Nat → Nat) : (GraphSystem.new device).Safe := by
  nofun

/-! ## Replay sets -/

theorem graphs_retain (system : GraphSystem) (context : RetainContext) (storage : Nat)
    (write : Bool) : (system.retain context storage write).1.graphs = system.graphs := by
  refine retain_cases (fun after => after.graphs = system.graphs) rfl ?_
  intro _ _ registers
  unfold GraphSystem.registerAccess at registers
  split_ifs at registers
  cases registers
  exact ⟨fun _ => rfl, rfl⟩

theorem graphs_retainForLaunch (system : GraphSystem) (context : RetainContext)
    (resource : ReplayResource) :
    (system.retainForLaunch context resource).1.graphs = system.graphs := by
  cases resource with
  | storage lease => exact graphs_retain system context lease.storage lease.write
  | function => rfl

def Replays (graph : Nat) (captured : List ReplayResource) (system : GraphSystem) : Prop :=
  system.graphs[graph]? = some captured

theorem Replays.step {graph : Nat} {captured : List ReplayResource} {action : GraphAction}
    (holds : Replays graph captured system) (taken : system.step action = some after) :
    Replays graph captured after := by
  unfold Replays at holds ⊢
  cases action with
  | retain =>
    cases taken
    rw [graphs_retain]
    exact holds
  | recordFunction | releaseAccess =>
    cases taken
    exact holds
  | adoptCapture capture =>
    obtain ⟨_, _, -, adopts⟩ := adoptCapture_eq_ok system capture
    rw [GraphSystem.step, adopts] at taken
    cases taken
    have inside := (List.getElem?_eq_some_iff.mp holds).1
    dsimp only
    rw [List.getElem?_append_left inside]
    exact holds
  | retainForLaunch =>
    rw [GraphSystem.step] at taken
    split at taken
    · cases taken
    · cases taken
      rw [graphs_retainForLaunch]
      exact holds

theorem reachable_replay {context : RetainContext} {graph : Nat}
    {before resources : List ReplayResource}
    (holds : Replays graph (before ++ resources) system) :
    Reachable step system (replay context resources system).1 := by
  induction resources generalizing system before with
  | nil => exact ⟨[], rfl⟩
  | cons resource rest induction =>
    have found : system.graphs[graph]? >>= (·[before.length]?) = some resource := by
      rw [holds]
      simp
    have taken : system.step (.retainForLaunch context graph before.length) =
        some (system.retainForLaunch context resource).1 := by
      rw [GraphSystem.step, found]
    have first : Reachable step system (system.retainForLaunch context resource).1 :=
      ⟨[.retainForLaunch context graph before.length], by rw [execute, taken]; rfl⟩
    rw [replay]
    cases result : system.retainForLaunch context resource with
    | mk next outcome =>
      rw [result] at first
      cases outcome with
      | error => exact first
      | ok =>
        have kept : Replays graph ((before ++ [resource]) ++ rest) next := by
          have same := graphs_retainForLaunch system context resource
          rw [result] at same
          rw [Replays, same, holds, List.append_assoc]
          rfl
        obtain ⟨_, runs⟩ := induction kept
        exact first.extend runs

/-- In every state of the process, and after any launch of a graph there, accesses in
flight on different streams are reads. Adopting a capture gives a replay set, the same ever after,
with one resource for each recorded storage, which writes exactly when some recorded
access to it did. -/
theorem accesses_compatible_and_replay_exact (device : Nat → Nat) (system : GraphSystem)
    (reached : Reachable step (GraphSystem.new device) system) :
    (∀ storage, Compatible (system.accesses storage)) ∧
      (∀ context (graph : Nat) captured, system.graphs[graph]? = some captured → ∀ storage,
        Compatible ((replay context captured system).1.accesses storage)) ∧
      ∀ capture, ∃ after captured, system.step (.adoptCapture capture) = some after ∧
        (∀ later, Reachable step after later →
          later.graphs[system.graphs.length]? = some captured) ∧
        ∀ storage,
          (∀ resource ∈ system.recorded capture, resource.allocation ≠ .storage storage) ∧
              captured.filter (·.allocation = .storage storage) = [] ∨
            (∃ resource ∈ system.recorded capture, resource.allocation = .storage storage) ∧
              ∃ resource, captured.filter (·.allocation = .storage storage) = [resource] ∧
                (resource.writes = true ↔ ∃ other ∈ system.recorded capture,
                  other.allocation = .storage storage ∧ other.writes = true) := by
  have safe : system.Safe := reached.invariant (Safe.new device) Safe.step
  refine ⟨safe, fun context graph captured holds => ?_, fun capture => ?_⟩
  · have replayed : (replay context captured system).1.Safe :=
      (reachable_replay (show Replays graph ([] ++ captured) system from holds)).invariant safe
        Safe.step
    exact replayed
  obtain ⟨kept, dropped, stands, adopts⟩ := adoptCapture_eq_ok system capture
  refine ⟨_, kept.items, by rw [GraphSystem.step, adopts]; rfl, fun later follows => ?_,
    fun storage => stands.filter (.storage storage)⟩
  have adopted : Replays system.graphs.length kept.items
      { dropped.foldl dropResource system with
        recorded := update system.recorded capture []
        graphs := system.graphs ++ [kept.items] } := List.getElem?_concat_length ..
  have frozen : Replays system.graphs.length kept.items later :=
    follows.invariant adopted Replays.step
  exact frozen

/-- Two reads and a write recorded on one stream, while another storage is read. -/
theorem accesses_compatible_and_replay_exact_capture :
    let context : RetainContext := ⟨0, 7, some 0, false⟩
    ∃ system, execute step (GraphSystem.new fun _ => 0)
        [.retain context 1 false, .retain context 2 false, .retain context 1 true] =
          some system ∧
      (∀ storage, Compatible (system.accesses storage)) ∧
      ∃ after, system.step (.adoptCapture 0) = some after ∧
        after.graphs = [[.storage ⟨1, 3, true⟩, .storage ⟨2, 2, false⟩]] := by
  intro context
  obtain ⟨system, runs⟩ : ∃ system, execute step (GraphSystem.new fun _ => 0)
      [.retain context 1 false, .retain context 2 false, .retain context 1 true] = some system :=
    ⟨_, rfl⟩
  refine ⟨system, runs,
    (accesses_compatible_and_replay_exact (fun _ => 0) system ⟨_, runs⟩).1, ?_⟩
  cases runs
  exact ⟨_, rfl, by decide⟩

end GraphSystem

end CuTile
