import CuTile.Foundation.Interleaving
import Mathlib.Data.List.Perm.Basic

/-! # Uniqueness of a tensor's storage

`Storage` with its reference count and its list of in-flight accesses. Retaining appends
an access and then clones the `Arc` into a lease; releasing removes the access and then
drops the lease's `Arc`. `is_unique` takes the difference of the two quantities for the
number of user-visible tensors.
-/

namespace CuTile

open List

structure StorageAccess where
  id : Nat
  stream : Nat
  write : Bool
  recording : Bool
deriving DecidableEq, Repr

/-- What `Storage::retain` reads of its execution context and argument. -/
structure AccessRequest where
  device : Nat
  stream : Nat
  write : Bool
  recording : Bool
deriving DecidableEq, Repr

/-- A storage and who holds its `Arc`: `handles` counts the user-visible tensors; the
other holders are listed by the id of their access, the retains that have appended their
access and not cloned the `Arc` yet, the leases, and the leases that have removed their
access and not dropped the `Arc` yet. -/
structure StorageSystem where
  device : Nat
  accesses : List StorageAccess
  nextId : Nat
  strongCount : Nat
  handles : Nat
  retaining : List Nat
  leases : List Nat
  releasing : List Nat
deriving DecidableEq, Repr

inductive StorageAction where
  | cloneHandle
  | dropHandle
  /-- `register_access`, under the lock. -/
  | registerAccess (request : AccessRequest)
  /-- The retain with this access id clones the `Arc` into its lease. -/
  | cloneArc (id : Nat)
  /-- `release_access`, under the lock. -/
  | releaseAccess (id : Nat)
  | dropArc (id : Nat)
deriving DecidableEq, Repr

namespace StorageSystem

def new (device : Nat) : StorageSystem where
  device := device
  accesses := []
  nextId := 1
  strongCount := 1
  handles := 1
  retaining := []
  leases := []
  releasing := []

/-- An in-flight access on another stream that the request must not overlap. -/
def conflicts (request : AccessRequest) (access : StorageAccess) : Bool :=
  !access.recording && access.stream != request.stream && (request.write || access.write)

/-- The first part of `retain`: the access id, and the storage with the access appended. -/
def registerAccess (system : StorageSystem) (request : AccessRequest) :
    Except String StorageSystem :=
  if system.device ≠ request.device then
    .error "tensor and execution stream are on different devices"
  else if !request.recording && system.accesses.any (conflicts request) then
    .error "tensor has a conflicting in-flight access on another stream; await its operation before reusing it"
  else
    .ok { system with
      accesses := system.accesses ++
        [⟨system.nextId, request.stream, request.write, request.recording⟩]
      nextId := system.nextId + 1
      retaining := system.nextId :: system.retaining }

/-- `swap_remove` also reorders the list, which nothing observes. -/
def removeAccess (system : StorageSystem) (id : Nat) : List StorageAccess :=
  system.accesses.eraseP fun access => access.id == id

def isUnique (system : StorageSystem) : Bool :=
  system.strongCount == 1 + system.accesses.length

def step (system : StorageSystem) : StorageAction → Option StorageSystem
  | .cloneHandle =>
    if system.handles = 0 then none
    else some { system with
      handles := system.handles + 1, strongCount := system.strongCount + 1 }
  | .dropHandle =>
    if system.handles = 0 then none
    else some { system with
      handles := system.handles - 1, strongCount := system.strongCount - 1 }
  | .registerAccess request =>
    match system.registerAccess request with
    | .error _ => some system
    | .ok registered => some registered
  | .cloneArc id =>
    if id ∈ system.retaining then
      some { system with
        retaining := system.retaining.erase id
        leases := id :: system.leases
        strongCount := system.strongCount + 1 }
    else none
  | .releaseAccess id =>
    if id ∈ system.leases then
      some { system with
        accesses := system.removeAccess id
        leases := system.leases.erase id
        releasing := id :: system.releasing }
    else none
  | .dropArc id =>
    if id ∈ system.releasing then
      some { system with
        releasing := system.releasing.erase id
        strongCount := system.strongCount - 1 }
    else none

/-! ## The two quantities -/

structure Invariant (system : StorageSystem) : Prop where
  strong : system.strongCount =
    system.handles + system.leases.length + system.releasing.length
  accesses : (system.accesses.map StorageAccess.id).Perm (system.retaining ++ system.leases)

variable {system after : StorageSystem}

theorem Invariant.new (device : Nat) : (StorageSystem.new device).Invariant :=
  ⟨rfl, .refl _⟩

theorem map_id_removeAccess (system : StorageSystem) (id : Nat) :
    (system.removeAccess id).map StorageAccess.id =
      (system.accesses.map StorageAccess.id).erase id := by
  rw [erase_eq_eraseP', eraseP_map]
  rfl

theorem Invariant.registerAccess {request : AccessRequest} (invariant : system.Invariant)
    (registers : system.registerAccess request = .ok after) : after.Invariant := by
  unfold StorageSystem.registerAccess at registers
  split_ifs at registers
  cases registers
  refine ⟨invariant.strong, ?_⟩
  rw [map_append, cons_append]
  exact perm_append_singleton _ _ |>.trans (invariant.accesses.cons _)

theorem Invariant.step {action : StorageAction} (invariant : system.Invariant)
    (taken : system.step action = some after) : after.Invariant := by
  have strong := invariant.strong
  cases action <;> simp only [StorageSystem.step] at taken
  case registerAccess request =>
    split at taken
    · cases taken
      exact invariant
    · cases taken
      exact invariant.registerAccess ‹_›
  case cloneHandle | dropHandle =>
    split_ifs at taken
    cases taken
    exact ⟨by simp only; omega, invariant.accesses⟩
  case cloneArc id =>
    split_ifs at taken with member
    cases taken
    refine ⟨by simp only [length_cons]; omega, invariant.accesses.trans ?_⟩
    have moved : (system.retaining ++ system.leases).Perm
        (id :: (system.retaining.erase id ++ system.leases)) :=
      (perm_cons_erase member).append_right _
    exact moved.trans perm_middle.symm
  case releaseAccess id =>
    split_ifs at taken with member
    cases taken
    have length := length_erase_of_mem member
    have positive := length_pos_of_mem member
    refine ⟨by simp only [length_cons]; omega, ?_⟩
    rw [map_id_removeAccess]
    apply (invariant.accesses.erase id).trans
    apply (perm_append_comm.erase id).trans
    rw [erase_append_left _ member]
    exact perm_append_comm
  case dropArc id =>
    split_ifs at taken with member
    cases taken
    have length := length_erase_of_mem member
    have positive := length_pos_of_mem member
    exact ⟨by simp only; omega, invariant.accesses⟩

/-- What `is_unique` really tests. -/
theorem Invariant.isUnique_iff (invariant : system.Invariant) :
    system.isUnique = true ↔
      system.handles + system.releasing.length = 1 + system.retaining.length := by
  have strong := invariant.strong
  have accesses := invariant.accesses.length_eq
  simp only [length_map, length_append] at accesses
  rw [isUnique, beq_iff_eq]
  omega

/-! ## Retains between their two steps -/

/-- One more tensor appears, and its owner takes the first step of a `retain`. -/
theorem execute_retain {system : StorageSystem}
    (streams : ∀ access ∈ system.accesses, access.stream = 0) (handles : 0 < system.handles) :
    execute step system [.cloneHandle, .registerAccess ⟨system.device, 0, false, false⟩] =
      some { system with
        accesses := system.accesses ++ [⟨system.nextId, 0, false, false⟩]
        nextId := system.nextId + 1
        strongCount := system.strongCount + 1
        handles := system.handles + 1
        retaining := system.nextId :: system.retaining } := by
  have quiet : system.accesses.any (conflicts ⟨system.device, 0, false, false⟩) = false := by
    rw [any_eq_false]
    intro access member
    simp [conflicts, streams access member]
  have held : system.handles ≠ 0 := Nat.pos_iff_ne_zero.mp handles
  simp only [execute, step, held, if_false, Option.bind_some, registerAccess, ne_eq,
    not_true_eq_false, quiet, Bool.and_false, Bool.false_eq_true]

/-- As many tensors as wanted, of which all but one are between the two steps of `retain`. -/
theorem exists_retaining (device count : Nat) :
    ∃ system, Reachable step (StorageSystem.new device) system ∧
      (∀ access ∈ system.accesses, access.stream = 0) ∧ system.handles = count + 1 ∧
      system.retaining.length = count ∧ system.releasing = [] := by
  induction count with
  | zero => exact ⟨_, ⟨[], rfl⟩, by simp [StorageSystem.new], rfl, rfl, rfl⟩
  | succ count induction =>
    rcases induction with ⟨system, reached, streams, handles, retaining, releasing⟩
    refine ⟨_, reached.extend (execute_retain streams (by omega)), ?_, ?_, ?_, releasing⟩
    · intro access member
      rcases mem_append.mp member with earlier | added
      · exact streams access earlier
      · rw [mem_singleton.mp added]
    · exact congrArg (· + 1) handles
    · exact congrArg (· + 1) retaining

/-- Every successful uniqueness check finds a single tensor exactly when no retain stands
between appending its access and cloning the `Arc`. -/
theorem isUnique_sound_iff (device count : Nat) :
    (∀ system, Reachable step (StorageSystem.new device) system →
        system.retaining.length = count → 0 < system.handles → system.isUnique = true →
        system.handles = 1) ↔
      count = 0 := by
  constructor
  · intro sound
    rcases exists_retaining device count with
      ⟨system, reached, _, handles, retaining, releasing⟩
    have invariant := reached.invariant (Invariant.new device) Invariant.step
    have unique : system.isUnique = true := by
      rw [invariant.isUnique_iff, releasing, length_nil]
      omega
    have single := sound system reached retaining (by omega) unique
    omega
  · rintro rfl system reached none positive unique
    have invariant := reached.invariant (Invariant.new device) Invariant.step
    rw [invariant.isUnique_iff] at unique
    omega

/-- One tensor's retain has appended its access when the other tensor is checked. -/
theorem isUnique_overlooks : ∃ system,
    execute step (StorageSystem.new 0) [.cloneHandle, .registerAccess ⟨0, 0, false, false⟩] =
        some system ∧
      system.isUnique = true ∧ system.handles = 2 :=
  ⟨_, rfl, by decide, rfl⟩

end StorageSystem

end CuTile
