import CuTile.Foundation.Interleaving
import CuTile.Foundation.Ownership

/-! # Single-flight compilation

`compile_from_context` for one key of the kernel cache, by any number of threads. The map
operations are atomic, and so is entering and leaving the `OnceCell`: one initialiser at a
time, and after a failure any of the waiting threads is next. A slot is an `Arc` of the cell,
and a failing call removes the entry only when the map's `Arc` is the last one.
-/

namespace CuTile

open Function Option

/-- `cell.get()` of a cell that is being initialised finds nothing. -/
inductive OnceCell (Kernel : Type*) where
  | empty
  | running
  | ready (kernel : Kernel)

def OnceCell.get {Kernel : Type*} : OnceCell Kernel → Option Kernel
  | .ready kernel => some kernel
  | _ => none

/-- Where a call stands; `returned none` is an error. -/
inductive CallPhase (Kernel : Type*) where
  | idle
  /-- `get` found no entry, `entry` comes next. -/
  | missed
  | waiting (cell : Nat)
  | compiling (cell : Nat)
  | succeeded (cell : Nat) (kernel : Kernel)
  | failed (cell : Nat)
  /-- The slot is dropped, `remove_if` comes next. -/
  | dropped
  | returned (result : Option Kernel)

namespace CallPhase

variable {Kernel : Type*}

def slot : CallPhase Kernel → Option Nat
  | .waiting cell | .compiling cell | .succeeded cell _ | .failed cell => some cell
  | _ => none

def kernel : CallPhase Kernel → Option Kernel
  | .succeeded _ kernel | .returned (some kernel) => some kernel
  | _ => none

end CallPhase

/-- The cache as far as one key is concerned. Cells are numbered in the order of their
allocation; `jitCompiles` counts what `record_jit_compile` counts. -/
structure KernelSlot (Kernel : Type*) where
  entry : Option Nat
  cells : Nat → OnceCell Kernel
  strongCount : Nat → Nat
  nextCell : Nat
  calls : Nat → CallPhase Kernel
  jitCompiles : Nat

inductive CallAction (Kernel : Type*) where
  | get (thread : Nat)
  | orInsertWith (thread : Nat)
  /-- The thread enters the cell, which blocks while another one initialises it. -/
  | getOrTryInit (thread : Nat)
  | finishCompile (thread : Nat) (outcome : Option Kernel)
  | dropSlot (thread : Nat)
  | removeIf (thread : Nat)
  /-- The successful call returns, which drops its slot. -/
  | returnKernel (thread : Nat)

def CallAction.thread {Kernel : Type*} : CallAction Kernel → Nat
  | .get thread | .orInsertWith thread | .getOrTryInit thread | .finishCompile thread _
  | .dropSlot thread | .removeIf thread | .returnKernel thread => thread

namespace KernelSlot

variable {Kernel : Type*}

def new : KernelSlot Kernel where
  entry := none
  cells := fun _ => .empty
  strongCount := fun _ => 0
  nextCell := 0
  calls := fun _ => .idle
  jitCompiles := 0

@[simps]
def setCall (cache : KernelSlot Kernel) (thread : Nat) (phase : CallPhase Kernel) :
    KernelSlot Kernel :=
  { cache with calls := Function.update cache.calls thread phase }

@[simps]
def setCell (cache : KernelSlot Kernel) (cell : Nat) (content : OnceCell Kernel) :
    KernelSlot Kernel :=
  { cache with cells := Function.update cache.cells cell content }

@[simps]
def setStrong (cache : KernelSlot Kernel) (cell count : Nat) : KernelSlot Kernel :=
  { cache with strongCount := Function.update cache.strongCount cell count }

def cloneSlot (cache : KernelSlot Kernel) (thread cell : Nat) : KernelSlot Kernel :=
  (cache.setStrong cell (cache.strongCount cell + 1)).setCall thread (.waiting cell)

/-- The slot's `Arc` goes and the call goes on. -/
def releaseSlot (cache : KernelSlot Kernel) (thread cell : Nat) (phase : CallPhase Kernel) :
    KernelSlot Kernel :=
  (cache.setStrong cell (cache.strongCount cell - 1)).setCall thread phase

/-- A new cell, with one `Arc` in the map and one in the slot. -/
def insertSlot (cache : KernelSlot Kernel) (thread : Nat) : KernelSlot Kernel :=
  { (((cache.setCell cache.nextCell .empty).setStrong cache.nextCell 2).setCall thread
      (.waiting cache.nextCell)) with
    entry := some cache.nextCell
    nextCell := cache.nextCell + 1 }

/-- The entry goes when its cell is empty and nobody else holds it. -/
def removable (cache : KernelSlot Kernel) (cell : Nat) : Bool :=
  (cache.cells cell).get.isNone && cache.strongCount cell == 1

def step (cache : KernelSlot Kernel) : CallAction Kernel → Option (KernelSlot Kernel)
  | .get thread =>
    match cache.calls thread with
    | .idle =>
      match cache.entry with
      | some cell => some (cache.cloneSlot thread cell)
      | none => some (cache.setCall thread .missed)
    | _ => none
  | .orInsertWith thread =>
    match cache.calls thread with
    | .missed =>
      match cache.entry with
      | some cell => some (cache.cloneSlot thread cell)
      | none => some (cache.insertSlot thread)
    | _ => none
  | .getOrTryInit thread =>
    match cache.calls thread with
    | .waiting cell =>
      match cache.cells cell with
      | .empty => some ((cache.setCell cell .running).setCall thread (.compiling cell))
      | .running => none
      | .ready kernel => some (cache.setCall thread (.succeeded cell kernel))
    | _ => none
  | .finishCompile thread outcome =>
    match cache.calls thread with
    | .compiling cell =>
      match outcome with
      | some kernel =>
        some { ((cache.setCell cell (.ready kernel)).setCall thread (.succeeded cell kernel)) with
          jitCompiles := cache.jitCompiles + 1 }
      | none => some ((cache.setCell cell .empty).setCall thread (.failed cell))
    | _ => none
  | .dropSlot thread =>
    match cache.calls thread with
    | .failed cell => some (cache.releaseSlot thread cell .dropped)
    | _ => none
  | .removeIf thread =>
    match cache.calls thread with
    | .dropped =>
      match cache.entry with
      | some cell =>
        if cache.removable cell then
          some ({ cache with entry := none }.releaseSlot thread cell (.returned none))
        else some (cache.setCall thread (.returned none))
      | none => some (cache.setCall thread (.returned none))
    | _ => none
  | .returnKernel thread =>
    match cache.calls thread with
    | .succeeded cell kernel => some (cache.releaseSlot thread cell (.returned (some kernel)))
    | _ => none

/-! ## What one step can do -/

/-- The transitions, with what each of them finds. -/
inductive Moves (cache : KernelSlot Kernel) : KernelSlot Kernel → Prop
  | miss {thread : Nat} (phase : cache.calls thread = .idle) (absent : cache.entry = none) :
      Moves cache (cache.setCall thread .missed)
  | clone {thread cell : Nat} (phase : cache.calls thread = .idle ∨ cache.calls thread = .missed)
      (present : cache.entry = some cell) : Moves cache (cache.cloneSlot thread cell)
  | insert {thread : Nat} (phase : cache.calls thread = .missed) (absent : cache.entry = none) :
      Moves cache (cache.insertSlot thread)
  | compile {thread cell : Nat} (phase : cache.calls thread = .waiting cell)
      (empty : cache.cells cell = .empty) :
      Moves cache ((cache.setCell cell .running).setCall thread (.compiling cell))
  | share {thread cell : Nat} {kernel : Kernel} (phase : cache.calls thread = .waiting cell)
      (ready : cache.cells cell = .ready kernel) :
      Moves cache (cache.setCall thread (.succeeded cell kernel))
  | publish {thread cell : Nat} (phase : cache.calls thread = .compiling cell)
      (kernel : Kernel) :
      Moves cache { (cache.setCell cell (.ready kernel)).setCall thread (.succeeded cell kernel)
        with jitCompiles := cache.jitCompiles + 1 }
  | fail {thread cell : Nat} (phase : cache.calls thread = .compiling cell) :
      Moves cache ((cache.setCell cell .empty).setCall thread (.failed cell))
  | drop {thread cell : Nat} (phase : cache.calls thread = .failed cell) :
      Moves cache (cache.releaseSlot thread cell .dropped)
  | keep {thread : Nat} (phase : cache.calls thread = .dropped)
      (needed : ∀ cell, cache.entry = some cell → cache.removable cell = false) :
      Moves cache (cache.setCall thread (.returned none))
  | remove {thread cell : Nat} (phase : cache.calls thread = .dropped)
      (present : cache.entry = some cell) (removable : cache.removable cell = true) :
      Moves cache ({ cache with entry := none }.releaseSlot thread cell (.returned none))
  | finish {thread cell : Nat} {kernel : Kernel}
      (phase : cache.calls thread = .succeeded cell kernel) :
      Moves cache (cache.releaseSlot thread cell (.returned (some kernel)))

variable {cache after : KernelSlot Kernel}

variable {action : CallAction Kernel}

theorem moves_of_step (taken : cache.step action = some after) : cache.Moves after := by
  cases action <;> simp only [step] at taken
  case get thread =>
    split at taken
    · split at taken <;> cases taken
      · exact .clone (.inl ‹_›) ‹_›
      · exact .miss ‹_› ‹_›
    · cases taken
  case orInsertWith thread =>
    split at taken
    · split at taken <;> cases taken
      · exact .clone (.inr ‹_›) ‹_›
      · exact .insert ‹_› ‹_›
    · cases taken
  case getOrTryInit thread =>
    split at taken
    · split at taken <;> cases taken
      · exact .compile ‹_› ‹_›
      · exact .share ‹_› ‹_›
    · cases taken
  case finishCompile thread outcome =>
    split at taken
    · split at taken <;> cases taken
      · exact .publish ‹_› _
      · exact .fail ‹_›
    · cases taken
  case dropSlot thread =>
    split at taken <;> cases taken
    exact .drop ‹_›
  case removeIf thread =>
    split at taken
    · split at taken
      · rename_i cell present
        split_ifs at taken with removable <;> cases taken
        · exact .remove ‹_› present removable
        · refine .keep ‹_› fun other isEntry => ?_
          rw [← some_inj.mp (present.symm.trans isEntry)]
          exact Bool.eq_false_iff.mpr removable
      · rename_i absent
        cases taken
        refine .keep ‹_› fun cell isEntry => ?_
        rw [absent] at isEntry
        cases isEntry
    · cases taken
  case returnKernel thread =>
    split at taken <;> cases taken
    exact .finish ‹_›

/-! ## Who holds the slot -/

def slots (cache : KernelSlot Kernel) (thread : Nat) : Option Nat :=
  (cache.calls thread).slot

/-- Every slot in a call's hands is the entry's, and the entry's `Arc`s are counted: one in
the map and one for each of those calls. -/
structure Held (cache : KernelSlot Kernel) : Prop where
  entry : ∀ {thread cell}, cache.slots thread = some cell → cache.entry = some cell
  counts : ∀ {cell}, cache.entry = some cell →
    ∃ count, Counts cache.slots (some cell) count ∧ cache.strongCount cell = count + 1

structure Exclusive (cache : KernelSlot Kernel) : Prop where
  running : ∀ {thread cell}, cache.calls thread = .compiling cell → cache.cells cell = .running
  unique : ∀ {first second cell}, cache.calls first = .compiling cell →
    cache.calls second = .compiling cell → first = second

/-- Either nothing has been compiled, or the entry's cell holds the one kernel that has
been, which is the one that calls are given. -/
inductive Outcome (cache : KernelSlot Kernel) : Prop
  | nothing (compiles : cache.jitCompiles = 0)
      (calls : ∀ thread, (cache.calls thread).kernel = none)
      (cells : ∀ cell, cache.entry = some cell → (cache.cells cell).get = none)
  | compiled (cell : Nat) (kernel : Kernel) (compiles : cache.jitCompiles = 1)
      (entry : cache.entry = some cell) (cells : cache.cells cell = .ready kernel)
      (calls : ∀ thread given, (cache.calls thread).kernel = some given → given = kernel)
      (given : ∃ thread, (cache.calls thread).kernel = some kernel)

/-- An entry without a kernel has a call that will fill it or try to remove it. -/
def Owed (cache : KernelSlot Kernel) : Prop :=
  ∀ cell, cache.entry = some cell → (cache.cells cell).get = none →
    ∃ thread, cache.slots thread = some cell ∨ cache.calls thread = .dropped

@[simp] theorem slots_setCall (cache : KernelSlot Kernel) (thread : Nat)
    (phase : CallPhase Kernel) :
    (cache.setCall thread phase).slots = update cache.slots thread phase.slot :=
  comp_update CallPhase.slot cache.calls thread phase

variable {thread : Nat} {phase : CallPhase Kernel}

theorem Held.frame (held : cache.Held) (same : cache.slots thread = phase.slot)
    (entry : after.entry = cache.entry) (strong : after.strongCount = cache.strongCount)
    (slots : after.slots = update cache.slots thread phase.slot) : after.Held := by
  rw [← same, update_eq_self] at slots
  refine ⟨fun holds => ?_, fun isEntry => ?_⟩
  · rw [slots] at holds
    rw [entry]
    exact held.entry holds
  · rw [entry] at isEntry
    rw [slots, strong]
    exact held.counts isEntry

variable {cell : Nat}

theorem Held.cloneSlot (held : cache.Held) (free : cache.slots thread = none)
    (present : cache.entry = some cell) : (cache.cloneSlot thread cell).Held := by
  refine ⟨fun {other place} holds => ?_, fun {place} isEntry => ?_⟩
  · rw [KernelSlot.cloneSlot, slots_setCall] at holds
    rcases update_cases (· = some place) holds with ⟨-, now⟩ | ⟨-, before⟩
    · exact present.trans now
    · exact held.entry before
  · have isCell : place = cell := some_inj.mp (isEntry.symm.trans present)
    rcases held.counts present with ⟨count, counts, strong⟩
    refine ⟨count + 1, ?_, ?_⟩
    · rw [KernelSlot.cloneSlot, slots_setCall, isCell]
      exact counts.enter (by rw [free]; simp)
    · simp [KernelSlot.cloneSlot, isCell, strong]

theorem Held.insertSlot (held : cache.Held) (absent : cache.entry = none) :
    (cache.insertSlot thread).Held := by
  have nobody : ∀ other place, cache.slots other ≠ some place := fun other place holds => by
    have present := held.entry holds
    rw [absent] at present
    cases present
  have slots : (cache.insertSlot thread).slots =
      update cache.slots thread (some cache.nextCell) :=
    slots_setCall ((cache.setCell cache.nextCell .empty).setStrong cache.nextCell 2) thread
      (.waiting cache.nextCell)
  refine ⟨fun {other place} holds => ?_, fun {place} isEntry => ?_⟩
  · rw [slots] at holds
    rcases update_cases (· = some place) holds with ⟨-, now⟩ | ⟨-, before⟩
    · exact now
    · exact absurd before (nobody other place)
  · cases isEntry
    refine ⟨1, ?_, by simp [KernelSlot.insertSlot]⟩
    rw [slots]
    exact (Counts.none fun other => nobody other _).enter (nobody thread _)

theorem Held.releaseSlot (held : cache.Held) (holds : cache.slots thread = some cell)
    (gone : phase.slot = none) : (cache.releaseSlot thread cell phase).Held := by
  have present := held.entry holds
  refine ⟨fun {other place} holds => ?_, fun {place} isEntry => ?_⟩
  · rw [KernelSlot.releaseSlot, slots_setCall, gone] at holds
    exact held.entry (of_update_eq holds (by simp))
  · have isCell : place = cell := some_inj.mp (isEntry.symm.trans present)
    rcases held.counts present with ⟨count, counts, strong⟩
    have positive := counts.positive holds
    refine ⟨count - 1, ?_, ?_⟩
    · rw [KernelSlot.releaseSlot, slots_setCall, isCell]
      exact counts.leave holds (by rw [gone]; simp)
    · simp only [KernelSlot.releaseSlot, setCall_strongCount, setStrong_strongCount, isCell,
        update_self]
      omega

theorem Held.nobody (held : cache.Held) (present : cache.entry = some cell)
    (last : cache.strongCount cell = 1) (thread : Nat) (place : Nat) :
    cache.slots thread ≠ some place := by
  intro holds
  rcases held.counts present with ⟨count, counts, strong⟩
  have isEntry := held.entry holds
  rw [some_inj.mp (isEntry.symm.trans present)] at holds
  have positive := counts.positive holds
  omega

theorem removable_iff : cache.removable cell = true ↔
    (cache.cells cell).get = none ∧ cache.strongCount cell = 1 := by
  simp [removable]

theorem Held.step (held : cache.Held) (moves : cache.Moves after) : after.Held := by
  have slot : ∀ {thread : Nat} {phase}, cache.calls thread = phase →
      cache.slots thread = phase.slot := fun is => congrArg CallPhase.slot is
  cases moves with
  | miss phase | share phase | keep phase =>
    exact held.frame (slot phase) rfl rfl (slots_setCall ..)
  | compile phase | fail phase =>
    exact held.frame (slot phase) rfl rfl (slots_setCall (cache.setCell _ _) ..)
  | publish phase kernel =>
    exact held.frame (slot phase) rfl rfl (slots_setCall (cache.setCell _ (.ready kernel)) ..)
  | clone phase present =>
    exact held.cloneSlot (phase.elim slot slot) present
  | insert _ absent => exact held.insertSlot absent
  | drop phase | finish phase => exact held.releaseSlot (slot phase) rfl
  | @remove _ _ _ present removable =>
    have nobody := held.nobody present (removable_iff.mp removable).2
    refine ⟨fun {other place} holds => ?_, nofun⟩
    rw [KernelSlot.releaseSlot, slots_setCall] at holds
    exact absurd (of_update_eq holds (by simp [CallPhase.slot])) (nobody other place)

/-! ## One initialiser -/

/-- A step that leaves the contents alone and starts no compilation. -/
theorem Exclusive.frame (exclusive : cache.Exclusive) (calm : ∀ cell, phase ≠ .compiling cell)
    (calls : after.calls = update cache.calls thread phase)
    (cells : ∀ {other cell}, cache.calls other = .compiling cell →
      after.calls other = .compiling cell → after.cells cell = cache.cells cell) :
    after.Exclusive := by
  have before : ∀ {other cell}, after.calls other = .compiling cell →
      cache.calls other = .compiling cell := by
    intro _ cell compiles
    rw [calls] at compiles
    exact of_update_eq compiles (calm cell)
  refine ⟨fun compiles => ?_, fun first second => exclusive.unique (before first) (before second)⟩
  rw [cells (before compiles) compiles]
  exact exclusive.running (before compiles)

theorem Exclusive.compile (exclusive : cache.Exclusive) (empty : cache.cells cell = .empty) :
    ((cache.setCell cell .running).setCall thread (.compiling cell)).Exclusive := by
  have idle : ∀ other, cache.calls other ≠ .compiling cell := by
    intro _ compiles
    have running := exclusive.running compiles
    rw [empty] at running
    cases running
  have other : ∀ {another place}, another ≠ thread →
      (update cache.calls thread (.compiling cell)) another = .compiling place →
      cache.calls another = .compiling place ∧ place ≠ cell := by
    intro another _ different compiles
    rw [update_of_ne different] at compiles
    exact ⟨compiles, fun same => idle another (same ▸ compiles)⟩
  constructor
  · intro another place compiles
    by_cases same : another = thread
    · rw [setCall_calls, same, update_self] at compiles
      cases compiles
      exact update_self ..
    · rcases other same compiles with ⟨before, different⟩
      simp only [setCall_cells, setCell_cells, update_of_ne different]
      exact exclusive.running before
  · intro first second place firstCompiles secondCompiles
    by_cases isFirst : first = thread <;> by_cases isSecond : second = thread
    · exact isFirst.trans isSecond.symm
    · rw [setCall_calls, isFirst, update_self] at firstCompiles
      cases firstCompiles
      exact absurd rfl (other isSecond secondCompiles).2
    · rw [setCall_calls, isSecond, update_self] at secondCompiles
      cases secondCompiles
      exact absurd rfl (other isFirst firstCompiles).2
    · exact exclusive.unique (other isFirst firstCompiles).1 (other isSecond secondCompiles).1

theorem Exclusive.step (exclusive : cache.Exclusive) (held : cache.Held)
    (moves : cache.Moves after) : after.Exclusive := by
  cases moves with
  | miss | clone | share | drop | keep | remove | finish =>
    exact exclusive.frame (by simp) rfl fun _ _ => rfl
  | compile _ empty => exact exclusive.compile empty
  | @insert _ _ absent =>
    refine exclusive.frame (by simp) rfl fun {other cell} compiles _ => ?_
    -- Without an entry nobody is in a cell.
    have present := held.entry (congrArg CallPhase.slot compiles)
    rw [absent] at present
    cases present
  | @publish _ cell phase | @fail _ cell phase =>
    refine exclusive.frame (by simp) rfl fun {other place} compiles still => ?_
    have different : place ≠ cell := by
      rintro rfl
      have same := exclusive.unique compiles phase
      simp [same] at still
    exact update_of_ne different _ _

/-! ## The one kernel -/

/-- What a call is given after a step is what it had, or what the step gives it. -/
theorem kernel_update {calls : Nat → CallPhase Kernel} {other : Nat} {given : Kernel}
    (gives : (update calls thread phase other).kernel = some given) :
    (calls other).kernel = some given ∨ phase.kernel = some given :=
  (update_cases (CallPhase.kernel · = some given) gives).symm.imp And.right And.right

variable {kernel : Kernel}

theorem kernel_step (moves : cache.Moves after)
    (gives : (cache.calls thread).kernel = some kernel) :
    (after.calls thread).kernel = some kernel := by
  have kept : ∀ {mover : Nat} {before phase : CallPhase Kernel}, cache.calls mover = before →
      (before.kernel = some kernel → phase.kernel = some kernel) →
      (update cache.calls mover phase thread).kernel = some kernel := by
    intro _ _ _ is keeps
    rw [update_apply]
    split_ifs with same
    · exact keeps (by rw [← is, ← same]; exact gives)
    · exact gives
  cases moves with
  | clone phase =>
    rcases phase with phase | phase
    · exact kept phase (by simp [CallPhase.kernel])
    · exact kept phase (by simp [CallPhase.kernel])
  | miss phase | insert phase | compile phase | share phase | publish phase | fail phase
  | drop phase | keep phase | remove phase | finish phase =>
    exact kept phase (by simp [CallPhase.kernel])

/-- A step that gives no kernel leaves the cache without one. -/
theorem Outcome.frameNothing (calls : ∀ thread, (cache.calls thread).kernel = none)
    (nothing : phase.kernel = none) (compiles : after.jitCompiles = 0)
    (updated : after.calls = update cache.calls thread phase)
    (cells : ∀ cell, after.entry = some cell → (after.cells cell).get = none) : after.Outcome := by
  refine .nothing compiles (fun other => eq_none_iff_forall_ne_some.mpr ?_) cells
  intro _ gives
  rw [updated] at gives
  rcases kernel_update gives with before | now
  · rw [calls other] at before
    cases before
  · rw [nothing] at now
    cases now

/-- A step that keeps the entry and its cell gives the kernel there or none. -/
theorem Outcome.frameCompiled
    (calls : ∀ thread given, (cache.calls thread).kernel = some given → given = kernel)
    (gives : ∀ given, phase.kernel = some given → given = kernel)
    (compiles : after.jitCompiles = 1) (entry : after.entry = some cell)
    (cells : after.cells cell = .ready kernel)
    (updated : after.calls = update cache.calls thread phase)
    (given : ∃ thread, (after.calls thread).kernel = some kernel) : after.Outcome := by
  refine .compiled cell kernel compiles entry cells (fun other gets isGiven => ?_) given
  rw [updated] at isGiven
  exact (kernel_update isGiven).elim (calls other gets) (gives gets)

theorem Outcome.step (outcome : cache.Outcome) (held : cache.Held) (exclusive : cache.Exclusive)
    (moves : cache.Moves after) : after.Outcome := by
  have entered : ∀ {thread cell : Nat} {phase : CallPhase Kernel}, cache.calls thread = phase →
      phase.slot = some cell → cache.entry = some cell :=
    fun is holds => held.entry ((congrArg CallPhase.slot is).trans holds)
  rcases outcome with ⟨compiles, calls, cells⟩ |
    ⟨cell, kernel, compiles, entry, cells, calls, holder, holds⟩
  · cases moves with
    | miss | clone | drop | keep =>
      exact .frameNothing calls rfl compiles rfl cells
    | remove =>
      exact .frameNothing calls rfl compiles rfl nofun
    | insert =>
      refine .frameNothing calls rfl compiles rfl fun cell isEntry => ?_
      cases isEntry
      simp [insertSlot, OnceCell.get]
    | @compile _ place | @fail _ place =>
      refine .frameNothing calls rfl compiles rfl fun cell isEntry => ?_
      by_cases same : cell = place
      · simp [same, OnceCell.get]
      · simpa [same] using cells cell isEntry
    | share phase ready =>
      have absent := cells _ (entered phase rfl)
      rw [ready] at absent
      cases absent
    | @publish thread place phase kernel =>
      refine .compiled place kernel (congrArg (· + 1) compiles) (entered phase rfl)
        (update_self ..) (fun other given gives => ?_) ⟨thread, ?_⟩
      · rcases kernel_update gives with before | now
        · rw [setCell_calls, calls other] at before
          cases before
        · exact (some_inj.mp now).symm
      · simp [CallPhase.kernel]
    | @finish thread _ _ phase =>
      have absent := calls thread
      rw [phase] at absent
      cases absent
  · -- The entry's cell is ready, so nobody can be compiling in it or removing it.
    have isReady : ∀ {place}, cache.entry = some place → cache.cells place = .ready kernel :=
      fun isEntry => some_inj.mp (entry.symm.trans isEntry) ▸ cells
    have given : ∃ thread, (after.calls thread).kernel = some kernel :=
      ⟨holder, kernel_step moves holds⟩
    cases moves with
    | miss _ absent | insert _ absent =>
      rw [absent] at entry
      cases entry
    | clone | drop | keep =>
      exact .frameCompiled calls (by simp [CallPhase.kernel]) compiles entry cells rfl given
    | compile phase empty =>
      have ready := isReady (entered phase rfl)
      rw [empty] at ready
      cases ready
    | share phase ready =>
      refine .frameCompiled calls (fun given gives => ?_) compiles entry cells rfl given
      have same := ready.symm.trans (isReady (entered phase rfl))
      cases same
      exact (some_inj.mp gives).symm
    | publish phase | fail phase =>
      have running := exclusive.running phase
      rw [isReady (entered phase rfl)] at running
      cases running
    | remove _ present removable =>
      have empty := (removable_iff.mp removable).1
      rw [isReady present] at empty
      cases empty
    | @finish thread _ _ phase =>
      refine .frameCompiled calls (fun given gives => ?_) compiles entry cells rfl given
      exact calls thread given (by rw [phase]; exact gives)

theorem Outcome.ready_of_kernel (outcome : cache.Outcome)
    (gives : (cache.calls thread).kernel = some kernel) :
    ∃ cell, cache.entry = some cell ∧ cache.cells cell = .ready kernel := by
  rcases outcome with ⟨-, calls, -⟩ | ⟨cell, _, -, entry, cells, calls, -⟩
  · rw [calls thread] at gives
    cases gives
  · rw [calls thread kernel gives]
    exact ⟨cell, entry, cells⟩

theorem Owed.of_moves (held : cache.Held) (outcome : cache.Outcome) (moves : cache.Moves after) :
    after.Owed := by
  intro cell isEntry empty
  -- The cell that the moving call holds is the entry's.
  have own : ∀ {thread place : Nat} {phase : CallPhase Kernel}, cache.calls thread = phase →
      phase.slot = some place → cache.entry = some cell → place = cell :=
    fun is holds present => some_inj.mp
      ((held.entry ((congrArg CallPhase.slot is).trans holds)).symm.trans present)
  cases moves with
  | miss phase absent =>
    rw [setCall_entry, absent] at isEntry
    cases isEntry
  | @clone thread place phase present =>
    have same : place = cell := some_inj.mp (present.symm.trans isEntry)
    exact ⟨thread, .inl (by simp [cloneSlot, same, CallPhase.slot])⟩
  | @insert thread phase absent =>
    cases isEntry
    exact ⟨thread, .inl (by simp [insertSlot, slots, CallPhase.slot])⟩
  | @compile thread place phase | @fail thread place phase =>
    have same := own phase rfl isEntry
    exact ⟨thread, .inl (by simp [same, CallPhase.slot])⟩
  | share phase ready =>
    rw [setCall_cells, ← own phase rfl isEntry, ready] at empty
    cases empty
  | publish phase kernel =>
    have same := own phase rfl isEntry
    simp [same, OnceCell.get] at empty
  | @drop thread place phase => exact ⟨thread, .inr (by simp [releaseSlot])⟩
  | @keep thread phase needed =>
    have kept : cache.removable cell ≠ true := Bool.eq_false_iff.mp (needed cell isEntry)
    rcases held.counts isEntry with ⟨count, counts, strong⟩
    have positive : 0 < count := by
      by_contra nobody
      exact kept (removable_iff.mpr ⟨empty, by omega⟩)
    rcases counts.exists_of_pos positive with ⟨other, holds⟩
    have different : other ≠ thread := by
      rintro rfl
      rw [slots, phase] at holds
      cases holds
    exact ⟨other, .inl (by rw [slots_setCall, update_of_ne different, holds])⟩
  | remove => cases isEntry
  | @finish thread _ kernel phase =>
    have gives : (cache.calls thread).kernel = some kernel := by rw [phase]; rfl
    rcases outcome.ready_of_kernel gives with ⟨_, entry, ready⟩
    rw [← some_inj.mp (entry.symm.trans isEntry)] at empty
    simp [releaseSlot, ready, OnceCell.get] at empty

/-! ## All interleavings -/

structure Invariant (cache : KernelSlot Kernel) : Prop where
  held : cache.Held
  exclusive : cache.Exclusive
  outcome : cache.Outcome
  owed : cache.Owed

theorem Invariant.new : (KernelSlot.new : KernelSlot Kernel).Invariant where
  held := ⟨by simp [slots, KernelSlot.new, CallPhase.slot], by simp [KernelSlot.new]⟩
  exclusive := ⟨by simp [KernelSlot.new], by simp [KernelSlot.new]⟩
  outcome := .nothing rfl (fun _ => rfl) (by simp [KernelSlot.new])
  owed := by simp [Owed, KernelSlot.new]

theorem Invariant.step (invariant : cache.Invariant) (taken : cache.step action = some after) :
    after.Invariant := by
  rcases invariant with ⟨held, exclusive, outcome, -⟩
  have moves := moves_of_step taken
  exact ⟨held.step moves, exclusive.step held moves, outcome.step held exclusive moves,
    .of_moves held outcome moves⟩

/-- The call will be given this kernel. -/
def OnCourse (kernel : Kernel) : CallPhase Kernel → Prop
  | .idle | .waiting _ => True
  | .succeeded _ given | .returned (some given) => given = kernel
  | _ => False

/-- One call has a kernel, and another one that started later is on its way to it. -/
structure Later (holder later : Nat) (kernel : Kernel) (cache : KernelSlot Kernel) : Prop where
  invariant : cache.Invariant
  gives : (cache.calls holder).kernel = some kernel
  onCourse : OnCourse kernel (cache.calls later)

variable {later : Nat}

theorem Later.step {holder : Nat} (follows : Later holder later kernel cache)
    (taken : cache.step action = some after) : Later holder later kernel after := by
  have moves := moves_of_step taken
  refine ⟨follows.invariant.step taken, kernel_step moves follows.gives, ?_⟩
  rcases follows.invariant.outcome.ready_of_kernel follows.gives with ⟨_, entry, ready⟩
  have onCourse := follows.onCourse
  have held := follows.invariant.held
  have kept : ∀ {mover : Nat} {phase : CallPhase Kernel},
      (OnCourse kernel (cache.calls mover) → OnCourse kernel phase) →
      OnCourse kernel (update cache.calls mover phase later) := by
    intro _ _ keeps
    rw [update_apply]
    split_ifs with same
    · exact keeps (same ▸ onCourse)
    · exact onCourse
  -- A call that waits finds the kernel.
  have found : ∀ {thread place : Nat}, cache.calls thread = .waiting place →
      cache.cells place = .ready kernel := by
    intro _ _ phase
    have present := held.entry (congrArg CallPhase.slot phase)
    rw [← some_inj.mp (entry.symm.trans present)]
    exact ready
  cases moves with
  | miss _ absent =>
    rw [entry] at absent
    cases absent
  | clone => exact kept fun _ => trivial
  | insert phase | publish phase | fail phase | drop phase | keep phase | remove phase =>
    exact kept fun before => by rw [phase] at before; exact before.elim
  | compile phase empty =>
    rw [found phase] at empty
    cases empty
  | share phase given =>
    rw [found phase] at given
    cases given
    exact kept fun _ => rfl
  | finish phase => exact kept fun before => by rw [phase] at before; exact before

/-- Steps of its own bring the call to its return. -/
def Returns (later : Nat) (kernel : Kernel) (cache : KernelSlot Kernel) : Prop :=
  ∃ schedule, (∀ action ∈ schedule, CallAction.thread action = later) ∧
    ∃ after, execute KernelSlot.step cache schedule = some after ∧
      after.calls later = .returned (some kernel)

theorem Returns.step (own : action.thread = later) (taken : cache.step action = some after)
    (returns : Returns later kernel after) : Returns later kernel cache := by
  rcases returns with ⟨schedule, owns, final, runs, returned⟩
  refine ⟨action :: schedule, ?_, final, ?_, returned⟩
  · exact List.forall_mem_cons.mpr ⟨own, owns⟩
  · rw [execute, taken]
    exact runs

theorem Returns.of_succeeded (phase : cache.calls later = .succeeded cell kernel) :
    Returns later kernel cache := by
  have taken : cache.step (.returnKernel later) =
      some (cache.releaseSlot later cell (.returned (some kernel))) := by
    rw [KernelSlot.step, phase]
  exact .step rfl taken ⟨[], by simp, _, rfl, by simp [releaseSlot]⟩

theorem Later.returns_of_waiting {holder : Nat} (follows : Later holder later kernel cache)
    (phase : cache.calls later = .waiting cell) : Returns later kernel cache := by
  rcases follows.invariant.outcome.ready_of_kernel follows.gives with ⟨_, entry, ready⟩
  have present := follows.invariant.held.entry (congrArg CallPhase.slot phase)
  rw [some_inj.mp (entry.symm.trans present)] at ready
  have taken : cache.step (.getOrTryInit later) =
      some (cache.setCall later (.succeeded cell kernel)) := by
    simp only [KernelSlot.step, phase, ready]
  exact .step rfl taken (.of_succeeded (update_self ..))

/-- From wherever it stands, the call can return on its own. -/
theorem Later.returns {holder : Nat} (follows : Later holder later kernel cache) :
    Returns later kernel cache := by
  have onCourse := follows.onCourse
  cases phase : cache.calls later with
  | idle =>
    rcases follows.invariant.outcome.ready_of_kernel follows.gives with ⟨cell, entry, -⟩
    have taken : cache.step (.get later) = some (cache.cloneSlot later cell) := by
      simp only [KernelSlot.step, phase, entry]
    exact .step rfl taken ((follows.step taken).returns_of_waiting (update_self ..))
  | waiting => exact follows.returns_of_waiting phase
  | succeeded =>
    rw [phase] at onCourse
    cases onCourse
    exact .of_succeeded phase
  | returned result =>
    rw [phase] at onCourse
    cases result with
    | none => exact onCourse.elim
    | some =>
      cases onCourse
      exact ⟨[], by simp, _, rfl, phase⟩
  | missed | compiling | failed | dropped =>
    rw [phase] at onCourse
    exact onCourse.elim

/-- At most one compilation succeeds. Once a call has returned a kernel, a call that has
not started yet returns that kernel if it returns, and from every state on its own steps
suffice for that. When all calls have returned, the entry is there if one succeeded. -/
theorem compile_single_flight (cache : KernelSlot Kernel)
    (reached : Reachable KernelSlot.step KernelSlot.new cache) :
    cache.jitCompiles ≤ 1 ∧
      (∀ thread kernel, cache.calls thread = .returned (some kernel) →
        ∀ later, cache.calls later = .idle →
          ∀ after, Reachable KernelSlot.step cache after →
            (∀ result, after.calls later = .returned result → result = some kernel) ∧
              Returns later kernel after) ∧
      ((∀ thread, cache.calls thread = .idle ∨ ∃ result, cache.calls thread = .returned result) →
        (cache.entry.isSome = true ↔
          ∃ thread kernel, cache.calls thread = .returned (some kernel))) := by
  have invariant : cache.Invariant := reached.invariant Invariant.new Invariant.step
  refine ⟨?_, ?_, ?_⟩
  · rcases invariant.outcome with ⟨compiles, -, -⟩ | ⟨-, -, compiles, -, -, -, -⟩ <;> omega
  · intro thread kernel returned later idle after follows
    have start : Later thread later kernel cache :=
      ⟨invariant, by rw [returned]; rfl, by rw [idle]; trivial⟩
    have now : Later thread later kernel after := follows.invariant start Later.step
    refine ⟨fun result isResult => ?_, now.returns⟩
    have onCourse := now.onCourse
    rw [isResult] at onCourse
    cases result with
    | none => exact onCourse.elim
    | some => exact congrArg some onCourse
  · intro all
    constructor
    · intro present
      rcases isSome_iff_exists.mp present with ⟨cell, isEntry⟩
      rcases invariant.outcome with ⟨-, -, cells⟩ | ⟨-, kernel, -, -, -, -, thread, gives⟩
      · -- Somebody still owes this entry a kernel or its removal.
        rcases invariant.owed cell isEntry (cells cell isEntry) with ⟨thread, holds | dropped⟩
        · rcases all thread with idle | ⟨result, returned⟩
          · simp [slots, idle, CallPhase.slot] at holds
          · simp [slots, returned, CallPhase.slot] at holds
        · rcases all thread with idle | ⟨result, returned⟩
          · simp [idle] at dropped
          · simp [returned] at dropped
      · rcases all thread with idle | ⟨result, returned⟩
        · simp [idle, CallPhase.kernel] at gives
        · refine ⟨thread, kernel, ?_⟩
          cases result with
          | none => simp [returned, CallPhase.kernel] at gives
          | some => simpa [returned, CallPhase.kernel] using gives
    · rintro ⟨thread, kernel, returned⟩
      have gives : (cache.calls thread).kernel = some kernel := by rw [returned]; rfl
      rcases invariant.outcome.ready_of_kernel gives with ⟨cell, isEntry, -⟩
      rw [isEntry]
      rfl

/-- The first compilation fails while a second call waits, which retries in the same cell;
a third call has not started. -/
theorem compile_single_flight_retry :
    ∃ cache : KernelSlot Nat, execute KernelSlot.step KernelSlot.new
        [.get 0, .orInsertWith 0, .getOrTryInit 0, .get 1, .finishCompile 0 none, .dropSlot 0,
          .removeIf 0, .getOrTryInit 1, .finishCompile 1 (some 5), .returnKernel 1] = some cache ∧
      cache.calls 0 = .returned none ∧ cache.calls 1 = .returned (some 5) ∧
      cache.jitCompiles ≤ 1 ∧ Returns 2 5 cache := by
  obtain ⟨cache, runs⟩ : ∃ cache : KernelSlot Nat, execute KernelSlot.step KernelSlot.new
      [.get 0, .orInsertWith 0, .getOrTryInit 0, .get 1, .finishCompile 0 none, .dropSlot 0,
        .removeIf 0, .getOrTryInit 1, .finishCompile 1 (some 5), .returnKernel 1] = some cache :=
    ⟨_, rfl⟩
  have flight := compile_single_flight cache ⟨_, runs⟩
  cases runs
  exact ⟨_, rfl, rfl, rfl, flight.1, (flight.2.1 1 5 rfl 2 rfl _ ⟨[], rfl⟩).2⟩

end KernelSlot

end CuTile
