import CuTile.Foundation.Interleaving
import Mathlib.Data.List.Chain

/-! # Polling a device future

`DeviceFuture::poll` against the completion side of its `StreamCallbackState`. The waker
cell is an `AtomicWaker`: a register replaces its content, a wake takes the content and
wakes it. The executor may supply a different waker to every poll.
-/

namespace CuTile.Async

open List Option

inductive DeviceFutureState where
  | failed
  | idle
  | executing
  | complete
deriving DecidableEq, Repr

/-- What the driver reports about the stream; a fault is sticky. -/
inductive StreamState where
  | busy
  | idle
  | faulted
deriving DecidableEq, Repr

/-- `StreamHealth`, without the driver's error code. -/
inductive StreamHealth where
  | capturing
  | busy
  | idle
  | faulted
deriving DecidableEq, Repr

/-- `probe_stream`: a faulted context fails the capture query already. -/
def probeStream (capturing : Bool) : StreamState → StreamHealth
  | .faulted => .faulted
  | .busy => if capturing then .capturing else .busy
  | .idle => if capturing then .capturing else .idle

/-- Where the running poll stands, with the waker it was given. -/
inductive PollPoint (Waker : Type) where
  | returned
  | storing (waker : Waker)
  | launching (waker : Waker)
  | spinning (waker : Waker)
  | enrolling (waker : Waker)
  | enrolled (waker : Waker)
  | checking (waker : Waker)
  | probing (waker : Waker)
  | restoring (waker : Waker)
  | rechecking (waker : Waker)
deriving DecidableEq, Repr

inductive PollOutcome (Waker : Type) where
  | pending (waker : Waker)
  | ready
deriving DecidableEq, Repr

/-- What the completion side will do: `signal`, or `wake` alone for a faulted stream. -/
inductive CompletionKind where
  | signal
  | fault
deriving DecidableEq, Repr

inductive CompletionPoint where
  | unregistered
  | registered
  /-- In `signal`, after the store to `complete`. -/
  | signalling
  | finished
deriving DecidableEq, Repr

/-- `supply` lists the wakers of the polls to come; `outcome` is what the last poll
returned, and `woken` is the waker the completion side woke. -/
structure FutureSystem (Waker : Type) where
  kind : CompletionKind
  supply : List Waker
  state : DeviceFutureState
  point : PollPoint Waker
  outcome : Option (PollOutcome Waker)
  stream : StreamState
  complete : Bool
  waker : Option Waker
  completion : CompletionPoint
  woken : Option Waker
deriving DecidableEq, Repr

inductive FutureAction where
  /-- The next step of a poll; `answer` is the environment's reply where the step has one. -/
  | poll (answer : Bool)
  /-- The next step of the completion side. -/
  | notify
  | finish
  | fault
deriving DecidableEq, Repr

namespace FutureSystem

variable {Waker : Type}

def new (kind : CompletionKind) (supply : List Waker) (state : DeviceFutureState) :
    FutureSystem Waker where
  kind := kind
  supply := supply
  state := state
  point := .returned
  outcome := none
  stream := .busy
  complete := false
  waker := none
  completion := .unregistered
  woken := none

/-- `Poll::Ready`, with a result or an error. -/
def ready (system : FutureSystem Waker) : FutureSystem Waker :=
  { system with state := .complete, point := .returned, outcome := some .ready }

/-- `Poll::Pending`. -/
def pending (system : FutureSystem Waker) (waker : Waker) : FutureSystem Waker :=
  { system with state := .executing, point := .returned, outcome := some (.pending waker) }

def startPoll (system : FutureSystem Waker) : Option (FutureSystem Waker) :=
  match system.supply with
  | [] => none
  | waker :: rest =>
    match system.state with
    | .failed => some { system.ready with supply := rest }
    | .idle => some { system with supply := rest, point := .storing waker }
    | .executing => some { system with supply := rest, point := .checking waker }
    -- "Poll called after completion."
    | .complete => none

def pollStep (system : FutureSystem Waker) (answer : Bool) : Option (FutureSystem Waker) :=
  match system.point with
  | .returned => system.startPoll
  | .storing waker => some { system with waker := some waker, point := .launching waker }
  -- whether `execute` succeeds
  | .launching waker =>
    some (if answer then { system with point := .spinning waker } else system.ready)
  -- whether the spin budget allows another query
  | .spinning waker =>
    some (if answer then
      match system.stream with
      | .busy => system
      | .idle | .faulted => system.ready
    else { system with point := .enrolling waker })
  -- whether `register_callback` succeeds
  | .enrolling waker =>
    some (if answer then { system with completion := .registered, point := .enrolled waker }
    else system.ready)
  | .enrolled waker => some (system.pending waker)
  | .checking waker =>
    some (if system.complete then system.ready else { system with point := .probing waker })
  -- whether the stream is being captured
  | .probing waker =>
    some (match probeStream answer system.stream with
    | .faulted | .idle => system.ready
    | .busy | .capturing => { system with point := .restoring waker })
  | .restoring waker => some { system with waker := some waker, point := .rechecking waker }
  | .rechecking waker => some (if system.complete then system.ready else system.pending waker)

/-- The store of `signal`. -/
def flag (system : FutureSystem Waker) : FutureSystem Waker :=
  { system with complete := true, completion := .signalling }

/-- `AtomicWaker::wake`. -/
def wake (system : FutureSystem Waker) : FutureSystem Waker :=
  { system with waker := none, woken := system.waker, completion := .finished }

def notifyStep (system : FutureSystem Waker) : Option (FutureSystem Waker) :=
  match system.completion, system.kind with
  | .registered, .signal => some system.flag
  | .signalling, _ => some system.wake
  | .registered, .fault => if system.stream = .faulted then some system.wake else none
  | .unregistered, _ | .finished, _ => none

def step (system : FutureSystem Waker) : FutureAction → Option (FutureSystem Waker)
  | .poll answer => system.pollStep answer
  | .notify => system.notifyStep
  | .finish => if system.stream = .busy then some { system with stream := .idle } else none
  | .fault => some { system with stream := .faulted }

/-- The completion side is done, so no further wake will come, and the last poll returned
`Pending`. -/
def Waits (system : FutureSystem Waker) (waker : Waker) : Prop :=
  system.completion = .finished ∧ system.point = .returned ∧
    system.outcome = some (.pending waker)

/-! ## What a wake reaches -/

/-- The waker that the wake of the completion side reaches, or has reached. -/
def target (system : FutureSystem Waker) : Option Waker :=
  if system.completion = .finished then system.woken else system.waker

def PollPoint.waker? : PollPoint Waker → Option Waker
  | .returned => none
  | .storing waker | .launching waker | .spinning waker | .enrolling waker | .enrolled waker
  | .checking waker | .probing waker | .restoring waker | .rechecking waker => some waker

/-- The first poll has not registered the completion callback yet. -/
def Early (system : FutureSystem Waker) : Prop :=
  match system.point with
  | .returned => system.state = .idle
  | .storing _ | .launching _ | .spinning _ | .enrolling _ => True
  | _ => False

/-- The target is the waker of the last poll that stored one. -/
def OnTarget (system : FutureSystem Waker) : Prop :=
  match system.point with
  | .returned => ∀ waker, system.outcome = some (.pending waker) → system.target = some waker
  | .launching waker | .spinning waker | .enrolling waker | .enrolled waker =>
    system.target = some waker
  | .rechecking waker => system.target = some waker ∨ system.complete = true
  | _ => True

/-- The wakers that are, or can become, the target. -/
def known (system : FutureSystem Waker) : List Waker :=
  system.target.toList ++ (PollPoint.waker? system.point).toList ++ system.supply

/-- A faulted stream's wake can reach one waker only. -/
def Uniform (system : FutureSystem Waker) : Prop :=
  system.kind = .fault → ∀ first ∈ system.known, ∀ second ∈ system.known, first = second

structure Invariant (system : FutureSystem Waker) : Prop where
  early : system.Early → system.completion = .unregistered
  stored : system.completion ≠ .unregistered → ∃ waker, system.target = some waker
  flagged : system.kind = .signal →
    system.completion = .signalling ∨ system.completion = .finished → system.complete = true
  uniform : system.Uniform
  onTarget : system.OnTarget

variable {system after : FutureSystem Waker} {waker : Waker} {action : FutureAction}

theorem Uniform.mono (uniform : system.Uniform) (kind : after.kind = system.kind)
    (known : after.known ⊆ system.known) : after.Uniform := by
  intro isFault first isFirst second isSecond
  exact uniform (kind ▸ isFault) first (known isFirst) second (known isSecond)

/-! ## The steps of a poll -/

section

variable (invariant : system.Invariant)

include invariant

theorem Invariant.move {point : PollPoint Waker}
    (waker : PollPoint.waker? point = PollPoint.waker? system.point)
    (early : Early { system with point := point } → system.Early)
    (onTarget : OnTarget { system with point := point }) :
    Invariant { system with point := point } where
  early isEarly := invariant.early (early isEarly)
  stored := invariant.stored
  flagged := invariant.flagged
  uniform := invariant.uniform.mono rfl fun other member => by
    simpa only [known, target, waker] using member
  onTarget := onTarget

theorem Invariant.ready {supply : List Waker} (supplied : supply ⊆ system.supply) :
    Invariant { system.ready with supply := supply } where
  early := by simp [Early, FutureSystem.ready]
  stored := invariant.stored
  flagged := invariant.flagged
  uniform := by
    refine invariant.uniform.mono rfl fun other member => ?_
    simp only [known, target, FutureSystem.ready, PollPoint.waker?, toList_none,
      append_nil, mem_append] at member ⊢
    rcases member with isTarget | isSupplied
    · exact .inl (.inl isTarget)
    · exact .inr (supplied isSupplied)
  onTarget := by simp [OnTarget, FutureSystem.ready]

theorem Invariant.pending (aimed : system.target = some waker) :
    (system.pending waker).Invariant where
  early := by simp [Early, FutureSystem.pending]
  stored := invariant.stored
  flagged := invariant.flagged
  uniform := by
    refine invariant.uniform.mono rfl fun other member => ?_
    simp only [known, target, FutureSystem.pending, PollPoint.waker?, toList_none,
      append_nil, mem_append] at member ⊢
    rcases member with isTarget | isSupplied
    · exact .inl (.inl isTarget)
    · exact .inr isSupplied
  onTarget := by
    intro _ isOther
    cases isOther
    exact aimed

theorem Invariant.startPoll (stands : system.point = .returned)
    (taken : system.startPoll = some after) : after.Invariant := by
  unfold FutureSystem.startPoll at taken
  cases supplied : system.supply with
  | nil => simp [supplied] at taken
  | cons waker rest =>
    have taking : ∀ point, PollPoint.waker? point = some waker →
        Uniform { system with supply := rest, point := point } := by
      intro _ isWaker
      refine invariant.uniform.mono rfl fun other member => ?_
      simp only [known, target, isWaker] at member
      simpa [known, target, stands, supplied, PollPoint.waker?] using member
    cases isState : system.state <;> simp only [supplied, isState] at taken <;> cases taken
    · exact invariant.ready (supplied ▸ subset_cons_self waker rest)
    · refine ⟨fun _ => invariant.early ?_, invariant.stored, invariant.flagged, taking _ rfl,
        trivial⟩
      simp only [Early, stands]
      exact isState
    · exact ⟨by simp [Early], invariant.stored, invariant.flagged, taking _ rfl, trivial⟩

/-- Storing the waker in the cell aims the wake at it, unless the wake has come already. -/
theorem Invariant.store {point : PollPoint Waker}
    (stands : PollPoint.waker? system.point = some waker)
    (waker? : PollPoint.waker? point = some waker)
    (early : Early { system with waker := some waker, point := point } → system.Early)
    (onTarget : OnTarget { system with waker := some waker, point := point }) :
    Invariant { system with waker := some waker, point := point } where
  early isEarly := invariant.early (early isEarly)
  stored isRegistered := by
    rcases invariant.stored isRegistered with ⟨old, isOld⟩
    unfold target at isOld ⊢
    split_ifs at isOld ⊢ with finished
    · exact ⟨old, isOld⟩
    · exact ⟨waker, rfl⟩
  flagged := invariant.flagged
  uniform := by
    refine invariant.uniform.mono rfl fun other member => ?_
    unfold known target at member ⊢
    simp only [stands, waker?] at member ⊢
    split_ifs at member ⊢ with finished
    · exact member
    · simp only [mem_append, mem_toList] at member ⊢
      tauto
  onTarget := onTarget

/-- After the wake, a stored waker is the woken one or the completion flag is seen. -/
theorem Invariant.restore (stands : system.point = .restoring waker) :
    OnTarget { system with waker := some waker, point := .rechecking waker } := by
  by_cases finished : system.completion = .finished
  · cases isKind : system.kind with
    | signal => exact .inr (invariant.flagged isKind (.inr finished))
    | fault =>
      rcases invariant.stored (by simp [finished]) with ⟨old, isOld⟩
      have same : old = waker := by
        apply invariant.uniform isKind
        · simp [known, isOld]
        · simp [known, stands, PollPoint.waker?]
      left
      simpa [target, finished, same] using isOld
  · left
    simp [target, finished]

theorem Invariant.enrol (stands : system.point = .enrolling waker) :
    Invariant { system with completion := .registered, point := .enrolled waker } := by
  have isEarly : system.Early := by simp [Early, stands]
  have aimed := invariant.onTarget
  simp only [OnTarget, stands] at aimed
  have same : target { system with completion := .registered, point := .enrolled waker } =
      system.target := by
    simp [target, invariant.early isEarly]
  constructor
  · simp [Early]
  · exact fun _ => ⟨waker, same.trans aimed⟩
  · simp
  · refine invariant.uniform.mono rfl fun other member => ?_
    rw [known, same] at member
    simpa [known, stands, PollPoint.waker?] using member
  · exact same.trans aimed

theorem Invariant.pollStep {answer : Bool} (taken : system.pollStep answer = some after) :
    after.Invariant := by
  have onTarget := invariant.onTarget
  have early := invariant.early
  have ready := invariant.ready (Subset.refl _)
  unfold FutureSystem.pollStep at taken
  cases stands : system.point <;> simp only [stands] at taken
  case returned => exact invariant.startPoll stands taken
  all_goals
    simp only [OnTarget, stands] at onTarget
    simp only [Early, stands] at early
    cases taken
  case storing =>
    apply invariant.store (by rw [stands]; rfl) rfl
    · intro _
      simp [Early, stands]
    · simp [OnTarget, target, early trivial]
  case launching =>
    split_ifs
    · apply invariant.move (by rw [stands]; rfl)
      · simp [Early, stands]
      · exact onTarget
    · exact ready
  case spinning =>
    split_ifs
    · cases system.stream
      · exact invariant
      · exact ready
      · exact ready
    · apply invariant.move (by rw [stands]; rfl)
      · simp [Early, stands]
      · exact onTarget
  case enrolling =>
    split_ifs
    · exact invariant.enrol stands
    · exact ready
  case enrolled => exact invariant.pending onTarget
  case checking =>
    split_ifs
    · exact ready
    · apply invariant.move (by rw [stands]; rfl)
      · simp [Early]
      · trivial
  case probing =>
    cases probeStream answer system.stream
    · apply invariant.move (by rw [stands]; rfl)
      · simp [Early]
      · trivial
    · apply invariant.move (by rw [stands]; rfl)
      · simp [Early]
      · trivial
    · exact ready
    · exact ready
  case restoring =>
    apply invariant.store (by rw [stands]; rfl) rfl
    · simp [Early]
    · exact invariant.restore stands
  case rechecking =>
    split_ifs with isComplete
    · exact ready
    · apply invariant.pending
      rcases onTarget with aimed | isComplete'
      · exact aimed
      · exact absurd isComplete' isComplete

/-! ## The completion side -/

theorem Invariant.wake (registered : system.completion ≠ .unregistered)
    (unfinished : system.completion ≠ .finished)
    (flagged : system.kind = .signal → system.complete = true) : system.wake.Invariant := by
  have same : system.wake.target = system.target := by
    simp [target, FutureSystem.wake, unfinished]
  have late : ¬ system.Early := fun isEarly => registered (invariant.early isEarly)
  constructor
  · exact fun isEarly => absurd isEarly late
  · exact fun _ => same ▸ invariant.stored registered
  · exact fun isSignal _ => flagged isSignal
  · refine invariant.uniform.mono rfl fun other member => ?_
    rwa [known, same] at member
  · have onTarget := invariant.onTarget
    unfold OnTarget at onTarget ⊢
    rw [same]
    exact onTarget

theorem Invariant.flag (stands : system.completion = .registered)
    (isSignal : system.kind = .signal) : system.flag.Invariant := by
  have same : system.flag.target = system.target := by
    simp [target, FutureSystem.flag, stands]
  have late : ¬ system.Early := fun isEarly => by
    simpa [stands] using invariant.early isEarly
  constructor
  · exact fun isEarly => absurd isEarly late
  · exact fun _ => same ▸ invariant.stored (by simp [stands])
  · exact fun _ _ => rfl
  · intro isFault
    simp [FutureSystem.flag, isSignal] at isFault
  · have onTarget := invariant.onTarget
    unfold OnTarget at onTarget ⊢
    rw [same]
    simp only [FutureSystem.flag]
    cases isPoint : system.point <;> simp only [isPoint] at onTarget ⊢
    case rechecking => exact .inr trivial
    all_goals exact onTarget

theorem Invariant.notifyStep (taken : system.notifyStep = some after) : after.Invariant := by
  unfold FutureSystem.notifyStep at taken
  cases stands : system.completion <;> cases isKind : system.kind <;>
    simp only [stands, isKind] at taken
  case registered.signal =>
    cases taken
    exact invariant.flag stands isKind
  case registered.fault =>
    split_ifs at taken
    cases taken
    exact invariant.wake (by simp [stands]) (by simp [stands]) (by simp [isKind])
  case signalling.signal =>
    cases taken
    exact invariant.wake (by simp [stands]) (by simp [stands]) fun isSignal =>
      invariant.flagged isSignal (.inl stands)
  case signalling.fault =>
    cases taken
    exact invariant.wake (by simp [stands]) (by simp [stands]) (by simp [isKind])
  all_goals cases taken

theorem Invariant.step (taken : system.step action = some after) : after.Invariant := by
  cases action with
  | poll => exact invariant.pollStep taken
  | notify => exact invariant.notifyStep taken
  | finish =>
    simp only [FutureSystem.step] at taken
    split_ifs at taken
    cases taken
    exact { invariant with }
  | fault =>
    cases taken
    exact { invariant with }

end

theorem Invariant.new {kind : CompletionKind} {supply : List Waker}
    (same : kind = .signal ∨ supply.IsChain (· = ·)) :
    (FutureSystem.new kind supply .idle).Invariant where
  early _ := rfl
  stored isRegistered := absurd rfl isRegistered
  flagged _ isLate := by simp [FutureSystem.new] at isLate
  uniform isFault first isFirst second isSecond := by
    have chain : supply.IsChain (· = ·) := same.resolve_left fun isSignal => by
      simp [FutureSystem.new, isSignal] at isFault
    have pairwise := isChain_iff_pairwise.mp chain
    simp only [known, target, FutureSystem.new, PollPoint.waker?, reduceCtorEq, if_false,
      toList_none, append_nil, nil_append] at isFirst isSecond
    exact pairwise.forall_of_forall (fun _ _ => rfl) isFirst isSecond
  onTarget := by simp [OnTarget, FutureSystem.new]

/-! ## The lost fault notification -/

/-- A poll returned `Pending` on a busy stream, and its waker stands in the cell. -/
def waiting (waker : Waker) (supply : List Waker) : FutureSystem Waker where
  kind := .fault
  supply := supply
  state := .executing
  point := .returned
  outcome := some (.pending waker)
  stream := .busy
  complete := false
  waker := some waker
  completion := .registered
  woken := none

/-- The wake took the old waker, and the poll then returned `Pending` with the new one. -/
def lost (old waker : Waker) (supply : List Waker) : FutureSystem Waker :=
  { waiting waker supply with
    stream := .faulted
    completion := .finished
    woken := some old }

def firstPoll : List FutureAction :=
  [.poll false, .poll false, .poll true, .poll false, .poll true, .poll false]

def laterPoll : List FutureAction :=
  [.poll false, .poll false, .poll false, .poll false, .poll false]

/-- The fault and its wake fall between the poll's probe and its store to the cell. -/
def racedPoll : List FutureAction :=
  [.poll false, .poll false, .poll false, .fault, .notify, .poll false, .poll false]

theorem execute_firstPoll (waker : Waker) (supply : List Waker) :
    execute step (FutureSystem.new .fault (waker :: supply) .idle) firstPoll =
      some (waiting waker supply) :=
  rfl

theorem execute_laterPoll (old waker : Waker) (supply : List Waker) :
    execute step (waiting old (waker :: supply)) laterPoll = some (waiting waker supply) :=
  rfl

theorem execute_racedPoll (old waker : Waker) (supply : List Waker) :
    execute step (waiting old (waker :: supply)) racedPoll = some (lost old waker supply) :=
  rfl

/-- Where two consecutive polls differ in their wakers, the second one can be lost. -/
theorem exists_lost {initial : FutureSystem Waker} {supply : List Waker} {first : Waker}
    (reached : Reachable step initial (waiting first supply))
    (differ : ¬ (first :: supply).IsChain (· = ·)) :
    ∃ old waker rest, old ≠ waker ∧ Reachable step initial (lost old waker rest) := by
  induction supply generalizing first with
  | nil => exact absurd (isChain_singleton first) differ
  | cons second rest induction =>
    by_cases same : first = second
    · subst same
      apply induction (reached.extend (execute_laterPoll first first rest))
      intro chain
      exact differ (isChain_cons_cons.mpr ⟨rfl, chain⟩)
    · exact ⟨first, second, rest, same, reached.extend (execute_racedPoll first second rest)⟩

/-- Every pending poll's waker is woken by the completion side exactly when that side
signals completion or the executor supplies one waker throughout. -/
theorem pending_future_woken_iff (kind : CompletionKind) (supply : List Waker) :
    (∀ system waker, Reachable step (FutureSystem.new kind supply .idle) system →
        system.Waits waker → system.woken = some waker) ↔
      kind = .signal ∨ supply.IsChain (· = ·) := by
  constructor
  · intro woken
    cases kind with
    | signal => exact .inl rfl
    | fault =>
      right
      by_contra differ
      cases supply with
      | nil => exact differ isChain_nil
      | cons first rest =>
        rcases exists_lost ⟨_, execute_firstPoll first rest⟩ differ with
          ⟨old, waker, _, different, reached⟩
        exact different (some.inj (woken _ waker reached ⟨rfl, rfl, rfl⟩))
  · intro same system waker reached ⟨finished, returned, isPending⟩
    have invariant := reached.invariant (Invariant.new same) Invariant.step
    have onTarget := invariant.onTarget
    simp only [OnTarget, returned, target, finished, if_true] at onTarget
    exact onTarget waker isPending

/-- Two polls with different wakers on a stream that faults during the second. -/
theorem pending_future_lost : ∃ system : FutureSystem Bool,
    execute step (FutureSystem.new .fault [false, true] .idle) (firstPoll ++ racedPoll) =
        some system ∧
      system.Waits true ∧ system.woken ≠ some true :=
  ⟨lost false true [], by decide, ⟨rfl, rfl, rfl⟩, by decide⟩

end FutureSystem

end CuTile.Async
