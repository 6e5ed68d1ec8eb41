import CuTile.Async.InFlight
import Mathlib.Data.List.Count

/-! # Resources outlive the work that uses them

Every way out of a poll, a drop and `sync_on` disposes of the possessions through one of
two operations, on the owners and on the result. Possessions are accounted for, and all
but one of the ways dispose of them behind the work or leak them.
-/

namespace CuTile.Async

def HostPoint.polls : HostPoint → Bool
  | .spinning | .registering | .checking | .probing | .rechecking => true
  | _ => false

/-- A future never comes to the wait of `sync_on`. -/
def HostPoint.ofFuture : HostPoint → Bool
  | .starting | .executing .syncOn | .synchronizing => false
  | _ => true

namespace InFlight

variable {system after : InFlight}

/-! ## What one step can do -/

/-- The transitions, with what each of them finds. -/
inductive Moves (system : InFlight) : InFlightAction → InFlight → Prop
  | finish (busy : 0 < system.unfinished) :
      Moves system .finish { system with unfinished := system.unfinished - 1 }
  | signal (registered : system.registered = true) (finished : system.unfinished = 0) :
      Moves system .signal { system with complete := true }
  | begin (rests : system.point = .resting) (ready : system.operation = true) :
      Moves system (.startPoll true) { system with operation := false, point := .executing .poll }
  | resume {lock} (rests : system.point = .resting) (runs : system.state = .executing) :
      Moves system (.startPoll lock) { system with point := .checking }
  | enter (starts : system.point = .starting) :
      Moves system (.startSync true)
        { system with operation := false, point := .executing .syncOn }
  | leave (starts : system.point = .starting) :
      Moves system (.startSync false) { system with point := .over }
  | keep {action entry possession owners more} (other : action ≠ .synchronize false)
      (executes : system.point = .executing entry) (foreign : possession ≠ .result)
      (held : system.owners = some owners)
      (adds : more.possessions.Perm (possession :: owners.possessions)) :
      Moves system action
        { system with owners := some more, acquired := possession :: system.acquired }
  | submit {entry} (executes : system.point = .executing entry) :
      Moves system .submit { system with unfinished := system.unfinished + 1 }
  | succeed {entry point} (executes : system.point = .executing entry)
      (next : point = .spinning ∨ entry = .syncOn ∧ point = .synchronizing) :
      Moves system (.executeReturns true)
        { system with result := true, acquired := .result :: system.acquired, point := point }
  | giveUp {action entry point} (other : action ≠ .synchronize false)
      (executes : system.point = .executing entry)
      (next : point = .resting ∨ point = .over ∨ entry = .syncOn ∧ point = .synchronizing) :
      Moves system action { system with point := point }
  | stay {action} (other : action ≠ .synchronize false) : Moves system action system
  | error {action} (other : action ≠ .synchronize false)
      (polls : system.point = .resting ∨ system.point = .executing .poll ∨
        system.point.polls = true) :
      Moves system action system.readyError
  | fault {action} (other : action ≠ .synchronize false) (polls : system.point.polls = true) :
      Moves system action system.deliverFault
  | timeout (spins : system.point = .spinning) :
      Moves system (.spin .timeout) { system with point := .registering }
  | advance {action point} (other : action ≠ .synchronize false)
      (looks : system.point = .checking ∨ system.point = .probing)
      (next : point = .probing ∨ point = .rechecking) :
      Moves system action { system with point := point }
  | register (registers : system.point = .registering) :
      Moves system (.register true)
        { system with registered := true, state := .executing, point := .resting }
  | pending (rechecks : system.point = .rechecking) :
      Moves system .recheck { system with point := .resting }
  | deliver {action} (other : action ≠ .synchronize false) (polls : system.point.polls = true)
      (held : system.result = true)
      (finished : system.unfinished = 0 ∨ system.complete = true) :
      Moves system action { system.completeSubmission.disposeResult .delivered with
        state := .complete, point := .resting }
  | release {action wait} (other : action ≠ .synchronize false)
      (drops : system.point = .resting ∨ ∃ before, system.point = .releasing before) :
      Moves system action { system with point := .releasing wait }
  | dropResult {action} (other : action ≠ .synchronize false)
      (finished : system.unfinished = 0 ∨
        system.point = .resting ∧ system.hasUndeliveredSubmission = false) :
      Moves system action { system.disposeResult .dropped with point := .over }
  | leakResult {action} (other : action ≠ .synchronize false) :
      Moves system action system.leakResult
  | complete (synchronizes : system.point = .synchronizing) (finished : system.unfinished = 0) :
      Moves system (.synchronize true)
        { system.completeSubmission.disposeResult .delivered with point := .over }
  | abandon (synchronizes : system.point = .synchronizing) :
      Moves system (.synchronize false) { system.disposeResult .dropped with point := .over }
  | vanish (released : system.owners = none) :
      Moves system .startRelease { system with submission := .gone }
  | releaseOwners {action wait} (other : action ≠ .synchronize false) :
      Moves system action { system with submission := .dropping wait }
  | disposeOwners {action fate} (other : action ≠ .synchronize false)
      (finished : fate = .leaked ∨ system.unfinished = 0 ∨ OwnerSet.all system.owners = []) :
      Moves system action { system.disposeOwners fate with submission := .gone }

variable {action : InFlightAction}

theorem moves_of_takeCompletedResult (other : action ≠ .synchronize false)
    (polls : system.point.polls = true) (finished : system.unfinished = 0 ∨ system.complete = true)
    (taken : system.takeCompletedResult = some after) : Moves system action after := by
  simp only [takeCompletedResult] at taken
  split_ifs at taken with held
  cases taken
  exact .deliver other polls held finished

theorem moves_of_startPoll {lock : Bool} (rests : system.point = .resting)
    (taken : system.startPoll lock = some after) : Moves system (.startPoll lock) after := by
  simp only [startPoll] at taken
  split at taken
  · cases taken
    exact .error (by simp) (.inl rests)
  · cases taken
    split_ifs with locked
    · rw [locked]
      simp only [beginExecute]
      split_ifs with ready
      · exact .begin rests (Bool.and_eq_true_iff.mp ready).2
      · exact .error (by simp) (.inl rests)
    · exact .error (by simp) (.inl rests)
  · cases taken
    exact .resume rests ‹_›
  · cases taken

theorem moves_of_retain {entry : Entry} {possession : Possession} {insert : OwnerSet → OwnerSet}
    (other : action ≠ .synchronize false) (executes : system.point = .executing entry)
    (foreign : possession ≠ .result)
    (inserts : ∀ owners, (insert owners).possessions.Perm (possession :: owners.possessions)) :
    Moves system action (system.retain possession insert) := by
  simp only [retain]
  split
  · exact .keep other executes foreign ‹_› (inserts _)
  · exact .stay other

theorem moves_of_executeReturns {entry : Entry} {success : Bool}
    (executes : system.point = .executing entry) :
    Moves system (.executeReturns success) (system.executeReturns entry success) := by
  cases success with
  | true =>
    cases entry with
    | poll => exact .succeed executes (.inl rfl)
    | syncOn => exact .succeed executes (.inr ⟨rfl, rfl⟩)
  | false =>
    cases entry with
    | poll => exact .error (by simp) (.inr (.inl executes))
    | syncOn => exact .giveUp (by simp) executes (.inr (.inr ⟨rfl, rfl⟩))

theorem moves_of_spin {answer : SpinAnswer} (spins : system.point = .spinning)
    (taken : system.spin answer = some after) : Moves system (.spin answer) after := by
  have polls : system.point.polls = true := by rw [spins]; rfl
  cases answer with
  | finished =>
    simp only [spin] at taken
    split_ifs at taken with finished
    exact moves_of_takeCompletedResult (by simp) polls (.inl finished) taken
  | busy =>
    cases taken
    exact .stay (by simp)
  | error =>
    cases taken
    exact .fault (by simp) polls
  | timeout =>
    cases taken
    exact .timeout spins

theorem moves_of_probe {health : StreamHealth} (probes : system.point = .probing)
    (taken : system.probe health = some after) : Moves system (.probe health) after := by
  have polls : system.point.polls = true := by rw [probes]; rfl
  cases health with
  | idle =>
    simp only [probe] at taken
    split_ifs at taken with finished
    exact moves_of_takeCompletedResult (by simp) polls (.inl finished) taken
  | faulted =>
    cases taken
    exact .fault (by simp) polls
  | busy | capturing =>
    cases taken
    exact .advance (by simp) (.inr probes) (.inr rfl)

theorem moves_of_startDrop (rests : system.point = .resting) :
    Moves system .startDrop system.startDrop := by
  simp only [startDrop]
  split_ifs with undelivered
  · exact .release (by simp) (.inl rests)
  · exact .leakResult (by simp)
  · exact .dropResult (by simp) (.inr ⟨rests, eq_false_of_ne_true undelivered⟩)

theorem moves_of_release {point : WaitPoint} {answer : WaitAnswer} {outcome : WaitOutcome}
    (releases : system.point = .releasing point)
    (waits : waitStep system.unfinished point answer = some outcome) :
    Moves system (.release answer) (system.release outcome) := by
  cases outcome with
  | next => exact .release (by simp) (.inr ⟨point, releases⟩)
  | done success =>
    cases success with
    | true => exact .dropResult (by simp) (.inl (unfinished_eq_zero_of_waitStep waits))
    | false => exact .leakResult (by simp)

theorem moves_of_synchronize {success : Bool} (synchronizes : system.point = .synchronizing)
    (taken : system.synchronize success = some after) :
    Moves system (.synchronize success) after := by
  cases success with
  | true =>
    simp only [synchronize, if_true] at taken
    split_ifs at taken with finished
    cases taken
    exact .complete synchronizes finished
  | false =>
    cases taken
    exact .abandon synchronizes

theorem possessions_of_isEmpty {owners : OwnerSet} (empty : owners.isEmpty = true) :
    owners.possessions = [] := by
  rw [OwnerSet.isEmpty, Bool.and_eq_true_iff, List.isEmpty_iff, List.isEmpty_iff] at empty
  rw [OwnerSet.possessions, empty.1, empty.2]
  rfl

theorem moves_of_startRelease : Moves system .startRelease system.startRelease := by
  simp only [startRelease]
  split
  · exact .vanish ‹_›
  · rename_i owners held
    split_ifs with empty
    · have nothing : OwnerSet.all system.owners = [] := by
        rw [held]
        exact possessions_of_isEmpty empty
      exact .disposeOwners (by simp) (.inr (.inr nothing))
    · exact .releaseOwners (by simp)

theorem moves_of_releaseOwners {point : WaitPoint} {answer : WaitAnswer} {outcome : WaitOutcome}
    (waits : waitStep system.unfinished point answer = some outcome) :
    Moves system (.releaseOwners answer) (system.releaseOwners outcome) := by
  cases outcome with
  | next => exact .releaseOwners (by simp)
  | done success =>
    cases success with
    | true => exact .disposeOwners (by simp) (.inr (.inl (unfinished_eq_zero_of_waitStep waits)))
    | false => exact .disposeOwners (by simp) (.inl rfl)

theorem moves_of_step (taken : system.step action = some after) : Moves system action after := by
  cases action <;> simp only [step] at taken
  case finish =>
    split_ifs at taken with busy
    cases taken
    exact .finish busy
  case signal =>
    split_ifs at taken with sent
    cases taken
    simp only [Bool.and_eq_true, decide_eq_true_eq] at sent
    exact .signal sent.1 sent.2
  case startPoll lock =>
    split_ifs at taken with rests
    exact moves_of_startPoll rests taken
  case startSync lock =>
    cases lock with
    | true =>
      rw [if_pos rfl] at taken
      split_ifs at taken with starts
      cases taken
      exact .enter starts
    | false =>
      rw [if_neg Bool.false_ne_true] at taken
      split_ifs at taken with starts
      cases taken
      exact .leave starts
  case retainLease id =>
    split at taken <;> cases taken
    exact moves_of_retain (by simp) ‹_› (by simp) fun owners => .refl _
  case retain id =>
    split at taken <;> cases taken
    exact moves_of_retain (by simp) ‹_› (by simp) fun owners => List.perm_middle
  case submit =>
    split at taken <;> cases taken
    exact .submit ‹_›
  case executeReturns success =>
    split at taken <;> cases taken
    exact moves_of_executeReturns ‹_›
  case executePanics =>
    split at taken <;> cases taken
    · exact .giveUp (by simp) ‹_› (.inl rfl)
    · exact .giveUp (by simp) ‹_› (.inr (.inl rfl))
  case spin answer =>
    split_ifs at taken with spins
    exact moves_of_spin spins taken
  case register success =>
    cases success with
    | true =>
      rw [if_pos rfl] at taken
      split_ifs at taken with registers
      cases taken
      exact .register registers
    | false =>
      rw [if_neg Bool.false_ne_true] at taken
      split_ifs at taken with registers
      cases taken
      exact .error (by simp) (.inr (.inr (by rw [registers]; rfl)))
  case check =>
    split_ifs at taken with checks complete
    · exact moves_of_takeCompletedResult (by simp) (by rw [checks]; rfl) (.inr complete) taken
    · cases taken
      exact .advance (by simp) (.inl checks) (.inl rfl)
  case probe health =>
    split_ifs at taken with probes
    exact moves_of_probe probes taken
  case recheck =>
    split_ifs at taken with rechecks complete
    · exact moves_of_takeCompletedResult (by simp) (by rw [rechecks]; rfl) (.inr complete) taken
    · cases taken
      exact .pending rechecks
  case startDrop =>
    split_ifs at taken with rests
    cases taken
    exact moves_of_startDrop rests
  case release answer =>
    split at taken
    · rcases Option.map_eq_some_iff.mp taken with ⟨outcome, waits, rfl⟩
      exact moves_of_release ‹_› waits
    · cases taken
  case synchronize =>
    split_ifs at taken with synchronizes
    exact moves_of_synchronize synchronizes taken
  case startRelease =>
    split_ifs at taken
    cases taken
    exact moves_of_startRelease
  case releaseOwners =>
    split at taken
    · rcases Option.map_eq_some_iff.mp taken with ⟨outcome, waits, rfl⟩
      exact moves_of_releaseOwners waits
    · cases taken

/-! ## Control -/

structure Control (system : InFlight) : Prop where
  unstarted : system.operation = true →
    .result ∉ system.acquired ∧ system.registered = false ∧ system.state ≠ .executing ∧
      system.point.polls = false
  executing : ∀ {entry}, system.point = .executing entry → system.operation = false ∧
    system.result = false ∧ .result ∉ system.acquired ∧ system.registered = false
  starting : system.point = .starting → system.operation = true
  signalled : system.complete = true → system.registered = true ∧ system.unfinished = 0
  acquired : system.result = true → .result ∈ system.acquired
  placed : system.result = true → system.point ≠ .over ∧
    (system.point = .resting → system.state = .executing ∨ system.state = .complete)
  rechecking : system.point = .checking ∨ system.point = .probing ∨ system.point = .rechecking →
    system.state = .executing
  gone : system.submission = .gone → system.owners = none

section

variable (control : Control system)

include control

theorem Control.result_eq_false (ready : system.operation = true) : system.result = false :=
  eq_false_of_ne_true fun held => (control.unstarted ready).1 (control.acquired held)

theorem Control.goto {point : HostPoint}
    (settled : point ≠ .starting ∧ ∀ entry, point ≠ .executing entry)
    (started : system.operation = true → point.polls = false)
    (placed : system.result = true → point ≠ .over ∧
      (point = .resting → system.state = .executing ∨ system.state = .complete))
    (rechecking : point = .checking ∨ point = .probing ∨ point = .rechecking →
      system.state = .executing) : Control { system with point := point } := by
  refine ⟨fun ready => ?_, (fun executes => absurd executes (settled.2 _)),
    (fun starts => absurd starts settled.1), control.signalled, control.acquired, placed,
    rechecking, control.gone⟩
  rcases control.unstarted ready with ⟨fresh, unregistered, state, -⟩
  exact ⟨fresh, unregistered, state, started ready⟩

theorem Control.finish {point : HostPoint} (nothing : system.result = false)
    (next : point = .resting ∨ point = .over ∨ point = .synchronizing) :
    Control { system with point := point } := by
  refine control.goto ?_ (fun _ => ?_) (fun held => ?_) (fun looks => ?_)
  · rcases next with rfl | rfl | rfl <;> simp
  · rcases next with rfl | rfl | rfl <;> rfl
  · rw [nothing] at held
    cases held
  · rcases next with rfl | rfl | rfl <;> simp at looks

theorem Control.begin (ready : system.operation = true) (entry : Entry) :
    Control { system with operation := false, point := .executing entry } := by
  have nothing := control.result_eq_false ready
  rcases control.unstarted ready with ⟨fresh, unregistered, -, -⟩
  refine ⟨nofun, (fun _ => ⟨rfl, nothing, fresh, unregistered⟩),
    nofun, control.signalled, control.acquired, fun held => ?_,
    (fun looks => by simp at looks), control.gone⟩
  exact absurd (nothing.symm.trans held) (by simp)

theorem Control.readyError : Control system.readyError := by
  refine ⟨fun ready => ?_, nofun, nofun,
    control.signalled, control.acquired, (fun _ => ⟨by simp, fun _ => .inr rfl⟩),
    (fun looks => by simp at looks), control.gone⟩
  rcases control.unstarted ready with ⟨fresh, unregistered, -, -⟩
  exact ⟨fresh, unregistered, by simp, rfl⟩

end

variable {fate : Fate}

theorem Control.disposeOwners (control : Control system) : Control (system.disposeOwners fate) :=
  { control with gone := fun _ => rfl }

theorem Control.disposeResult (control : Control system) : Control (system.disposeResult fate) := by
  refine ⟨control.unstarted, fun executes => ?_, control.starting, control.signalled,
    nofun, nofun, control.rechecking, control.gone⟩
  rcases control.executing executes with ⟨started, -, fresh, unregistered⟩
  exact ⟨started, rfl, fresh, unregistered⟩

theorem Control.step (control : Control system) (moves : Moves system action after) :
    Control after := by
  cases moves with
  | finish busy =>
    refine { control with signalled := fun complete => ?_ }
    have idle := (control.signalled complete).2
    omega
  | signal registered finished =>
    exact { control with signalled := fun _ => ⟨registered, finished⟩ }
  | begin _ ready => exact control.begin ready .poll
  | resume _ runs =>
    refine control.goto (by simp) (fun ready => ?_) (by simp) fun _ => runs
    exact absurd runs (control.unstarted ready).2.2.1
  | enter starts => exact control.begin (control.starting starts) .syncOn
  | leave starts =>
    exact control.finish (control.result_eq_false (control.starting starts)) (.inr (.inl rfl))
  | keep _ executes foreign held =>
    refine ⟨fun ready => ?_, fun again => ?_, control.starting, control.signalled,
      (fun held => List.mem_cons_of_mem _ (control.acquired held)), control.placed,
      control.rechecking, fun gone => ?_⟩
    · exact absurd ((control.executing executes).1.symm.trans ready) (by simp)
    · rcases control.executing executes with ⟨started, nothing, fresh, unregistered⟩
      refine ⟨started, nothing, fun member => ?_, unregistered⟩
      exact (List.mem_cons.mp member).elim (fun same => foreign same.symm) fresh
    · exact absurd ((control.gone gone).symm.trans held) (by simp)
  | submit executes =>
    refine { control with signalled := fun complete => ?_ }
    have unregistered := (control.executing executes).2.2.2
    exact absurd (unregistered.symm.trans (control.signalled complete).1) (by simp)
  | succeed executes next =>
    refine ⟨fun ready => ?_, fun again => ?_, fun starts => ?_, control.signalled,
      (fun _ => List.mem_cons_self), (fun _ => ?_), fun looks => ?_, control.gone⟩
    · exact absurd ((control.executing executes).1.symm.trans ready) (by simp)
    · rcases next with rfl | ⟨-, rfl⟩ <;> cases again
    · rcases next with rfl | ⟨-, rfl⟩ <;> cases starts
    · rcases next with rfl | ⟨-, rfl⟩ <;> simp
    · rcases next with rfl | ⟨-, rfl⟩ <;> simp at looks
  | giveUp _ executes next =>
    exact control.finish (control.executing executes).2.1 (next.imp_right (.imp_right And.right))
  | stay => exact control
  | error => exact control.readyError
  | fault =>
    have error := control.readyError
    exact { error with }
  | timeout spins =>
    refine control.goto (by simp) (fun ready => ?_) (by simp) (by simp)
    exact absurd (control.unstarted ready).2.2.2 (by simp [spins, HostPoint.polls])
  | advance _ looks next =>
    have runs : system.state = .executing :=
      control.rechecking (looks.elim .inl fun probes => .inr (.inl probes))
    refine control.goto ?_ (fun ready => absurd runs (control.unstarted ready).2.2.1) (fun _ => ?_)
      fun _ => runs
    · rcases next with rfl | rfl <;> simp
    · rcases next with rfl | rfl <;> simp
  | register registers =>
    refine ⟨fun ready => ?_, nofun, nofun,
      fun complete => ⟨rfl, (control.signalled complete).2⟩, control.acquired,
      (fun _ => ⟨by simp, fun _ => .inl rfl⟩), (fun _ => rfl), control.gone⟩
    exact absurd (control.unstarted ready).2.2.2 (by simp [registers, HostPoint.polls])
  | pending rechecks =>
    have runs := control.rechecking (.inr (.inr rechecks))
    exact control.goto (by simp) (fun _ => rfl) (fun _ => ⟨by simp, fun _ => .inl runs⟩) (by simp)
  | deliver => exact control.disposeOwners.disposeResult.readyError
  | release => exact control.goto (by simp) (fun _ => rfl) (by simp) (by simp)
  | dropResult | abandon => exact control.disposeResult.finish rfl (.inr (.inl rfl))
  | leakResult =>
    have ended : Control { system.disposeResult .leaked with point := .over } :=
      control.disposeResult.finish rfl (.inr (.inl rfl))
    exact { ended with }
  | complete => exact control.disposeOwners.disposeResult.finish rfl (.inr (.inl rfl))
  | vanish released =>
    exact { control with gone := fun _ => released }
  | releaseOwners =>
    exact { control with gone := nofun }
  | disposeOwners =>
    exact { control with gone := fun _ => rfl }

/-! ## Accounts -/

def heldResult (system : InFlight) : List Possession :=
  if system.result then [.result] else []

def held (system : InFlight) : List Possession :=
  system.heldResult ++ OwnerSet.all system.owners

/-- Everything the operation came to possess has met one fate or is still held. -/
def Accounts (system : InFlight) : Prop :=
  system.acquired.Perm (system.log.map Disposal.possession ++ system.held)

theorem possession_record {possessions : List Possession} :
    (system.record possessions fate).log.map Disposal.possession =
      system.log.map Disposal.possession ++ possessions := by
  simp [record, Function.comp_def]

section

variable (accounts : Accounts system)

include accounts

theorem Accounts.disposeOwners : Accounts (system.disposeOwners fate) := by
  have moved : (system.disposeOwners fate).log.map Disposal.possession =
      system.log.map Disposal.possession ++ OwnerSet.all system.owners := possession_record
  have left : (system.disposeOwners fate).held = system.heldResult := List.append_nil _
  rw [Accounts, moved, left, List.append_assoc]
  exact accounts.trans (List.perm_append_comm.append_left _)

theorem Accounts.disposeResult : Accounts (system.disposeResult fate) := by
  have moved : (system.disposeResult fate).log.map Disposal.possession =
      system.log.map Disposal.possession ++ system.heldResult := possession_record
  have left : (system.disposeResult fate).held = OwnerSet.all system.owners := rfl
  rw [Accounts, moved, left, List.append_assoc]
  exact accounts

theorem Accounts.congr (acquired : after.acquired = system.acquired)
    (log : after.log = system.log) (result : after.result = system.result)
    (owners : after.owners = system.owners) : Accounts after := by
  rw [Accounts, held, heldResult, acquired, log, result, owners]
  exact accounts

theorem Accounts.step (control : Control system) (moves : Moves system action after) :
    Accounts after := by
  cases moves with
  | @keep _ _ possession owners more _ _ _ isHeld adds =>
    have before : Accounts system := accounts
    rw [Accounts, held, isHeld] at before
    have more : (OwnerSet.all (some more)).Perm (possession :: OwnerSet.all (some owners)) := adds
    have added := (before.cons possession).trans List.perm_middle.symm
    refine added.trans (List.Perm.append_left _ ?_)
    exact List.perm_middle.symm.trans (more.symm.append_left _)
  | @succeed _ _ executes =>
    have nothing := (control.executing executes).2.1
    have before : Accounts system := accounts
    rw [Accounts, held, heldResult, nothing] at before
    exact (before.cons .result).trans List.perm_middle.symm
  | deliver | complete =>
    exact accounts.disposeOwners.disposeResult.congr rfl rfl rfl rfl
  | dropResult | leakResult | abandon => exact accounts.disposeResult.congr rfl rfl rfl rfl
  | disposeOwners => exact accounts.disposeOwners.congr rfl rfl rfl rfl
  | _ => exact accounts.congr rfl rfl rfl rfl

end

theorem count_result_step (control : Control system) (single : system.acquired.count .result ≤ 1)
    (moves : Moves system action after) : after.acquired.count .result ≤ 1 := by
  cases moves with
  | keep _ _ foreign => simpa [List.count_cons, foreign] using single
  | succeed executes =>
    have fresh := (control.executing executes).2.2.1
    simp [List.count_eq_zero_of_not_mem fresh]
  | _ => exact single

/-! ## Nothing is released early -/

def NothingEarly (system : InFlight) : Prop :=
  ∀ disposal ∈ system.log, disposal.fate ≠ .leaked → disposal.unfinished = 0

/-- When `sync_on` returns the error of its wait, it holds no result or the work has
finished. -/
def WaitsOut (system : InFlight) (action : InFlightAction) : Prop :=
  action = .synchronize false → system.result = true → system.unfinished = 0

theorem nothingEarly_record {possessions : List Possession} :
    NothingEarly (system.record possessions fate) ↔
      NothingEarly system ∧ (fate ≠ .leaked → possessions ≠ [] → system.unfinished = 0) := by
  simp only [NothingEarly, record, List.mem_append, List.mem_map]
  constructor
  · intro all
    refine ⟨fun disposal member => all disposal (.inl member), fun kept some => ?_⟩
    cases possessions with
    | nil => exact absurd rfl some
    | cons possession =>
      exact all ⟨possession, fate, system.unfinished⟩
        (.inr ⟨possession, List.mem_cons_self, rfl⟩) kept
  · rintro ⟨earlier, fine⟩ disposal (member | ⟨possession, member, rfl⟩) kept
    · exact earlier disposal member kept
    · exact fine kept (List.ne_nil_of_mem member)

theorem nothingEarly_disposeOwners
    (fine : fate ≠ .leaked → OwnerSet.all system.owners ≠ [] → system.unfinished = 0) :
    NothingEarly (system.disposeOwners fate) ↔ NothingEarly system :=
  nothingEarly_record.trans (and_iff_left fine)

theorem nothingEarly_disposeResult
    (fine : fate ≠ .leaked → system.heldResult ≠ [] → system.unfinished = 0) :
    NothingEarly (system.disposeResult fate) ↔ NothingEarly system :=
  nothingEarly_record.trans (and_iff_left fine)

theorem Control.finished (control : Control system)
    (proven : system.unfinished = 0 ∨ system.complete = true) : system.unfinished = 0 :=
  proven.elim id fun complete => (control.signalled complete).2

theorem heldResult_eq_nil (nothing : system.result = false) : system.heldResult = [] := by
  rw [heldResult, nothing]
  rfl

theorem Control.heldResult_of_delivered (control : Control system)
    (rests : system.point = .resting) (delivered : system.hasUndeliveredSubmission = false) :
    system.heldResult = [] := by
  refine heldResult_eq_nil (eq_false_of_ne_true fun held => ?_)
  rcases (control.placed held).2 rests with runs | complete
  · simp [hasUndeliveredSubmission, held, runs] at delivered
  · simp [hasUndeliveredSubmission, held, complete] at delivered

/-- A step keeps the promise exactly when it is not a failed `sync_on` with work
unfinished. -/
theorem nothingEarly_step (control : Control system) (moves : Moves system action after) :
    NothingEarly after ↔ NothingEarly system ∧ WaitsOut system action := by
  have unrelated (other : action ≠ .synchronize false) {Early : Prop} :
      (Early ↔ NothingEarly system) → (Early ↔ NothingEarly system ∧ WaitsOut system action) :=
    fun same => same.trans (and_iff_left fun is => absurd is other).symm
  have completed (finished : system.unfinished = 0) :
      NothingEarly (system.completeSubmission.disposeResult .delivered) ↔ NothingEarly system := by
    have result : NothingEarly (system.completeSubmission.disposeResult .delivered) ↔ _ :=
      nothingEarly_disposeResult fun _ _ => finished
    exact result.trans (nothingEarly_disposeOwners fun _ _ => finished)
  cases moves with
  | deliver other _ _ proven =>
    exact unrelated other (completed (control.finished proven))
  | complete _ finished => exact unrelated (by simp) (completed finished)
  | dropResult other proven =>
    refine unrelated other ?_
    refine nothingEarly_disposeResult fun _ some => ?_
    rcases proven with finished | ⟨rests, delivered⟩
    · exact finished
    · exact absurd (control.heldResult_of_delivered rests delivered) some
  | leakResult other =>
    exact unrelated other (nothingEarly_disposeResult fun kept => absurd rfl kept)
  | abandon =>
    have dropped : NothingEarly (system.disposeResult .dropped) ↔ _ := nothingEarly_record
    refine dropped.trans (and_congr_right fun _ => ⟨fun fine _ held => ?_, fun waits _ some => ?_⟩)
    · exact fine (by simp) (by simp [held])
    · refine waits rfl (Decidable.byContradiction fun nothing => some ?_)
      simp [nothing]
  | disposeOwners other proven =>
    refine unrelated other ?_
    refine nothingEarly_disposeOwners fun kept some => ?_
    rcases proven with leaked | finished | none
    · exact absurd leaked kept
    · exact finished
    · exact absurd none some
  | finish | signal | begin | resume | enter | leave | submit | succeed | timeout | register
  | pending | vanish => exact unrelated (by simp) .rfl
  | keep other | giveUp other | stay other | error other | fault other | advance other
  | release other | releaseOwners other => exact unrelated other .rfl

/-! ## Runs -/

inductive Starts : InFlight → Prop
  | scheduled : Starts scheduled
  | new : Starts new
  | failed : Starts failed
  | syncOn : Starts syncOn

structure Sound (system : InFlight) : Prop where
  control : Control system
  accounts : Accounts system
  single : system.acquired.count .result ≤ 1

theorem Sound.of_starts (starts : Starts system) : Sound system := by
  cases starts with
  | scheduled | new | failed | syncOn =>
    refine ⟨⟨?_, ?_, ?_, ?_, ?_, ?_, ?_, ?_⟩, .refl _, Nat.zero_le 1⟩ <;>
      simp [scheduled, new, failed, syncOn, HostPoint.polls]

theorem Sound.step (sound : Sound system) (taken : system.step action = some after) :
    Sound after := by
  have moves := moves_of_step taken
  exact ⟨sound.control.step moves, sound.accounts.step sound.control moves,
    count_result_step sound.control sound.single moves⟩

theorem ofFuture_step (future : system.point.ofFuture = true) (moves : Moves system action after) :
    after.point.ofFuture = true := by
  cases moves with
  | enter starts | leave starts =>
    rw [starts] at future
    cases future
  | succeed executes next =>
    rcases next with rfl | ⟨rfl, -⟩
    · rfl
    · rw [executes] at future
      cases future
  | giveUp _ executes next =>
    rcases next with rfl | rfl | ⟨rfl, -⟩
    · rfl
    · rfl
    · rw [executes] at future
      cases future
  | advance _ _ next => rcases next with rfl | rfl <;> rfl
  | complete | abandon => rfl
  | finish | signal | keep | submit | stay | vanish | releaseOwners | disposeOwners => exact future
  | begin | resume | error | fault | timeout | register | pending | deliver | release | dropResult
  | leakResult => rfl

/-- A future keeps the promise by itself. -/
structure FutureSafe (system : InFlight) : Prop where
  control : Control system
  future : system.point.ofFuture = true
  early : NothingEarly system

theorem FutureSafe.of_starts (starts : Starts system) (future : system ≠ syncOn) :
    FutureSafe system := by
  refine ⟨(Sound.of_starts starts).control, ?_, fun disposal member => ?_⟩
  · cases starts with
    | scheduled | new | failed => rfl
    | syncOn => exact absurd rfl future
  · cases starts with
    | scheduled | new | failed | syncOn => cases member

theorem FutureSafe.step (safe : FutureSafe system) (taken : system.step action = some after) :
    FutureSafe after := by
  have moves := moves_of_step taken
  refine ⟨safe.control.step moves, ofFuture_step safe.future moves,
    (nothingEarly_step safe.control moves).mpr ⟨safe.early, fun fails => ?_⟩⟩
  rw [fails] at taken
  simp only [InFlight.step] at taken
  split_ifs at taken with synchronizes
  have future := safe.future
  rw [synchronizes] at future
  cases future

theorem Control.held_eq_nil (control : Control system) (ended : system.point = .over)
    (gone : system.submission = .gone) : system.held = [] := by
  have nothing : system.result = false :=
    eq_false_of_ne_true fun held => (control.placed held).1 ended
  rw [held, heldResult_eq_nil nothing, control.gone gone]
  rfl

/-- Over every sequence of polls and a drop, and over every call of `sync_on`, with any
answers of the driver: everything the operation came to possess meets exactly one fate,
the result at most once, and nothing but a leak happens before the work has finished,
exactly when every failed wait of `sync_on` finds no result or all work finished. -/
theorem released_behind_work_iff {start : InFlight} (starts : Starts start)
    {schedule : List InFlightAction} (runs : execute step start schedule = some system) :
    (NothingEarly system ↔ Along step WaitsOut start schedule) ∧
    (start ≠ syncOn → NothingEarly system) ∧
    system.acquired.Perm (system.log.map Disposal.possession ++ system.held) ∧
    (system.log.map Disposal.possession).count .result ≤ 1 ∧
    (system.point = .over → system.submission = .gone → system.held = []) := by
  have sound : Sound system := execute_invariant Sound.step (.of_starts starts) runs
  have nothing : NothingEarly start := by
    intro _ member
    cases starts with
    | scheduled | new | failed | syncOn => cases member
  have behind : start ≠ syncOn → FutureSafe system := fun future =>
    execute_invariant FutureSafe.step (.of_starts starts future) runs
  refine ⟨?_, fun future => (behind future).early, sound.accounts, ?_, sound.control.held_eq_nil⟩
  · refine (execute_exact Sound.step (fun sound taken =>
      nothingEarly_step sound.control (moves_of_step taken)) (.of_starts starts) runs).trans ?_
    exact and_iff_right nothing
  · have single := sound.single
    rw [sound.accounts.count_eq, List.count_append] at single
    exact Nat.le_trans (Nat.le_add_right _ _) single

/-- A future whose stream faults while it is polled, and the drops after that. -/
def faultedRun : List InFlightAction :=
  [.startPoll true, .retainLease 3, .submit, .executeReturns true, .spin .busy, .spin .timeout,
    .register true, .startPoll true, .check, .probe .faulted, .startDrop, .release (.bind true),
    .release (.probe .faulted), .startRelease, .releaseOwners (.bind true),
    .releaseOwners (.probe .busy), .finish, .releaseOwners (.synchronize true)]

theorem released_behind_work_iff_faultedRun :
    ∃ system, execute step scheduled faultedRun = some system ∧
      system.log = [⟨.result, .leaked, 1⟩, ⟨.lease 3, .dropped, 0⟩] ∧
      NothingEarly system ∧ system.held = [] := by
  refine ⟨_, rfl, rfl, ?_⟩
  have rules := released_behind_work_iff .scheduled
    (show execute step scheduled faultedRun = some _ from rfl)
  exact ⟨rules.2.1 (by decide), rules.2.2.2.2 rfl rfl⟩

/-- `sync_on` drops the result of an operation whose work is unfinished when its wait
fails. -/
theorem syncOn_drops_early :
    ∃ system, execute step syncOn
        [.startSync true, .submit, .executeReturns true, .synchronize false] = some system ∧
      ⟨.result, .dropped, 1⟩ ∈ system.log :=
  ⟨_, rfl, List.mem_singleton_self _⟩

end InFlight

end CuTile.Async
