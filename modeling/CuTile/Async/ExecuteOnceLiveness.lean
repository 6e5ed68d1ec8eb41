import CuTile.Async.ExecuteOnceSafety

/-! # Callers of an execute-once operation come back

A caller is held up by one thread at a time: itself before anybody has taken the
operation, then the owner until it has stored an outcome, then the thread that owes the
notification, and itself again. Each of them brings the caller nearer to its result when
it is scheduled, and nobody leads it back.
-/

namespace CuTile.Async

open Option

namespace CallerPhase

variable {Made Out Result : Type}

/-- How a step can change where a caller stands. -/
inductive Follows (once : OnceState Out) :
    CallerPhase Made Out Result → CallerPhase Made Out Result → Prop
  | stays {phase} : Follows once phase phase
  | call : Follows once .idle .looking
  | start : Follows once .looking .running
  | wait (unsettled : once.settled = false) : Follows once .looking .waiting
  | serve {result} : Follows once .looking (.returned result)
  | wake : Follows once .waiting .looking
  | succeed {made} : Follows once .running (.recording made)
  | giveUp {outcome unwinding} : Follows once .running (.storing outcome unwinding)
  | record {made outcome unwinding} : Follows once (.recording made) (.storing outcome unwinding)
  | store {outcome unwinding} : Follows once (.storing outcome unwinding) (.notifying unwinding)
  | notify {unwinding} : Follows once (.notifying unwinding) (OnceSystem.afterNotify unwinding)

theorem Follows.update {once : OnceState Out} {callers : Nat → CallerPhase Made Out Result}
    {caller : Nat} {phase next : CallerPhase Made Out Result} (is : callers caller = phase)
    (follows : Follows once phase next) (other : Nat) :
    Follows once (callers other) (Function.update callers caller next other) := by
  rw [Function.update_apply]
  split_ifs with same
  · rw [same, is]
    exact follows
  · exact .stays

theorem Follows.ne_idle {once : OnceState Out} {phase next : CallerPhase Made Out Result}
    (follows : Follows once phase next) (started : phase ≠ .idle) : next ≠ .idle := by
  cases follows with
  | stays => exact started
  | @notify unwinding => cases unwinding <;> simp [OnceSystem.afterNotify]
  | _ => simp

end CallerPhase

namespace OnceSystem

variable {Made Out Result : Type} {sharing : Sharing Made Out Result}
  {system after : OnceSystem Made Out Result} {caller : Nat}

theorem Moves.follows (moves : Moves sharing system after) (other : Nat) :
    CallerPhase.Follows system.once (system.callers other) (after.callers other) := by
  cases moves with
  | call phase => exact .update phase .call other
  | start phase => exact .update phase .start other
  | wait phase running => exact .update phase (.wait (by rw [running]; rfl)) other
  | reject phase | fail phase | refuse phase => exact .update phase .serve other
  | serveHere phase | serveAcross phase => exact .update phase .serve other
  | wake phase => exact .update phase .wake other
  | enqueue | reenter => exact .stays
  | succeed phase => exact .update phase .succeed other
  | giveUp phase =>
    rcases phase with phase | ⟨_, phase⟩
    · exact .update phase .giveUp other
    · exact .update phase .record other
  | record phase => exact .update phase .record other
  | store phase => exact .update phase .store other
  | notify phase =>
    simp only [Function.update_apply, Function.comp_apply]
    split_ifs with same
    · rw [same, phase]
      exact .notify
    · cases system.callers other with
      | waiting => exact .wake
      | _ => exact .stays

theorem Moves.settled (moves : Moves sharing system after) (protocol : system.Protocol)
    (settled : system.once.settled = true) : after.once.settled = true := by
  cases moves with
  | start _ pending =>
    rw [pending] at settled
    cases settled
  | serveHere | serveAcross => rfl
  | store phase =>
    exact (protocol.allows phase).2
  | _ => exact settled

/-- Whoever owes a notification still owes it, or has released everybody. -/
theorem Moves.notifying (moves : Moves sharing system after) {notifier : Nat} {unwinding : Bool}
    (notifies : system.callers notifier = .notifying unwinding) :
    after.callers notifier = .notifying unwinding ∨ ∀ other, after.callers other ≠ .waiting := by
  cases moves with
  | @notify _ unwinding =>
    exact .inr (notified_ne_waiting unwinding)
  | enqueue | reenter => exact .inl notifies
  | giveUp phase =>
    rcases phase with phase | ⟨_, phase⟩
    · exact .inl (update_eq_of_eq notifies (by simp [phase]))
    · exact .inl (update_eq_of_eq notifies (by simp [phase]))
  | call phase | start phase | wait phase | reject phase | fail phase | refuse phase
  | serveHere phase | serveAcross phase | wake phase | succeed phase | record phase
  | store phase =>
    exact .inl (update_eq_of_eq notifies (by simp [phase]))

/-! ## What a caller is waiting for -/

def Finished (caller : Nat) (system : OnceSystem Made Out Result) : Prop :=
  (∃ result, system.callers caller = .returned result) ∨ system.callers caller = .panicked

/-- How far a caller is from its result, and the thread it depends on. -/
inductive Stage (caller : Nat) (system : OnceSystem Made Out Result) : Nat → Nat → Prop
  | pending (pending : system.once = .pending) (looks : system.callers caller = .looking) :
      Stage caller system 6 caller
  | running {owner} (phase : system.callers owner = .running) : Stage caller system 5 owner
  | recording {owner made} (phase : system.callers owner = .recording made) :
      Stage caller system 4 owner
  | storing {owner outcome unwinding} (phase : system.callers owner = .storing outcome unwinding) :
      Stage caller system 3 owner
  | waiting {notifier unwinding} (settled : system.once.settled = true)
      (notifies : system.callers notifier = .notifying unwinding)
      (waits : system.callers caller = .waiting) : Stage caller system 2 notifier
  | notifying {unwinding} (notifies : system.callers caller = .notifying unwinding) :
      Stage caller system 2 caller
  | looking (settled : system.once.settled = true) (looks : system.callers caller = .looking) :
      Stage caller system 1 caller

theorem Protocol.stage_of_running (protocol : system.Protocol) {owner : Nat}
    (running : system.once = .running owner) :
    ∃ rank, rank ≤ 5 ∧ Stage caller system rank owner := by
  have owns := protocol.owner running
  cases phase : system.callers owner with
  | running => exact ⟨5, by omega, .running phase⟩
  | recording => exact ⟨4, by omega, .recording phase⟩
  | storing => exact ⟨3, by omega, .storing phase⟩
  | _ =>
    rw [phase] at owns
    cases owns

theorem Protocol.stage_of_settled (protocol : system.Protocol)
    (settled : system.once.settled = true)
    (started : system.callers caller ≠ .idle) :
    Finished caller system ∨ ∃ rank thread, rank ≤ 2 ∧ Stage caller system rank thread := by
  have allowed := protocol.allowed caller
  cases phase : system.callers caller with
  | idle => exact absurd phase started
  | looking => exact .inr ⟨1, caller, by omega, .looking settled phase⟩
  | waiting =>
    rcases protocol.notifier settled phase with ⟨notifier, _, notifies⟩
    exact .inr ⟨2, notifier, Nat.le_refl 2, .waiting settled notifies phase⟩
  | notifying => exact .inr ⟨2, caller, Nat.le_refl 2, .notifying phase⟩
  | returned result => exact .inl (.inl ⟨result, phase⟩)
  | panicked => exact .inl (.inr phase)
  | running | recording =>
    rw [phase] at allowed
    rw [allowed] at settled
    cases settled
  | storing =>
    rw [phase] at allowed
    rw [allowed.1] at settled
    cases settled

theorem Protocol.stage (protocol : system.Protocol) (started : system.callers caller ≠ .idle) :
    Finished caller system ∨ ∃ rank thread, Stage caller system rank thread := by
  cases state : system.once with
  | pending =>
    have allowed := protocol.allowed caller
    rw [state] at allowed
    cases phase : system.callers caller with
    | idle => exact absurd phase started
    | looking => exact .inr ⟨6, caller, .pending state phase⟩
    | waiting =>
      rw [phase] at allowed
      exact absurd rfl allowed
    | storing =>
      rw [phase] at allowed
      cases allowed.1
    | _ =>
      rw [phase] at allowed
      cases allowed
  | running owner =>
    rcases protocol.stage_of_running state with ⟨rank, -, stage⟩
    exact .inr ⟨rank, owner, stage⟩
  | done | failed =>
    have settled : system.once.settled = true := by rw [state]; rfl
    rcases protocol.stage_of_settled settled started with ends | ⟨rank, thread, -, stage⟩
    · exact .inl ends
    · exact .inr ⟨rank, thread, stage⟩

/-- The caller has its result, or is nearer to it. -/
def Nearer (caller : Nat) (system : OnceSystem Made Out Result) (rank : Nat) : Prop :=
  Finished caller system ∨ ∃ lower thread, lower < rank ∧ Stage caller system lower thread

theorem Protocol.nearer_of_settled (protocol : system.Protocol) {rank : Nat} (far : 2 < rank)
    (settled : system.once.settled = true) (started : system.callers caller ≠ .idle) :
    Nearer caller system rank := by
  rcases protocol.stage_of_settled settled started with ends | ⟨lower, thread, low, stage⟩
  · exact .inl ends
  · exact .inr ⟨lower, thread, Nat.lt_of_le_of_lt low far, stage⟩

/-- A step leaves the thread a caller depends on where it is, or brings the caller nearer. -/
theorem Stage.next {rank thread : Nat} (stage : Stage caller system rank thread)
    (protocol : system.Protocol) (started : system.callers caller ≠ .idle)
    (moves : Moves sharing system after) :
    (Stage caller after rank thread ∧ after.callers thread = system.callers thread) ∨
      Nearer caller after rank := by
  have next := protocol.step moves
  have stillStarted := (moves.follows caller).ne_idle started
  have follows := moves.follows thread
  have allowed := next.allowed thread
  cases stage with
  | pending pending looks =>
    cases state : after.once with
    | pending =>
      rw [looks] at follows
      rw [state] at allowed
      generalize phase : after.callers caller = now at follows allowed
      cases follows with
      | stays => exact .inl ⟨.pending state phase, looks.symm⟩
      | wait => exact absurd rfl allowed
      | start | serve => cases allowed
    | running owner =>
      rcases next.stage_of_running state with ⟨lower, low, stage⟩
      exact .inr (.inr ⟨lower, owner, Nat.lt_succ_of_le low, stage⟩)
    | done | failed =>
      exact .inr (next.nearer_of_settled (by omega) (by rw [state]; rfl) stillStarted)
  | running phase =>
    rw [phase] at follows
    generalize now : after.callers thread = reached at follows
    cases follows with
    | stays => exact .inl ⟨.running now, phase.symm⟩
    | succeed => exact .inr (.inr ⟨4, thread, by omega, .recording now⟩)
    | giveUp => exact .inr (.inr ⟨3, thread, by omega, .storing now⟩)
  | recording phase =>
    rw [phase] at follows
    generalize now : after.callers thread = reached at follows
    cases follows with
    | stays => exact .inl ⟨.recording now, phase.symm⟩
    | record => exact .inr (.inr ⟨3, thread, by omega, .storing now⟩)
  | storing phase =>
    rw [phase] at follows
    generalize now : after.callers thread = reached at follows allowed
    cases follows with
    | stays => exact .inl ⟨.storing now, phase.symm⟩
    | store => exact .inr (next.nearer_of_settled (by omega) allowed stillStarted)
  | waiting settled notifies waits =>
    have stillSettled := moves.settled protocol settled
    have own := moves.follows caller
    rw [waits] at own
    generalize now : after.callers caller = reached at own
    cases own with
    | stays =>
      rcases moves.notifying notifies with still | released
      · exact .inl ⟨.waiting stillSettled still now, by rw [still, notifies]⟩
      · exact absurd now (released caller)
    | wake => exact .inr (.inr ⟨1, caller, by omega, .looking stillSettled now⟩)
  | @notifying unwinding notifies =>
    have settled := protocol.allows notifies
    rw [notifies] at follows
    generalize now : after.callers caller = reached at follows
    cases follows with
    | stays => exact .inl ⟨.notifying now, notifies.symm⟩
    | notify =>
      cases unwinding with
      | false =>
        exact .inr (.inr ⟨1, caller, by omega, .looking (moves.settled protocol settled) now⟩)
      | true => exact .inr (.inl (.inr now))
  | looking settled looks =>
    have stillSettled := moves.settled protocol settled
    rw [looks] at follows
    generalize now : after.callers caller = reached at follows allowed
    cases follows with
    | stays => exact .inl ⟨.looking stillSettled now, looks.symm⟩
    | wait unsettled => exact absurd (settled.symm.trans unsettled) (by simp)
    | serve => exact .inr (.inl (.inl ⟨_, now⟩))
    | start =>
      rw [show after.once = _ from allowed] at stillSettled
      cases stillSettled

/-! ## Progress -/

/-- What a thread does on its own once it is scheduled; the run of the operation is among
it, since it comes to an end. -/
def helps (thread : Nat) : OnceAction Made → Prop
  | .look caller _ | .finishRun caller _ | .record caller _ | .store caller
  | .notifyAll caller => caller = thread
  | _ => False

theorem look_callers_ne {waits : Except String Unit} :
    (system.look sharing caller waits).callers caller ≠ .looking := by
  unfold look
  split
  · simp
  · split_ifs <;> simp
  · simp
  · split <;> simp

theorem callers_ne_of_helps {thread : Nat} {action : OnceAction Made}
    (helpful : helps thread action) (taken : system.step sharing action = some after) :
    after.callers thread ≠ system.callers thread := by
  cases action with
  | call | wakeSpuriously | enqueueWork | reenter => cases helpful
  | look =>
    cases helpful
    simp only [step] at taken
    split at taken
    · rename_i phase
      cases taken
      rw [phase]
      exact look_callers_ne
    · cases taken
  | finishRun | record =>
    cases helpful
    simp only [step] at taken
    split at taken
    · rename_i phase
      rw [phase]
      split at taken <;> cases taken <;> simp
    · cases taken
  | store =>
    cases helpful
    simp only [step] at taken
    split at taken
    · rename_i phase
      rw [phase]
      cases taken
      simp
    · cases taken
  | notifyAll =>
    cases helpful
    simp only [step] at taken
    split at taken
    · rename_i unwinding phase
      rw [phase]
      cases taken
      cases unwinding <;> simp [afterNotify]
    · cases taken

theorem Stage.enabled {rank thread : Nat} (stage : Stage caller system rank thread) :
    Run.Enabled (step sharing) helps thread system := by
  cases stage with
  | pending _ looks | looking _ looks =>
    exact ⟨.look caller (.ok ()), rfl, by simp only [step, looks, isSome_some]⟩
  | running phase =>
    exact ⟨.finishRun thread .panic, rfl, by simp only [step, phase, isSome_some]⟩
  | recording phase =>
    exact ⟨.record thread (.error ""), rfl, by simp only [step, phase, isSome_some]⟩
  | storing phase => exact ⟨.store thread, rfl, by simp only [step, phase, isSome_some]⟩
  | waiting _ notifies =>
    exact ⟨.notifyAll thread, rfl, by simp only [step, notifies, isSome_some]⟩
  | notifying notifies =>
    exact ⟨.notifyAll caller, rfl, by simp only [step, notifies, isSome_some]⟩

theorem fair_run_finishes {run : Run (step sharing)} (starts : Starts sharing (run.states 0))
    (fair : run.Fair helps) {time : Nat} (called : (run.states time).callers caller ≠ .idle) :
    ∃ later, time ≤ later ∧ Finished caller (run.states later) := by
  have protocol : (run.states time).Protocol :=
    (run.reachable time).invariant (.of_starts starts) fun holds taken =>
      holds.step (moves_of_step taken)
  rcases protocol.stage called with ends | ⟨rank, thread, stage⟩
  · exact ⟨time, Nat.le_refl time, ends⟩
  · refine fair.leads_to_of_stages (fun system rank thread => system.Protocol ∧
      system.callers caller ≠ .idle ∧ Stage caller system rank thread) (Finished caller) ?_ ?_ ?_
      ⟨protocol, called, stage⟩
    · rintro system rank thread ⟨-, -, stage⟩
      exact stage.enabled
    · rintro system rank thread action next ⟨protocol, started, stage⟩ helpful taken
      have moves := moves_of_step taken
      rcases stage.next protocol started moves with ⟨-, same⟩ | nearer
      · exact absurd same (callers_ne_of_helps helpful taken)
      · rcases nearer with ends | ⟨lower, other, less, stage⟩
        · exact .inl ends
        · exact .inr ⟨lower, other, less, protocol.step moves,
            (moves.follows caller).ne_idle started, stage⟩
    · rintro system rank thread action next ⟨protocol, started, stage⟩ taken
      have moves := moves_of_step taken
      have stillStarted := (moves.follows caller).ne_idle started
      rcases stage.next protocol started moves with ⟨still, -⟩ | nearer
      · exact .inl ⟨protocol.step moves, stillStarted, still⟩
      · rcases nearer with ends | ⟨lower, other, less, stage⟩
        · exact .inr (.inl ends)
        · exact .inr (.inr ⟨lower, other, less, protocol.step moves, stillStarted, stage⟩)

/-! ## The two users -/

/-- The outcome everybody shares: the value that was made, or the error of the failure. -/
structure Shares (system : OnceSystem Made Made Made) (outcome : Except String Made) : Prop where
  made : ∀ {value}, outcome = .ok value → system.made = some value
  failed : ∀ {error}, system.once = .failed error → outcome = .error error
  same : ∀ {caller result}, system.callers caller = .returned result →
    caller ∉ system.refused → result = outcome

theorem Invariant.shares {system : OnceSystem Made Made Made} {stream : Nat → Nat}
    (holds : Invariant (.shared stream) SharedAccount system) :
    ∃ outcome, Shares system outcome := by
  cases state : system.once with
  | pending | running =>
    refine ⟨.error "", nofun, (fun failed => ?_), fun {caller} _ is => ?_⟩
    · exact absurd (state.symm.trans failed) (by simp)
    · have settled := holds.protocol.allows is
      rw [state] at settled
      cases settled
  | failed error =>
    refine ⟨.error error, nofun, (fun failed => ?_), fun is _ => ?_⟩
    · cases state.symm.trans failed
      rfl
    · exact holds.agrees.failed state (by rw [is]; rfl)
  | done =>
    rcases holds.agrees.done state with ⟨made, isMade, -, given⟩
    refine ⟨.ok made, (fun is => ?_), (fun failed => ?_), fun is served => ?_⟩
    · cases is
      exact isMade
    · exact absurd (state.symm.trans failed) (by simp)
    · exact given (handed_of_returned is served)

/-- Each half goes to one caller on its side; the operation's failure goes to everybody. -/
structure Splits {Left Right : Type} (side : Nat → Half)
    (system : OnceSystem (Left × Right) (Option Left × Option Right) (Left ⊕ Right)) : Prop where
  served : ∀ {caller result}, system.callers caller = .returned result → caller ∉ system.refused →
    (∃ error, system.once = .failed error ∧ result = .error error) ∨
    ∃ made winner, system.made = some made ∧ side winner = side caller ∧
      system.callers winner = .returned (.ok (half made (side caller))) ∧
      (caller = winner ∨ result = .error (takenMessage (side caller)))
  unique : ∀ {caller other one two}, side caller = side other →
    system.callers caller = .returned (.ok one) → system.callers other = .returned (.ok two) →
    caller = other

theorem Invariant.not_refused {Account : Made → (Nat → Option (Except String Result)) → Out → Prop}
    (holds : Invariant sharing Account system) {result : Result}
    (is : system.callers caller = .returned (.ok result)) : caller ∉ system.refused := by
  intro member
  rcases holds.agrees.refused member with ⟨_, given⟩
  rw [is] at given
  cases given

theorem Invariant.splits {Left Right : Type} {stream : Nat → Nat} {side : Nat → Half}
    {system : OnceSystem (Left × Right) (Option Left × Option Right) (Left ⊕ Right)}
    (holds : Invariant (.unzip stream side) (UnzipAccount side) system) : Splits side system := by
  refine ⟨fun {caller result} is served => ?_, fun {caller other one two} same first second => ?_⟩
  · have settled := holds.protocol.allows is
    cases state : system.once with
    | pending | running =>
      rw [state] at settled
      cases settled
    | failed error =>
      exact .inl ⟨error, rfl, holds.agrees.failed state (by rw [is]; rfl)⟩
    | done =>
      rcases holds.agrees.done state with ⟨made, isMade, account⟩
      have given := handed_of_returned is served
      rcases account.winner given with ⟨winner, isSide, wins, others⟩
      refine .inr ⟨made, winner, isMade, isSide, returned_of_handed wins, ?_⟩
      by_cases isWinner : caller = winner
      · exact .inl isWinner
      · exact .inr (others caller result rfl isWinner given)
  · have settled := holds.protocol.allows first
    cases state : system.once with
    | pending | running =>
      rw [state] at settled
      cases settled
    | failed => cases holds.agrees.failed state (by rw [first]; rfl)
    | done =>
      rcases holds.agrees.done state with ⟨made, isMade, account⟩
      have given := handed_of_returned first (holds.not_refused first)
      have alsoGiven := handed_of_returned second (holds.not_refused second)
      rcases account.winner given with ⟨winner, -, -, others⟩
      have isWinner : caller = winner := Classical.byContradiction fun loses => by
        cases others caller _ rfl loses given
      have otherWins : other = winner := Classical.byContradiction fun loses => by
        cases others other _ same.symm loses alsoGiven
      rw [isWinner, otherWins]

theorem not_enabled_of_resting (resting : ∀ thread, system.callers thread = .idle ∨
    ∃ result, system.callers thread = .returned result) (thread : Nat) :
    ¬ Run.Enabled (step sharing) helps thread system := by
  rintro ⟨action, helpful, enabled⟩
  cases action with
  | call | wakeSpuriously | enqueueWork | reenter => cases helpful
  | look caller | finishRun caller | record caller | store caller | notifyAll caller =>
    rcases resting caller with rests | ⟨result, rests⟩ <;> simp [step, rests] at enabled

/-- The schedule of two callers: the first runs the operation while the second waits. -/
def twoCallers {Made : Type} (made : Made) : List (OnceAction Made) :=
  [.call 0, .look 0 (.ok ()), .enqueueWork 0, .call 1, .look 1 (.ok ()),
    .finishRun 0 (.success made), .record 0 (.ok ()), .store 0, .notifyAll 0,
    .look 1 (.ok ()), .look 0 (.ok ())]

end OnceSystem

end CuTile.Async
