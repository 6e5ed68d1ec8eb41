import CuTile.Async.ExecuteOnce
import CuTile.Foundation.Fairness
import Mathlib.Tactic.SplitIfs

/-! # Execute-once memoisation is safe and live

The caller that takes the pending operation owns the state until it has stored an outcome,
and then owes the waiting callers a notification. From this follow that the operation runs
once, that all callers share its outcome, and that nobody waits forever.
-/

namespace CuTile.Async

open Function

def OnceState.settled {Out : Type} : OnceState Out → Bool
  | .done _ _ | .failed _ => true
  | _ => false

namespace CallerPhase

variable {Made Out Result : Type}

/-- The caller has taken the operation and not stored an outcome yet. -/
def owns : CallerPhase Made Out Result → Bool
  | .running | .recording _ | .storing _ _ => true
  | _ => false

def result : CallerPhase Made Out Result → Option (Except String Result)
  | .returned result => some result
  | _ => none

/-- Where a caller may stand in each state. -/
def Allowed (once : OnceState Out) (caller : Nat) : CallerPhase Made Out Result → Prop
  | .idle | .looking => True
  | .waiting => once ≠ .pending
  | .running | .recording _ => once = .running caller
  | .storing outcome _ => once = .running caller ∧ outcome.settled = true
  | .notifying _ | .returned _ | .panicked => once.settled = true

variable {once next : OnceState Out} {caller : Nat} {phase : CallerPhase Made Out Result}

/-- Before anybody has taken the operation, nobody is further than the lock. -/
theorem Allowed.of_pending (allowed : phase.Allowed .pending caller) :
    phase.Allowed next caller := by
  cases phase with
  | idle | looking => trivial
  | waiting => exact absurd rfl allowed
  | storing => cases allowed.1
  | running | recording | notifying | returned | panicked => cases allowed

/-- What the other callers do while one owns the operation they may do afterwards. -/
theorem Allowed.of_running {owner : Nat} (allowed : phase.Allowed (.running owner) caller)
    (other : caller ≠ owner) (settled : next.settled = true) : phase.Allowed next caller := by
  cases phase with
  | idle | looking => trivial
  | waiting =>
    rintro rfl
    cases settled
  | running | recording =>
    cases allowed
    exact absurd rfl other
  | storing =>
    cases allowed.1
    exact absurd rfl other
  | notifying | returned | panicked => cases allowed

theorem Allowed.of_settled (allowed : phase.Allowed once caller) (before : once.settled = true)
    (settled : next.settled = true) : phase.Allowed next caller := by
  cases phase with
  | idle | looking => trivial
  | waiting =>
    rintro rfl
    cases settled
  | running | recording =>
    cases allowed
    cases before
  | storing =>
    cases allowed.1
    cases before
  | notifying | returned | panicked => exact settled

theorem Allowed.release (allowed : phase.Allowed once caller) :
    (OnceSystem.release phase).Allowed once caller := by
  cases phase with
  | waiting => trivial
  | _ => exact allowed

theorem release_result : (OnceSystem.release phase).result = phase.result := by
  cases phase <;> rfl

variable {unwinding : Bool}

theorem release_eq_storing {outcome : OnceState Out}
    (stores : OnceSystem.release phase = .storing outcome unwinding) :
    phase = .storing outcome unwinding := by
  cases phase with
  | waiting => cases stores
  | _ => exact stores

theorem afterNotify_ne_storing {outcome : OnceState Out} {stores : Bool} :
    (OnceSystem.afterNotify unwinding : CallerPhase Made Out Result) ≠
      .storing outcome stores := by
  cases unwinding <;> simp [OnceSystem.afterNotify]

theorem afterNotify_result :
    (OnceSystem.afterNotify unwinding : CallerPhase Made Out Result).result = none := by
  cases unwinding <;> rfl

end CallerPhase

namespace OnceSystem

variable {Made Out Result : Type} {sharing : Sharing Made Out Result}
  {system after : OnceSystem Made Out Result}

/-! ## What one step can do -/

def serve (sharing : Sharing Made Out Result) (system : OnceSystem Made Out Result) (caller : Nat)
    (value : Out) (producer : Option Producer) : OnceSystem Made Out Result :=
  { (system.setCaller caller (.returned (sharing.take caller value).1)) with
    once := .done (sharing.take caller value).2 producer }

/-- The transitions, with what each of them finds. -/
inductive Moves (sharing : Sharing Made Out Result) (system : OnceSystem Made Out Result) :
    OnceSystem Made Out Result → Prop
  | call {caller} (phase : system.callers caller = .idle) :
      Moves sharing system (system.setCaller caller .looking)
  | start {caller} (phase : system.callers caller = .looking) (pending : system.once = .pending) :
      Moves sharing system { system.setCaller caller .running with
        once := .running caller, runs := system.runs + 1 }
  | wait {caller thread} (phase : system.callers caller = .looking)
      (running : system.once = .running thread) :
      Moves sharing system (system.setCaller caller .waiting)
  | reject {caller} (phase : system.callers caller = .looking)
      (running : system.once = .running caller) :
      Moves sharing system (system.setCaller caller (.returned (.error reenteredMessage)))
  | fail {caller error} (phase : system.callers caller = .looking)
      (failed : system.once = .failed error) :
      Moves sharing system (system.setCaller caller (.returned (.error error)))
  | refuse {caller value producer error} (phase : system.callers caller = .looking)
      (done : system.once = .done value (some producer))
      (across : sharing.stream caller ≠ producer.stream) :
      Moves sharing system { system.setCaller caller (.returned (.error error)) with
        refused := caller :: system.refused }
  | serveHere {caller value producer} (phase : system.callers caller = .looking)
      (done : system.once = .done value producer)
      (here : ∀ made, producer = some made → sharing.stream caller = made.stream) :
      Moves sharing system (system.serve sharing caller value producer)
  | serveAcross {caller value producer} (phase : system.callers caller = .looking)
      (done : system.once = .done value (some producer)) :
      Moves sharing system ((system.append (sharing.stream caller) (.wait producer.event)).serve
        sharing caller value (some producer))
  | wake {caller} (phase : system.callers caller = .waiting) :
      Moves sharing system (system.setCaller caller .looking)
  | enqueue {caller} (phase : system.callers caller = .running) :
      Moves sharing system (system.append (sharing.stream caller) .work)
  | reenter {caller} (phase : system.callers caller = .running) :
      Moves sharing system { system with
        nested := (caller, .error reenteredMessage) :: system.nested }
  | succeed {caller made} (phase : system.callers caller = .running) :
      Moves sharing system (system.setCaller caller (.recording made))
  | giveUp {caller error unwinding}
      (phase : system.callers caller = .running ∨
        ∃ made, system.callers caller = .recording made) :
      Moves sharing system (system.setCaller caller (.storing (.failed error) unwinding))
  | record {caller made} (phase : system.callers caller = .recording made) :
      Moves sharing system
        { (system.append (sharing.stream caller) (.record system.nextEvent)).setCaller caller
            (.storing (.done (sharing.keep made)
              (some ⟨sharing.stream caller, system.nextEvent⟩)) false) with
          nextEvent := system.nextEvent + 1, made := some made }
  | store {caller outcome unwinding} (phase : system.callers caller = .storing outcome unwinding) :
      Moves sharing system { system.setCaller caller (.notifying unwinding) with once := outcome }
  | notify {caller unwinding} (phase : system.callers caller = .notifying unwinding) :
      Moves sharing system { system with
        callers := Function.update (release ∘ system.callers) caller (afterNotify unwinding) }

variable {caller : Nat}

theorem moves_of_look {waits : Except String Unit} (phase : system.callers caller = .looking) :
    Moves sharing system (system.look sharing caller waits) := by
  unfold look
  cases state : system.once with
  | pending => exact .start phase state
  | running =>
    dsimp only
    split_ifs with same
    · exact .reject phase (same ▸ state)
    · exact .wait phase state
  | failed => exact .fail phase state
  | done _ producer =>
    dsimp only
    cases producer with
    | none => exact .serveHere phase state nofun
    | some producer =>
      by_cases here : sharing.stream caller = producer.stream
      · simp only [join, here, if_true]
        exact .serveHere phase state fun made is => by cases is; exact here
      · cases waits with
        | error =>
          simp only [join, here, if_false]
          exact .refuse phase state here
        | ok =>
          simp only [join, here, if_false]
          exact .serveAcross phase state

theorem moves_of_step {action : OnceAction Made}
    (taken : system.step sharing action = some after) : Moves sharing system after := by
  cases action <;> simp only [step] at taken
  case call caller =>
    split at taken <;> cases taken
    exact .call ‹_›
  case look caller waits =>
    split at taken <;> cases taken
    exact moves_of_look ‹_›
  case wakeSpuriously caller =>
    split at taken <;> cases taken
    exact .wake ‹_›
  case enqueueWork caller =>
    split at taken <;> cases taken
    exact .enqueue ‹_›
  case reenter caller =>
    split at taken
    · split_ifs at taken
      cases taken
      exact .reenter ‹_›
    · cases taken
  case finishRun caller outcome =>
    split at taken
    · split at taken <;> cases taken
      · exact .succeed ‹_›
      · exact .giveUp (.inl ‹_›)
      · exact .giveUp (.inl ‹_›)
    · cases taken
  case record caller recorded =>
    split at taken
    · split at taken <;> cases taken
      · exact .record ‹_›
      · exact .giveUp (.inr ⟨_, ‹_›⟩)
    · cases taken
  case store caller =>
    split at taken <;> cases taken
    exact .store ‹_›
  case notifyAll caller =>
    split at taken <;> cases taken
    exact .notify ‹_›

/-! ## The protocol -/

/-- One caller owns the running operation, a settled state has somebody to notify those who
still wait, and nothing runs a second time. -/
structure Protocol (system : OnceSystem Made Out Result) : Prop where
  allowed : ∀ caller, (system.callers caller).Allowed system.once caller
  owner : ∀ {caller}, system.once = .running caller → (system.callers caller).owns = true
  notifier : system.once.settled = true → ∀ {caller}, system.callers caller = .waiting →
    ∃ other unwinding, system.callers other = .notifying unwinding
  runs : system.runs ≤ 1
  unstarted : system.once = .pending → system.runs = 0

section

variable (protocol : system.Protocol)

include protocol

theorem Protocol.allows {phase : CallerPhase Made Out Result} (is : system.callers caller = phase) :
    phase.Allowed system.once caller :=
  is ▸ protocol.allowed caller

theorem Protocol.not_reentered (phase : system.callers caller = .looking) :
    system.once ≠ .running caller := by
  intro running
  have owns := protocol.owner running
  rw [phase] at owns
  cases owns

theorem Protocol.frame {phase : CallerPhase Made Out Result} (once : after.once = system.once)
    (callers : after.callers = update system.callers caller phase)
    (runs : after.runs = system.runs) (allowed : phase.Allowed system.once caller)
    (owns : (system.callers caller).owns = true → phase.owns = true)
    (notifies : system.once.settled = true →
      phase ≠ .waiting ∧ ∀ unwinding, system.callers caller ≠ .notifying unwinding) :
    after.Protocol := by
  refine ⟨fun other => ?_, fun {other} running => ?_, fun settled other waits => ?_, ?_, ?_⟩
  · rw [once, callers, update_apply]
    split_ifs with same
    · exact same ▸ allowed
    · exact protocol.allowed other
  · rw [once] at running
    rw [callers, update_apply]
    split_ifs with same
    · exact owns (protocol.owner (same ▸ running))
    · exact protocol.owner running
  · rw [once] at settled
    rw [callers] at waits ⊢
    have before := of_update_eq waits (notifies settled).1
    rcases protocol.notifier settled before with ⟨notifier, unwinding, is⟩
    exact ⟨notifier, unwinding, update_eq_of_eq is ((notifies settled).2 unwinding)⟩
  · rw [runs]
    exact protocol.runs
  · rw [once, runs]
    exact protocol.unstarted

theorem Protocol.congr (once : after.once = system.once)
    (callers : after.callers = system.callers) (runs : after.runs = system.runs) :
    after.Protocol := by
  refine ⟨?_, ?_, ?_, ?_, ?_⟩
  · rw [once, callers]
    exact protocol.allowed
  · rw [once, callers]
    exact protocol.owner
  · rw [once, callers]
    exact protocol.notifier
  · rw [runs]
    exact protocol.runs
  · rw [once, runs]
    exact protocol.unstarted

end

variable {value : Out} {producer : Option Producer}

/-- Handing out a part of the value keeps the state settled. -/
theorem Protocol.serve (protocol : system.Protocol) (phase : system.callers caller = .looking)
    (done : system.once.settled = true) :
    (system.serve sharing caller value producer).Protocol := by
  refine ⟨fun other => ?_, nofun, fun _ other waits => ?_,
    protocol.runs, nofun⟩
  · by_cases same : other = caller
    · rw [same]
      simp only [OnceSystem.serve, setCaller_callers, update_self]
      rfl
    · simp only [OnceSystem.serve, setCaller_callers, update_of_ne same]
      exact (protocol.allowed other).of_settled done rfl
  · simp only [OnceSystem.serve, setCaller_callers] at waits ⊢
    rcases protocol.notifier done (of_update_eq waits (by simp)) with ⟨notifier, unwinding, is⟩
    exact ⟨notifier, unwinding, update_eq_of_eq is (by simp [phase])⟩

theorem Protocol.start (protocol : system.Protocol) (pending : system.once = .pending) :
    Protocol { system.setCaller caller .running with
      once := .running caller, runs := system.runs + 1 } := by
  refine ⟨fun other => ?_, fun running => ?_, nofun, ?_,
    nofun⟩
  · simp only [setCaller_callers, update_apply]
    split_ifs with same
    · exact congrArg OnceState.running same.symm
    · have allowed := protocol.allowed other
      rw [pending] at allowed
      exact allowed.of_pending
  · cases running
    simp only [setCaller_callers, update_self]
    rfl
  · simp only [protocol.unstarted pending, Nat.zero_add, Nat.le_refl]

variable {unwinding : Bool}

theorem Protocol.store (protocol : system.Protocol) {outcome : OnceState Out}
    (phase : system.callers caller = .storing outcome unwinding) :
    Protocol { system.setCaller caller (.notifying unwinding) with once := outcome } := by
  have own := protocol.allows phase
  rcases own with ⟨running, settled⟩
  refine ⟨fun other => ?_, fun running => ?_, fun _ other _ => ⟨caller, unwinding, ?_⟩,
    protocol.runs, fun pending => ?_⟩
  · simp only [setCaller_callers, update_apply]
    split_ifs with same
    · exact settled
    · have allowed := protocol.allowed other
      rw [running] at allowed
      exact allowed.of_running same settled
  · dsimp only at running
    rw [running] at settled
    cases settled
  · simp only [setCaller_callers, update_self]
  · dsimp only at pending
    rw [pending] at settled
    cases settled

theorem notified_ne_waiting (unwinding : Bool) (other : Nat) :
    update (release ∘ system.callers) caller (afterNotify unwinding) other ≠
      .waiting := by
  intro waits
  have before : (release ∘ system.callers) other = .waiting :=
    of_update_eq waits (by cases unwinding <;> simp [afterNotify])
  rw [comp_apply] at before
  cases is : system.callers other with
  | _ => simp [is, release] at before

theorem Protocol.notify (protocol : system.Protocol)
    (phase : system.callers caller = .notifying unwinding) :
    Protocol { system with
      callers := update (release ∘ system.callers) caller (afterNotify unwinding) } := by
  have settled := protocol.allows phase
  refine ⟨fun other => ?_, fun running => ?_,
    fun _ other waits => absurd waits (notified_ne_waiting unwinding other), protocol.runs,
    protocol.unstarted⟩
  · simp only [update_apply, afterNotify]
    split_ifs
    · exact settled
    · trivial
    · exact (protocol.allowed other).release
  · dsimp only at running
    rw [running] at settled
    cases settled

theorem Protocol.step (protocol : system.Protocol) (moves : Moves sharing system after) :
    after.Protocol := by
  have quiet : ∀ {caller : Nat} {phase next : CallerPhase Made Out Result},
      system.callers caller = phase → (∀ unwinding, phase ≠ .notifying unwinding) →
      next ≠ .waiting →
      next ≠ .waiting ∧ ∀ unwinding, system.callers caller ≠ .notifying unwinding :=
    fun is quiet other =>
      ⟨other, fun unwinding notifying => quiet unwinding (is.symm.trans notifying)⟩
  have owned : ∀ {caller : Nat} {phase : CallerPhase Made Out Result},
      system.callers caller = phase → phase.owns = true → system.once = .running caller := by
    intro _ phase is owns
    have allowed := protocol.allows is
    cases phase with
    | running | recording => exact allowed
    | storing => exact allowed.1
    | _ => cases owns
  cases moves with
  | call phase | wake phase =>
    exact protocol.frame rfl rfl rfl trivial (by simp [phase, CallerPhase.owns]) fun _ =>
      quiet phase (by simp) (by simp)
  | start _ pending => exact protocol.start pending
  | wait phase running =>
    refine protocol.frame rfl rfl rfl ?_ (by simp [phase, CallerPhase.owns]) fun settled => ?_
    · simp [CallerPhase.Allowed, running]
    · rw [running] at settled
      cases settled
  | reject phase running => exact absurd running (protocol.not_reentered phase)
  | fail phase failed =>
    refine protocol.frame rfl rfl rfl ?_ (by simp [phase, CallerPhase.owns]) fun _ =>
      quiet phase (by simp) (by simp)
    simp [CallerPhase.Allowed, failed, OnceState.settled]
  | refuse phase done =>
    refine protocol.frame rfl rfl rfl ?_ (by simp [phase, CallerPhase.owns]) fun _ =>
      quiet phase (by simp) (by simp)
    simp [CallerPhase.Allowed, done, OnceState.settled]
  | serveHere phase done => exact protocol.serve phase (by rw [done]; rfl)
  | @serveAcross caller _ producer phase done =>
    have appended : (system.append (sharing.stream caller) (.wait producer.event)).Protocol :=
      protocol.congr rfl rfl rfl
    exact appended.serve phase (by rw [append_once, done]; rfl)
  | enqueue | reenter => exact protocol.congr rfl rfl rfl
  | succeed phase =>
    exact protocol.frame rfl rfl rfl (owned phase rfl) (fun _ => rfl) fun _ =>
      quiet phase (by simp) (by simp)
  | giveUp phase =>
    rcases phase with phase | ⟨_, phase⟩
    all_goals
      exact protocol.frame rfl rfl rfl ⟨owned phase rfl, rfl⟩ (fun _ => rfl) fun _ =>
        quiet phase (by simp) (by simp)
  | record phase =>
    exact protocol.frame rfl rfl rfl ⟨owned phase rfl, rfl⟩ (fun _ => rfl) fun _ =>
      quiet phase (by simp) (by simp)
  | store phase => exact protocol.store phase
  | notify phase => exact protocol.notify phase

/-! ## One outcome -/

/-- What callers have taken of the value; those whose stream was not made to wait took
nothing. -/
def handed (system : OnceSystem Made Out Result) (caller : Nat) : Option (Except String Result) :=
  if caller ∈ system.refused then none else (system.callers caller).result

/-- An account of what has been handed out: it starts with nothing, and is kept when a
caller that has nothing yet takes its part. -/
structure Keeps (sharing : Sharing Made Out Result)
    (Account : Made → (Nat → Option (Except String Result)) → Out → Prop) : Prop where
  start : ∀ made, Account made (fun _ => none) (sharing.keep made)
  take : ∀ {made handed value caller}, Account made handed value → handed caller = none →
    Account made (Function.update handed caller (some (sharing.take caller value).1))
      (sharing.take caller value).2

variable {Account : Made → (Nat → Option (Except String Result)) → Out → Prop}

structure Agrees (sharing : Sharing Made Out Result)
    (Account : Made → (Nat → Option (Except String Result)) → Out → Prop)
    (system : OnceSystem Made Out Result) : Prop where
  done : ∀ {value producer}, system.once = .done value producer →
    ∃ made, system.made = some made ∧ Account made system.handed value
  failed : ∀ {error}, system.once = .failed error → ∀ {caller result},
    (system.callers caller).result = some result → result = .error error
  storing : ∀ {caller value producer unwinding},
    system.callers caller = .storing (.done value producer) unwinding →
      ∃ made, system.made = some made ∧ value = sharing.keep made
  refused : ∀ {caller}, caller ∈ system.refused →
    ∃ error, (system.callers caller).result = some (.error error)

theorem Agrees.frame (agrees : Agrees sharing Account system)
    (once : after.once = system.once) (made : after.made = system.made)
    (refused : after.refused = system.refused)
    (results : ∀ caller, (after.callers caller).result = (system.callers caller).result)
    (storing : ∀ {caller value producer unwinding},
      after.callers caller = .storing (.done value producer) unwinding →
        system.callers caller = .storing (.done value producer) unwinding) :
    Agrees sharing Account after := by
  have handed : after.handed = system.handed := by
    funext caller
    rw [OnceSystem.handed, OnceSystem.handed, refused, results]
  refine ⟨fun done => ?_, fun failed caller result given => ?_, fun stores => ?_,
    fun {caller} member => ?_⟩
  · rw [once] at done
    rw [made, handed]
    exact agrees.done done
  · rw [once] at failed
    rw [results] at given
    exact agrees.failed failed given
  · rw [made]
    exact agrees.storing (storing stores)
  · rw [refused] at member
    rw [results]
    exact agrees.refused member

theorem Protocol.result_eq_none (protocol : system.Protocol)
    (unsettled : system.once.settled = false)
    (caller : Nat) : (system.callers caller).result = none := by
  have allowed := protocol.allowed caller
  cases phase : system.callers caller with
  | returned =>
    rw [phase] at allowed
    exact absurd (allowed.symm.trans unsettled) (by simp)
  | _ => rfl

theorem Agrees.not_refused (agrees : Agrees sharing Account system)
    (nothing : (system.callers caller).result = none) : caller ∉ system.refused := by
  intro member
  rcases agrees.refused member with ⟨_, is⟩
  rw [nothing] at is
  cases is

theorem Agrees.serve (agrees : Agrees sharing Account system) (keeps : Keeps sharing Account)
    (phase : system.callers caller = .looking) (done : system.once = .done value producer) :
    Agrees sharing Account (system.serve sharing caller value producer) := by
  have nothing : (system.callers caller).result = none := by rw [phase]; rfl
  have free := agrees.not_refused nothing
  rcases agrees.done done with ⟨made, isMade, account⟩
  have handed : (system.serve sharing caller value producer).handed =
      update system.handed caller (some (sharing.take caller value).1) := by
    funext other
    simp only [OnceSystem.handed, OnceSystem.serve, setCaller_callers, setCaller_refused]
    by_cases same : other = caller
    · rw [same, if_neg free, update_self, update_self]
      rfl
    · rw [update_of_ne same, update_of_ne same]
      rfl
  refine ⟨fun serves => ?_, nofun, fun stores => ?_,
    fun {other} member => ?_⟩
  · cases serves
    rw [handed]
    refine ⟨made, isMade, keeps.take account ?_⟩
    rw [OnceSystem.handed, if_neg free, nothing]
  · exact agrees.storing (of_update_eq stores (by simp))
  · have different : other ≠ caller := by
      rintro rfl
      exact free member
    simp only [OnceSystem.serve, setCaller_callers, update_of_ne different]
    exact agrees.refused member

theorem Agrees.of_unsettled (unsettled : system.once.settled = false)
    (storing : ∀ {caller value producer unwinding},
      system.callers caller = .storing (.done value producer) unwinding →
        ∃ made, system.made = some made ∧ value = sharing.keep made)
    (refused : ∀ caller, caller ∉ system.refused) : Agrees sharing Account system := by
  refine ⟨fun done => ?_, fun failed => ?_, storing, fun {caller} member =>
    absurd member (refused caller)⟩
  · rw [done] at unsettled
    cases unsettled
  · rw [failed] at unsettled
    cases unsettled

section

variable (agrees : Agrees sharing Account system)

include agrees

/-- The owner's outcome becomes everybody's: nobody has a result yet. -/
theorem Agrees.store (keeps : Keeps sharing Account) (protocol : system.Protocol)
    {outcome : OnceState Out} (phase : system.callers caller = .storing outcome unwinding) :
    Agrees sharing Account
      { system.setCaller caller (.notifying unwinding) with once := outcome } := by
  have own := protocol.allows phase
  have nothing : ∀ other, (update system.callers caller (.notifying unwinding)
      other).result = none := by
    intro other
    rw [view_update CallerPhase.result (by rw [phase]; rfl)]
    exact protocol.result_eq_none (by rw [own.1]; rfl) other
  refine ⟨fun {value producer} done => ?_, fun failed other result given => ?_,
    fun stores => ?_, fun {other} member => ?_⟩
  · dsimp only at done
    rw [done] at phase
    rcases agrees.storing phase with ⟨made, isMade, rfl⟩
    refine ⟨made, isMade, ?_⟩
    have none : handed { system.setCaller caller (.notifying unwinding) with once := outcome } =
        fun _ => none := by
      funext other
      rw [handed, setCaller_callers, nothing]
      split_ifs <;> rfl
    rw [none]
    exact keeps.start made
  · rw [setCaller_callers, nothing] at given
    cases given
  · exact agrees.storing (of_update_eq stores (by simp))
  · exact absurd member (agrees.not_refused
      (protocol.result_eq_none (by rw [own.1]; rfl) other))

/-- A caller whose stream could not be made to wait gets nothing, and the value stays. -/
theorem Agrees.refuse {error : String} (phase : system.callers caller = .looking)
    (done : system.once = .done value producer) :
    Agrees sharing Account { system.setCaller caller (.returned (.error error)) with
      refused := caller :: system.refused } := by
  have handed : OnceSystem.handed { system.setCaller caller (.returned (.error error)) with
      refused := caller :: system.refused } = system.handed := by
    funext other
    simp only [OnceSystem.handed, setCaller_callers, List.mem_cons]
    by_cases same : other = caller
    · rw [same, phase, if_pos (.inl rfl)]
      split_ifs <;> rfl
    · rw [update_of_ne same]
      simp only [same, false_or]
  refine ⟨fun {value producer} isDone => ?_, fun failed => ?_, fun stores => ?_,
    fun {other} member => ?_⟩
  · rw [handed]
    exact agrees.done isDone
  · exact absurd (done.symm.trans failed) (by simp)
  · exact agrees.storing (of_update_eq stores (by simp))
  · simp only [setCaller_callers, update_apply]
    split_ifs with same
    · exact ⟨error, rfl⟩
    · exact agrees.refused ((List.mem_cons.mp member).resolve_left same)

theorem Agrees.step (keeps : Keeps sharing Account) (protocol : system.Protocol)
    (moves : Moves sharing system after) : Agrees sharing Account after := by
  have results : ∀ {caller : Nat} {phase next : CallerPhase Made Out Result},
      system.callers caller = phase → next.result = phase.result → ∀ other,
      (update system.callers caller next other).result =
        (system.callers other).result :=
    fun is same other => view_update CallerPhase.result (by rw [is, same]) other
  cases moves with
  | call phase | wait phase | wake phase | succeed phase =>
    exact agrees.frame rfl rfl rfl (results phase (by rfl))
      fun stores => of_update_eq stores (by simp)
  | giveUp phase =>
    rcases phase with phase | ⟨made, phase⟩
    all_goals
      exact agrees.frame rfl rfl rfl (results phase (by rfl)) fun stores =>
        of_update_eq stores (by simp)
  | enqueue | reenter => exact agrees.frame rfl rfl rfl (fun _ => rfl) id
  | start _ pending =>
    exact .of_unsettled (by rfl)
      (fun stores => agrees.storing (of_update_eq stores (by simp)))
      fun other => agrees.not_refused (protocol.result_eq_none (by rw [pending]; rfl) other)
  | reject phase running => exact absurd running (protocol.not_reentered phase)
  | @fail caller _ phase failed =>
    refine ⟨fun done => ?_, fun fails other result given => ?_,
      fun stores => agrees.storing (of_update_eq stores (by simp)), fun {other} member => ?_⟩
    · exact absurd (failed.symm.trans done) (by simp)
    · cases failed.symm.trans fails
      rcases update_cases (CallerPhase.result · = some result) given with ⟨-, now⟩ | ⟨-, before⟩
      · cases now
        rfl
      · exact agrees.failed failed before
    · have different : other ≠ caller := by
        rintro rfl
        exact agrees.not_refused (by rw [phase]; rfl) member
      rw [setCaller_callers, update_of_ne different]
      exact agrees.refused member
  | refuse phase done => exact agrees.refuse phase done
  | serveHere phase done => exact agrees.serve keeps phase done
  | @serveAcross caller _ producer phase done =>
    have appended : Agrees sharing Account
        (system.append (sharing.stream caller) (.wait producer.event)) :=
      agrees.frame rfl rfl rfl (fun _ => rfl) id
    exact appended.serve keeps phase done
  | @record _ made phase =>
    have own := protocol.allows phase
    refine .of_unsettled (by rw [setCaller_once, append_once, own]; rfl)
      (fun {other value producer unwinding} stores => ?_)
      fun other => agrees.not_refused (protocol.result_eq_none (by rw [own]; rfl) other)
    simp only [setCaller_callers] at stores
    rcases update_cases (· = CallerPhase.storing (.done value producer) unwinding) stores with
      ⟨-, now⟩ | ⟨same, before⟩
    · cases now
      exact ⟨made, rfl, rfl⟩
    · -- The state has one owner.
      have owns := protocol.allows before
      cases own.symm.trans owns.1
      exact absurd rfl same
  | store phase => exact agrees.store keeps protocol phase
  | @notify _ _ phase =>
    refine agrees.frame rfl rfl rfl (fun other => ?_) (fun {other} _ _ _ stores => ?_)
    · dsimp only
      rw [view_update CallerPhase.result]
      · exact CallerPhase.release_result
      · rw [comp_apply, phase, CallerPhase.afterNotify_result]
        rfl
    · have before : (release ∘ system.callers) other = _ :=
        of_update_eq stores CallerPhase.afterNotify_ne_storing
      exact CallerPhase.release_eq_storing before

end

/-- `SharedDeviceOp`: the value stays, and everybody gets it. -/
def SharedAccount (made : Made) (handed : Nat → Option (Except String Made)) (value : Made) :
    Prop :=
  value = made ∧ ∀ {caller result}, handed caller = some result → result = .ok made

theorem keeps_sharedAccount (stream : Nat → Nat) :
    Keeps (Sharing.shared stream : Sharing Made Made Made) SharedAccount := by
  refine ⟨fun made => ⟨rfl, nofun⟩, ?_⟩
  rintro made handed value caller ⟨rfl, given⟩ _
  refine ⟨rfl, fun {other result} has => ?_⟩
  rcases update_cases (· = some result) has with ⟨-, now⟩ | ⟨-, before⟩
  · cases now
    rfl
  · exact given before

/-- One half of an unzip: it is there and nobody on its side has been served, or one
caller has it and all others on its side were told so. -/
def HalfAccount {Part : Type} (mine : Nat → Prop) (part : Part) (inject : Part → Result)
    (taken : String) (handed : Nat → Option (Except String Result)) (slot : Option Part) : Prop :=
  (slot = some part ∧ ∀ caller, mine caller → handed caller = none) ∨
    (slot = none ∧ ∃ winner, mine winner ∧ handed winner = some (.ok (inject part)) ∧
      ∀ caller result, mine caller → caller ≠ winner → handed caller = some result →
        result = .error taken)

section HalfAccount

variable {Part : Type} {mine : Nat → Prop} {part : Part} {inject : Part → Result} {taken : String}
  {handed : Nat → Option (Except String Result)} {slot : Option Part} {caller : Nat}

def takeHalf (inject : Part → Result) (taken : String) : Option Part → Except String Result
  | some part => .ok (inject part)
  | none => .error taken

section

variable (account : HalfAccount mine part inject taken handed slot)

include account

theorem HalfAccount.take (own : mine caller) (nothing : handed caller = none) :
    HalfAccount mine part inject taken
      (update handed caller (some (takeHalf inject taken slot))) none := by
  right
  rcases account with ⟨rfl, unserved⟩ | ⟨rfl, winner, wins, gets, others⟩
  · refine ⟨rfl, caller, own, by rw [update_self]; rfl, ?_⟩
    intro other _ isMine different given
    rw [update_of_ne different, unserved other isMine] at given
    cases given
  · have different : winner ≠ caller := by
      rintro rfl
      rw [gets] at nothing
      cases nothing
    refine ⟨rfl, winner, wins, by rw [update_of_ne different, gets], ?_⟩
    intro other result isMine loses given
    rcases update_cases (· = some result) given with ⟨-, now⟩ | ⟨-, before⟩
    · cases now
      rfl
    · exact others other result isMine loses before

theorem HalfAccount.skip {given : Except String Result} (foreign : ¬ mine caller) :
    HalfAccount mine part inject taken (update handed caller (some given)) slot := by
  have other : ∀ {one}, mine one → one ≠ caller := fun isMine same => foreign (same ▸ isMine)
  rcases account with ⟨there, unserved⟩ | ⟨gone, winner, wins, gets, others⟩
  · refine .inl ⟨there, fun one isMine => ?_⟩
    rw [update_of_ne (other isMine), unserved one isMine]
  · refine .inr ⟨gone, winner, wins, by rw [update_of_ne (other wins), gets], ?_⟩
    intro one result isMine loses has
    rw [update_of_ne (other isMine)] at has
    exact others one result isMine loses has

theorem HalfAccount.winner {result : Except String Result} (own : mine caller)
    (given : handed caller = some result) :
    ∃ winner, mine winner ∧ handed winner = some (.ok (inject part)) ∧
      ∀ other result, mine other → other ≠ winner → handed other = some result →
        result = .error taken := by
  rcases account with ⟨-, unserved⟩ | ⟨-, winner⟩
  · rw [unserved caller own] at given
    cases given
  · exact winner

end

end HalfAccount

variable {Left Right : Type} {side : Nat → Half}

def leftTaken : String := "unzip: the left result was already taken"

def rightTaken : String := "unzip: the right result was already taken"

def half (made : Left × Right) : Half → Left ⊕ Right
  | .left => .inl made.1
  | .right => .inr made.2

def takenMessage : Half → String
  | .left => leftTaken
  | .right => rightTaken

def UnzipAccount (side : Nat → Half) (made : Left × Right)
    (handed : Nat → Option (Except String (Left ⊕ Right))) (halves : Option Left × Option Right) :
    Prop :=
  HalfAccount (fun caller => side caller = .left) made.1 .inl leftTaken handed halves.1 ∧
    HalfAccount (fun caller => side caller = .right) made.2 .inr rightTaken handed halves.2

/-- Who is served has a winner on its side, and nobody else there gets the half. -/
theorem UnzipAccount.winner {made : Left × Right}
    {handed : Nat → Option (Except String (Left ⊕ Right))} {halves : Option Left × Option Right}
    (account : UnzipAccount side made handed halves) {result : Except String (Left ⊕ Right)}
    (given : handed caller = some result) :
    ∃ winner, side winner = side caller ∧ handed winner = some (.ok (half made (side caller))) ∧
      ∀ other taken, side other = side caller → other ≠ winner → handed other = some taken →
        taken = .error (takenMessage (side caller)) := by
  cases isSide : side caller with
  | left => exact account.1.winner isSide given
  | right => exact account.2.winner isSide given

theorem take_unzip_left {stream : Nat → Nat} (left : side caller = .left)
    (halves : Option Left × Option Right) :
    (Sharing.unzip stream side).take caller halves =
      (takeHalf .inl leftTaken halves.1, (none, halves.2)) := by
  rcases halves with ⟨one, _⟩
  simp only [Sharing.unzip, left]
  cases one <;> rfl

theorem take_unzip_right {stream : Nat → Nat} (right : side caller = .right)
    (halves : Option Left × Option Right) :
    (Sharing.unzip stream side).take caller halves =
      (takeHalf .inr rightTaken halves.2, (halves.1, none)) := by
  rcases halves with ⟨_, two⟩
  simp only [Sharing.unzip, right]
  cases two <;> rfl

theorem keeps_unzipAccount (stream : Nat → Nat) :
    Keeps (Sharing.unzip stream side : Sharing (Left × Right) _ _) (UnzipAccount side) := by
  refine ⟨fun made => ⟨.inl ⟨rfl, fun _ _ => rfl⟩, .inl ⟨rfl, fun _ _ => rfl⟩⟩, ?_⟩
  rintro made handed halves caller ⟨left, right⟩ nothing
  cases isSide : side caller with
  | left =>
    rw [take_unzip_left isSide]
    exact ⟨left.take isSide nothing, right.skip (by simp [isSide])⟩
  | right =>
    rw [take_unzip_right isSide]
    exact ⟨left.skip (by simp [isSide]), right.take isSide nothing⟩

/-! ## Consumers on other streams -/

/-- The event stands on the producing stream behind all work there, and there is no work
elsewhere. -/
def Recorded (streams : Nat → List StreamEntry) (producer : Producer) : Prop :=
  (∃ before later, streams producer.stream = before ++ .record producer.event :: later ∧
    .work ∉ later) ∧
  ∀ stream, stream ≠ producer.stream → .work ∉ streams stream

/-- Where work can be in each state. -/
def Covers (sharing : Sharing Made Out Result) (streams : Nat → List StreamEntry) :
    OnceState Out → Prop
  | .pending => ∀ stream, .work ∉ streams stream
  | .running caller => ∀ stream, stream ≠ sharing.stream caller → .work ∉ streams stream
  | .done _ (some producer) => Recorded streams producer
  | .done _ none | .failed _ => True

/-- Work is where the state says, and who has the value on another stream has that stream
behind the event. -/
structure Ordered (sharing : Sharing Made Out Result) (system : OnceSystem Made Out Result) :
    Prop where
  covers : Covers sharing system.streams system.once
  storing : ∀ {caller value producer unwinding},
    system.callers caller = .storing (.done value producer) unwinding →
      ∃ made, producer = some made ∧ Recorded system.streams made
  given : ∀ {value}, system.once = .done value none → system.runs = 0
  joined : ∀ {value producer caller result}, system.once = .done value (some producer) →
    (system.callers caller).result = some (.ok result) →
      sharing.stream caller = producer.stream ∨
        .wait producer.event ∈ system.streams (sharing.stream caller)

section Streams

variable {stream other : Nat} {entry : StreamEntry}

theorem mem_append_streams (member : entry ∈ system.streams other) (added : StreamEntry) :
    entry ∈ (system.append stream added).streams other := by
  rw [append_streams, update_apply]
  split_ifs with same
  · exact List.mem_append_left _ (same ▸ member)
  · exact member

theorem work_notMem_append (quiet : .work ∉ system.streams other)
    (different : other ≠ stream ∨ entry ≠ .work) :
    .work ∉ (system.append stream entry).streams other := by
  rw [append_streams, update_apply]
  split_ifs with same
  · rw [List.mem_append, List.mem_singleton]
    rintro (member | is)
    · exact quiet (same ▸ member)
    · exact different.elim (absurd same) (absurd is.symm)
  · exact quiet

theorem Recorded.append {producer : Producer} (recorded : Recorded system.streams producer)
    (notWork : entry ≠ .work) : Recorded (system.append stream entry).streams producer := by
  rcases recorded with ⟨⟨before, later, order, quiet⟩, elsewhere⟩
  refine ⟨?_, fun other different => work_notMem_append (elsewhere other different) (.inr notWork)⟩
  rw [append_streams]
  by_cases same : producer.stream = stream
  · refine ⟨before, later ++ [entry], ?_, ?_⟩
    · rw [same, update_self, ← same, order, List.append_assoc, List.cons_append]
    · rw [List.mem_append, List.mem_singleton]
      rintro (member | is)
      · exact quiet member
      · exact notWork is.symm
  · exact ⟨before, later, by rw [update_of_ne same, order], quiet⟩

end Streams

theorem Ordered.frame (ordered : Ordered sharing system)
    (once : after.once = system.once) (streams : after.streams = system.streams)
    (runs : after.runs = system.runs)
    (results : ∀ {caller result}, (after.callers caller).result = some (.ok result) →
      (system.callers caller).result = some (.ok result))
    (storing : ∀ {caller value producer unwinding},
      after.callers caller = .storing (.done value producer) unwinding →
        system.callers caller = .storing (.done value producer) unwinding) :
    Ordered sharing after := by
  refine ⟨?_, fun stores => ?_, fun done => ?_, fun done given => ?_⟩
  · rw [once, streams]
    exact ordered.covers
  · rw [streams]
    exact ordered.storing (storing stores)
  · rw [once] at done
    rw [runs]
    exact ordered.given done
  · rw [once] at done
    rw [streams]
    exact ordered.joined done (results given)

theorem Ordered.append (ordered : Ordered sharing system) {stream : Nat} {entry : StreamEntry}
    (notWork : entry ≠ .work) : Ordered sharing (system.append stream entry) := by
  refine ⟨?_, fun stores => ?_, ordered.given, fun done given => ?_⟩
  · have covers := ordered.covers
    rw [append_once]
    cases state : system.once with
    | pending =>
      rw [state] at covers
      exact fun other => work_notMem_append (covers other) (.inr notWork)
    | running =>
      rw [state] at covers
      exact fun other different => work_notMem_append (covers other different) (.inr notWork)
    | failed => trivial
    | done _ producer =>
      cases producer with
      | none => trivial
      | some =>
        rw [state] at covers
        exact Recorded.append covers notWork
  · rcases ordered.storing stores with ⟨made, is, recorded⟩
    exact ⟨made, is, recorded.append notWork⟩
  · exact (ordered.joined done given).imp_right fun member => mem_append_streams member entry

theorem Ordered.serve (ordered : Ordered sharing system)
    (done : system.once = .done value producer)
    (joins : ∀ made, producer = some made → sharing.stream caller = made.stream ∨
      .wait made.event ∈ system.streams (sharing.stream caller)) :
    Ordered sharing (system.serve sharing caller value producer) := by
  refine ⟨?_, fun stores => ?_, fun isDone => ?_,
    fun {_ made other result} isDone given => ?_⟩
  · have covers := ordered.covers
    rw [done] at covers
    cases producer with
    | none => trivial
    | some => exact covers
  · exact ordered.storing (of_update_eq stores (by simp))
  · cases isDone
    exact ordered.given done
  · cases isDone
    simp only [OnceSystem.serve, setCaller_callers] at given
    by_cases same : other = caller
    · rw [same]
      exact joins made rfl
    · rw [update_of_ne same] at given
      exact ordered.joined done given

theorem Ordered.of_running {owner : Nat}
    (running : system.once = .running owner)
    (covers : Covers sharing system.streams (.running owner))
    (storing : ∀ {caller value producer unwinding},
      system.callers caller = .storing (.done value producer) unwinding →
        ∃ made, producer = some made ∧ Recorded system.streams made) :
    Ordered sharing system := by
  refine ⟨?_, storing, fun done => ?_, fun done => ?_⟩
  · rw [running]
    exact covers
  · exact absurd (running.symm.trans done) (by simp)
  · exact absurd (running.symm.trans done) (by simp)

theorem Ordered.step (ordered : Ordered sharing system) (protocol : system.Protocol)
    (moves : Moves sharing system after) : Ordered sharing after := by
  -- A caller that stores while another one runs would be a second owner.
  have alone : ∀ {caller : Nat}, system.once = .running caller →
      ∀ {other outcome unwinding}, other ≠ caller →
      system.callers other ≠ .storing outcome unwinding := by
    intro _ running _ _ _ different stores
    have owns := protocol.allows stores
    cases running.symm.trans owns.1
    exact different rfl
  cases moves with
  | call | wait | wake | succeed | giveUp | fail | refuse =>
    exact ordered.frame rfl rfl rfl
      (fun given => view_of_update_eq CallerPhase.result given (by simp [CallerPhase.result]))
      fun stores => of_update_eq stores (by simp)
  | reject phase running => exact absurd running (protocol.not_reentered phase)
  | reenter => exact ordered.frame rfl rfl rfl id id
  | start _ pending =>
    have covers := ordered.covers
    rw [pending] at covers
    exact .of_running rfl (fun stream _ => covers stream) fun stores =>
      ordered.storing (of_update_eq stores (by simp))
  | @enqueue _ phase =>
    have running := protocol.allows phase
    have covers := ordered.covers
    rw [running] at covers
    refine .of_running running (fun stream different => ?_) fun {other} _ _ _ stores => ?_
    · exact work_notMem_append (covers stream different) (.inl different)
    · refine absurd stores (alone running ?_)
      rintro rfl
      exact absurd (phase.symm.trans stores) (by simp)
  | serveHere _ done here =>
    exact ordered.serve done fun made is => .inl (here made is)
  | @serveAcross _ _ _ _ done =>
    refine (ordered.append (by simp)).serve done fun made is => .inr ?_
    cases is
    rw [append_streams, update_self]
    exact List.mem_append_right _ (List.mem_singleton_self _)
  | @record caller _ phase =>
    have running := protocol.allows phase
    have covers := ordered.covers
    rw [running] at covers
    refine .of_running running (fun stream different => ?_) fun {other} _ _ _ stores => ?_
    · exact work_notMem_append (covers stream different) (.inl different)
    · by_cases same : other = caller
      · simp only [setCaller_callers, same, update_self] at stores
        cases stores
        refine ⟨_, rfl, ⟨system.streams (sharing.stream caller), [], ?_, by simp⟩, ?_⟩
        · simp only [setCaller_streams, append_streams, update_self]
        · intro stream different
          exact work_notMem_append (covers stream different) (.inl different)
      · simp only [setCaller_callers, update_of_ne same] at stores
        exact absurd stores (alone running same)
  | @store _ outcome _ phase =>
    have own := protocol.allows phase
    have nothing : ∀ other, (system.callers other).result = none :=
      protocol.result_eq_none (by rw [own.1]; rfl)
    refine ⟨?_, fun stores => ordered.storing (of_update_eq stores (by simp)), fun done => ?_,
      fun {_ _ other _} _ given => ?_⟩
    · dsimp only
      cases outcome with
      | pending | running => cases own.2
      | failed => trivial
      | done =>
        rcases ordered.storing phase with ⟨made, rfl, recorded⟩
        exact recorded
    · dsimp only at done
      rw [done] at phase
      rcases ordered.storing phase with ⟨made, absent, -⟩
      cases absent
    · have before := view_of_update_eq CallerPhase.result given (by simp [CallerPhase.result])
      rw [nothing] at before
      cases before
  | notify =>
    refine ordered.frame rfl rfl rfl (fun {other _} given => ?_) fun {other} _ _ _ stores => ?_
    · have before : ((release ∘ system.callers) other).result = _ :=
        view_of_update_eq CallerPhase.result given (by simp [CallerPhase.afterNotify_result])
      exact CallerPhase.release_result.symm.trans before
    · have before : (release ∘ system.callers) other = _ :=
        of_update_eq stores CallerPhase.afterNotify_ne_storing
      exact CallerPhase.release_eq_storing before

/-! ## Every reachable state -/

/-- The two ways an `ExecuteOnce` is built. -/
def Starts (sharing : Sharing Made Out Result) (system : OnceSystem Made Out Result) : Prop :=
  system = pending ∨ ∃ made, system = done sharing made

structure Invariant (sharing : Sharing Made Out Result)
    (Account : Made → (Nat → Option (Except String Result)) → Out → Prop)
    (system : OnceSystem Made Out Result) : Prop where
  protocol : system.Protocol
  agrees : Agrees sharing Account system
  ordered : Ordered sharing system
  nested : ∀ {caller result}, (caller, result) ∈ system.nested → result = .error reenteredMessage

theorem Moves.nested (moves : Moves sharing system after) :
    after.nested = system.nested ∨
      ∃ caller, after.nested = (caller, .error reenteredMessage) :: system.nested := by
  cases moves with
  | @reenter caller => exact .inr ⟨caller, rfl⟩
  | _ => exact .inl rfl

theorem Protocol.of_starts (starts : Starts sharing system) : system.Protocol := by
  rcases starts with rfl | ⟨_, rfl⟩
  · exact ⟨fun _ => trivial, nofun, nofun,
      Nat.zero_le 1, fun _ => rfl⟩
  · exact ⟨fun _ => trivial, nofun, nofun,
      Nat.zero_le 1, fun _ => rfl⟩

theorem Invariant.of_starts (keeps : Keeps sharing Account) (starts : Starts sharing system) :
    Invariant sharing Account system := by
  refine ⟨.of_starts starts, ?_, ?_, ?_⟩
  · rcases starts with rfl | ⟨made, rfl⟩
    · exact .of_unsettled rfl nofun nofun
    · refine ⟨fun isDone => ?_, nofun, nofun,
        nofun⟩
      cases isDone
      refine ⟨made, rfl, ?_⟩
      have nothing : (done sharing made).handed = fun _ => none := by
        funext caller
        exact ite_self _
      rw [nothing]
      exact keeps.start made
  · rcases starts with rfl | ⟨made, rfl⟩
    · exact ⟨nofun, nofun,
        nofun, nofun⟩
    · exact ⟨trivial, nofun, (fun _ => rfl),
        nofun⟩
  · rcases starts with rfl | ⟨made, rfl⟩
    · exact nofun
    · exact nofun

theorem Invariant.step (keeps : Keeps sharing Account) {action : OnceAction Made}
    (holds : Invariant sharing Account system)
    (taken : system.step sharing action = some after) : Invariant sharing Account after := by
  have moves := moves_of_step taken
  refine ⟨holds.protocol.step moves, holds.agrees.step keeps holds.protocol moves,
    holds.ordered.step holds.protocol moves, fun {caller result} member => ?_⟩
  rcases moves.nested with same | ⟨nested, added⟩
  · exact holds.nested (same ▸ member)
  · rw [added] at member
    rcases List.mem_cons.mp member with is | earlier
    · cases is
      rfl
    · exact holds.nested earlier

theorem Invariant.of_reachable (keeps : Keeps sharing Account) {start : OnceSystem Made Out Result}
    (starts : Starts sharing start) (reached : Reachable (OnceSystem.step sharing) start system) :
    Invariant sharing Account system :=
  reached.invariant (.of_starts keeps starts) (Invariant.step keeps)

/-- What every caller may rely on, whatever is shared: the operation ran at most once, a
call from inside it was turned down, and who has a value has it behind the producing
work. -/
structure Relied (sharing : Sharing Made Out Result) (system : OnceSystem Made Out Result) :
    Prop where
  runs : system.runs ≤ 1
  nested : ∀ {caller result}, (caller, result) ∈ system.nested → result = .error reenteredMessage
  refused : ∀ {caller}, caller ∈ system.refused →
    ∃ error, system.callers caller = .returned (.error error)
  ordered : ∀ {caller result}, system.callers caller = .returned (.ok result) →
    system.runs = 0 ∨ ∃ value producer, system.once = .done value (some producer) ∧
      Recorded system.streams producer ∧
      (sharing.stream caller = producer.stream ∨
        .wait producer.event ∈ system.streams (sharing.stream caller))

theorem Invariant.relied (holds : Invariant sharing Account system) : Relied sharing system := by
  refine ⟨holds.protocol.runs, holds.nested, fun {caller} member => ?_,
    fun {caller result} is => ?_⟩
  · rcases holds.agrees.refused member with ⟨error, given⟩
    cases phase : system.callers caller with
    | returned =>
      rw [phase] at given
      cases given
      exact ⟨error, rfl⟩
    | _ =>
      rw [phase] at given
      cases given
  · have settled := holds.protocol.allows is
    have given : (system.callers caller).result = some (.ok result) := by rw [is]; rfl
    have covers := holds.ordered.covers
    cases state : system.once with
    | pending | running =>
      rw [state] at settled
      cases settled
    | failed => cases holds.agrees.failed state given
    | done value producer =>
      cases producer with
      | none => exact .inl (holds.ordered.given state)
      | some producer =>
        rw [state] at covers
        exact .inr ⟨value, producer, rfl, covers, holds.ordered.joined state given⟩

theorem handed_of_returned {result : Except String Result}
    (is : system.callers caller = .returned result) (served : caller ∉ system.refused) :
    system.handed caller = some result := by
  rw [handed, if_neg served, is]
  rfl

theorem returned_of_handed {result : Except String Result}
    (is : system.handed caller = some result) : system.callers caller = .returned result := by
  rw [handed] at is
  split_ifs at is
  cases phase : system.callers caller with
  | returned =>
    rw [phase] at is
    cases is
    rfl
  | _ =>
    rw [phase] at is
    cases is

end OnceSystem

end CuTile.Async
