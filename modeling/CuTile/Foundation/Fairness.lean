import CuTile.Foundation.Interleaving

/-! # Fair runs

An infinite run of a concurrent system takes one action at a time or stands still. It is
fair when a thread whose helpful actions stay enabled takes one of them. What holds until
a thread's helpful action replaces it is replaced at some time.
-/

namespace CuTile

section Fairness

variable {State Action Thread : Type*}

structure Run (step : State → Action → Option State) where
  states : Nat → State
  actions : Nat → Option Action
  next : ∀ time, (actions time = none ∧ states (time + 1) = states time) ∨
    ∃ action, actions time = some action ∧ step (states time) action = some (states (time + 1))

namespace Run

variable {step : State → Action → Option State} {helps : Thread → Action → Prop}

/-- Some helpful action of the thread can be taken. -/
def Enabled (step : State → Action → Option State) (helps : Thread → Action → Prop)
    (thread : Thread) (state : State) : Prop :=
  ∃ action, helps thread action ∧ (step state action).isSome = true

/-- Weak fairness for the helpful actions of every thread. -/
def Fair (run : Run step) (helps : Thread → Action → Prop) : Prop :=
  ∀ thread time, (∀ later, time ≤ later → Enabled step helps thread (run.states later)) →
    ∃ later, time ≤ later ∧ ∃ action, run.actions later = some action ∧ helps thread action

theorem reachable (run : Run step) (time : Nat) :
    Reachable step (run.states 0) (run.states time) := by
  induction time with
  | zero => exact ⟨[], rfl⟩
  | succ time induction =>
    rcases run.next time with ⟨-, same⟩ | ⟨action, -, taken⟩
    · rw [same]
      exact induction
    · exact induction.extend (show execute step _ [action] = _ by rw [execute, taken]; rfl)

/-- What every step keeps or replaces holds until it is replaced. -/
theorem holds_until (run : Run step) {Before After : State → Prop}
    (stays : ∀ {state action next}, Before state → step state action = some next →
      Before next ∨ After next)
    {time : Nat} (start : Before (run.states time))
    (never : ∀ later, time ≤ later → ¬ After (run.states later)) {later : Nat}
    (le : time ≤ later) : Before (run.states later) := by
  induction le with
  | refl => exact start
  | @step later le induction =>
    rcases run.next later with ⟨-, same⟩ | ⟨action, -, taken⟩
    · rw [Nat.succ_eq_add_one, same]
      exact induction
    · exact (stays induction taken).resolve_right (never (later + 1) (Nat.le_succ_of_le le))

theorem Fair.leads_to {run : Run step} (fair : run.Fair helps) {thread : Thread}
    (Before After : State → Prop)
    (enabled : ∀ {state}, Before state → Enabled step helps thread state)
    (helpful : ∀ {state action next}, Before state → helps thread action →
      step state action = some next → After next)
    (stays : ∀ {state action next}, Before state → step state action = some next →
      Before next ∨ After next)
    {time : Nat} (start : Before (run.states time)) :
    ∃ later, time ≤ later ∧ After (run.states later) := by
  refine Classical.byContradiction fun absent => ?_
  have never : ∀ later, time ≤ later → ¬ After (run.states later) :=
    fun later le holds => absent ⟨later, le, holds⟩
  have holds : ∀ later, time ≤ later → Before (run.states later) := fun later le =>
    run.holds_until stays start never le
  obtain ⟨later, le, action, taken, isHelpful⟩ :=
    fair thread time fun later le => enabled (holds later le)
  rcases run.next later with ⟨still, -⟩ | ⟨other, isTaken, steps⟩
  · rw [taken] at still
    cases still
  · cases taken.symm.trans isTaken
    exact never (later + 1) (by omega) (helpful (holds later le) isHelpful steps)

/-- The rule for progress in several stages: each stage has a thread whose helpful action
leads to a lower one or to the end, and no step leads to a higher one. -/
theorem Fair.leads_to_of_stages {run : Run step} (fair : run.Fair helps)
    (Stage : State → Nat → Thread → Prop) (After : State → Prop)
    (enabled : ∀ {state rank thread}, Stage state rank thread → Enabled step helps thread state)
    (helpful : ∀ {state rank thread action next}, Stage state rank thread → helps thread action →
      step state action = some next →
      After next ∨ ∃ lower other, lower < rank ∧ Stage next lower other)
    (stays : ∀ {state rank thread action next}, Stage state rank thread →
      step state action = some next → Stage next rank thread ∨
      After next ∨ ∃ lower other, lower < rank ∧ Stage next lower other)
    {time rank : Nat} {thread : Thread} (start : Stage (run.states time) rank thread) :
    ∃ later, time ≤ later ∧ After (run.states later) := by
  induction rank using Nat.strongRecOn generalizing time thread with
  | ind rank induction =>
    rcases fair.leads_to (fun state => Stage state rank thread)
        (fun state => After state ∨ ∃ lower other, lower < rank ∧ Stage state lower other)
        enabled helpful stays start with
      ⟨middle, first, ends | ⟨lower, other, less, stage⟩⟩
    · exact ⟨middle, first, ends⟩
    · rcases induction lower less stage with ⟨later, second, ends⟩
      exact ⟨later, Nat.le_trans first second, ends⟩

theorem isSome_execute_take {start : State} {schedule : List Action}
    (completes : (execute step start schedule).isSome = true) (length : Nat) :
    (execute step start (schedule.take length)).isSome = true := by
  rw [← List.take_append_drop length schedule, execute_append] at completes
  exact Option.isSome_of_isSome_bind completes

/-- The run that takes a schedule's actions and then stands still. -/
def ofSchedule (step : State → Action → Option State) (start : State) (schedule : List Action)
    (completes : (execute step start schedule).isSome = true) : Run step where
  states length := (execute step start (schedule.take length)).get
    (isSome_execute_take completes length)
  actions time := schedule[time]?
  next time := by
    cases taken : schedule[time]? with
    | none =>
      have beyond : schedule.length ≤ time := List.getElem?_eq_none_iff.mp taken
      exact .inl ⟨rfl, by simp only [List.take_of_length_le beyond,
        List.take_of_length_le (Nat.le_succ_of_le beyond)]⟩
    | some action =>
      refine .inr ⟨action, rfl, ?_⟩
      have longer : schedule.take (time + 1) = schedule.take time ++ [action] := by
        rw [List.take_add_one, taken]
        rfl
      rw [Option.some_get]
      have here := (Option.some_get (isSome_execute_take completes time)).symm
      generalize (execute step start (schedule.take time)).get _ = state at here ⊢
      rw [longer, execute_append, here]
      simp only [execute, Option.bind_some, Option.bind_fun_some]

/-- It is fair when nothing helpful can be taken where the schedule ends. -/
theorem fair_ofSchedule {start : State} {schedule : List Action}
    {completes : (execute step start schedule).isSome = true} {final : State}
    (ends : execute step start schedule = some final)
    (stuck : ∀ thread, ¬ Enabled step helps thread final) :
    (ofSchedule step start schedule completes).Fair helps := by
  intro thread time enabled
  have last := enabled (max time schedule.length) (Nat.le_max_left _ _)
  simp only [ofSchedule, List.take_of_length_le (Nat.le_max_right _ _), ends,
    Option.get_some] at last
  exact absurd last (stuck thread)

end Run

end Fairness

end CuTile
