import Mathlib.Data.Option.Basic

/-! # Interleavings of atomic actions

A concurrent system is a partial step function on a state: every thread's next atomic
action is one argument of it, and a schedule is a list of such actions. What holds
initially and is kept by every action holds after every schedule.
-/

namespace CuTile

open Function

section Interleaving

variable {State Action : Type*} (step : State → Action → Option State)

/-- The state a schedule leads to; none when an action is not enabled where it stands. -/
def execute : State → List Action → Option State
  | state, [] => some state
  | state, action :: rest => (step state action).bind fun next => execute next rest

/-- Some schedule leads from `initial` to `state`. -/
def Reachable (initial state : State) : Prop :=
  ∃ schedule, execute step initial schedule = some state

variable {step} {initial state : State}

theorem execute_append (first second : List Action) :
    execute step initial (first ++ second) =
      (execute step initial first).bind fun middle => execute step middle second := by
  induction first generalizing initial with
  | nil => rfl
  | cons action _ induction =>
    cases taken : step initial action with
    | none => simp [execute, taken]
    | some => simpa [execute, taken] using induction

variable {Holds : State → Prop} {schedule : List Action}

theorem execute_invariant
    (keeps : ∀ {before action after}, Holds before → step before action = some after → Holds after)
    (start : Holds initial) (runs : execute step initial schedule = some state) : Holds state := by
  induction schedule generalizing initial with
  | nil =>
    cases runs
    exact start
  | cons _ _ induction =>
    rcases Option.bind_eq_some_iff.mp runs with ⟨_, taken, remaining⟩
    exact induction (keeps start taken) remaining

theorem Reachable.extend {after : State} (reached : Reachable step initial state)
    (runs : execute step state schedule = some after) : Reachable step initial after := by
  rcases reached with ⟨earlier, arrives⟩
  refine ⟨earlier ++ schedule, ?_⟩
  rw [execute_append, arrives]
  exact runs

/-- The rule for safety: an invariant of the steps holds in every reachable state. -/
theorem Reachable.invariant (start : Holds initial)
    (keeps : ∀ {before action after}, Holds before → step before action = some after → Holds after)
    (reached : Reachable step initial state) : Holds state := by
  rcases reached with ⟨_, runs⟩
  exact execute_invariant keeps start runs

/-- Every action of a schedule is taken in a state that allows it. -/
def Along (step : State → Action → Option State) (Allows : State → Action → Prop) :
    State → List Action → Prop
  | _, [] => True
  | state, action :: rest =>
    Allows state action ∧ ∀ next, step state action = some next → Along step Allows next rest

/-- The rule for exact conditions: what a step keeps exactly when the state allows the action
holds at the end exactly when every step of the schedule was allowed. -/
theorem execute_exact {Inv : State → Prop} {Allows : State → Action → Prop}
    (keeps : ∀ {before action after}, Inv before → step before action = some after → Inv after)
    (exact : ∀ {before action after}, Inv before → step before action = some after →
      (Holds after ↔ Holds before ∧ Allows before action)) (start : Inv initial)
    (runs : execute step initial schedule = some state) :
    Holds state ↔ Holds initial ∧ Along step Allows initial schedule := by
  induction schedule generalizing initial with
  | nil =>
    cases runs
    exact (and_iff_left trivial).symm
  | cons _ _ induction =>
    rcases Option.bind_eq_some_iff.mp runs with ⟨next, taken, remaining⟩
    rw [induction (keeps start taken) remaining, exact start taken, Along, and_assoc]
    refine and_congr_right fun _ => and_congr_right fun _ =>
      ⟨fun allowed other same => ?_, fun all => all next taken⟩
    cases taken.symm.trans same
    exact allowed

end Interleaving

variable {Thread Phase : Type*}

/-- A view of the threads that does not see a thread's step is unchanged by it. -/
theorem view_update {View : Type*} [DecidableEq Thread] (view : Phase → View)
    {phases : Thread → Phase} {thread : Thread} {phase : Phase}
    (same : view phase = view (phases thread)) (other : Thread) :
    view (update phases thread phase other) = view (phases other) := by
  by_cases isThread : other = thread
  · rw [isThread, update_self, same]
  · rw [update_of_ne isThread]

/-- What is seen of a thread after a step is what the step led to, or was seen before. -/
theorem update_cases [DecidableEq Thread] (Sees : Phase → Prop) {phases : Thread → Phase}
    {thread other : Thread} {phase : Phase}
    (sees : Sees (update phases thread phase other)) :
    other = thread ∧ Sees phase ∨ other ≠ thread ∧ Sees (phases other) := by
  by_cases isThread : other = thread
  · rw [isThread, update_self] at sees
    exact .inl ⟨isThread, sees⟩
  · rw [update_of_ne isThread] at sees
    exact .inr ⟨isThread, sees⟩

/-- A thread seen where the step did not lead was seen there before. -/
theorem view_of_update_eq {View : Type*} [DecidableEq Thread] (view : Phase → View)
    {phases : Thread → Phase} {thread other : Thread} {phase : Phase} {seen : View}
    (sees : view (update phases thread phase other) = seen)
    (different : view phase ≠ seen) : view (phases other) = seen :=
  (update_cases (view · = seen) sees).elim (fun now => absurd now.2 different) And.right

theorem of_update_eq [DecidableEq Thread] {phases : Thread → Phase} {thread other : Thread}
    {phase found : Phase} (finds : update phases thread phase other = found)
    (different : phase ≠ found) : phases other = found :=
  view_of_update_eq id finds different

/-- A thread found where the stepping thread was not is still there. -/
theorem update_eq_of_eq [DecidableEq Thread] {phases : Thread → Phase} {thread other : Thread}
    {phase found : Phase} (finds : phases other = found) (different : phases thread ≠ found) :
    update phases thread phase other = found := by
  have isOther : other ≠ thread := fun same => different (same ▸ finds)
  rw [update_of_ne isOther, finds]

end CuTile
