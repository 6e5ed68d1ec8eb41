import CuTile.Foundation.Panic

/-! # Computations that request memory

A computation on a state returns a value, stops with an error, or panics, and it reports
the memory it has asked for on the way. It is safe when it does not panic and nothing it
reserved was larger than a limit.
-/

namespace CuTile

open List

inductive Outcome (ε α : Type) where
  | ok (value : α)
  | error (reason : ε)
  | panic (reason : Panic)
deriving DecidableEq, Repr

inductive Request where
  /-- Space for a number of elements, or a copy. -/
  | reserve (bytes : Nat)
  /-- A text of this length. -/
  | text (bytes : Nat)
deriving DecidableEq, Repr

def Request.bytes : Request → Nat
  | .reserve bytes | .text bytes => bytes

structure MeteredRun (σ ε α : Type) where
  requests : List Request
  outcome : Outcome ε α
  state : σ
deriving DecidableEq, Repr

def Metered (σ ε α : Type) : Type := σ → MeteredRun σ ε α

namespace Metered

variable {σ ε α β ι : Type}

def fail (reason : ε) : Metered σ ε α := fun state => ⟨[], .error reason, state⟩

def panics (reason : Panic) : Metered σ ε α := fun state => ⟨[], .panic reason, state⟩

def request (request : Request) : Metered σ ε Unit := fun state => ⟨[request], .ok (), state⟩

def andThen (first : Metered σ ε α) (next : α → Metered σ ε β) : Metered σ ε β := fun state =>
  match (first state).outcome with
  | .ok value =>
    let rest := next value (first state).state
    ⟨(first state).requests ++ rest.requests, rest.outcome, rest.state⟩
  | .error reason => ⟨(first state).requests, .error reason, (first state).state⟩
  | .panic reason => ⟨(first state).requests, .panic reason, (first state).state⟩

instance : Monad (Metered σ ε) where
  pure value := fun state => ⟨[], .ok value, state⟩
  bind := andThen

/-- `unwrap_or`: an error gives way to a default, in the state that it left. -/
def unwrapOr (computation : Metered σ ε α) (default : α) : Metered σ ε α := fun state =>
  match (computation state).outcome with
  | .error _ => ⟨(computation state).requests, .ok default, (computation state).state⟩
  | _ => computation state

def onState {τ : Type} (computation : Metered τ ε α) (inner : τ) : Metered σ ε α := fun state =>
  ⟨(computation inner).requests, (computation inner).outcome, state⟩

def replicate (computation : Metered σ ε α) : Nat → Metered σ ε (List α)
  | 0 => pure []
  | count + 1 => do
    let value ← computation
    let rest ← replicate computation count
    return value :: rest

/-! ## Returning -/

/-- The computation returns `value` and leaves `after`. -/
structure Returns (computation : Metered σ ε α) (before : σ) (value : α) (after : σ) : Prop where
  outcome : (computation before).outcome = .ok value
  state : (computation before).state = after

section Returns

variable {computation first : Metered σ ε α} {next : α → Metered σ ε β}
  {before between after : σ} {value other : α} {result : β}

theorem returns_pure (value : α) (state : σ) :
    Returns (pure value : Metered σ ε α) state value state :=
  ⟨rfl, rfl⟩

theorem returning_bind (value : α) (next : α → Metered σ ε β) :
    (pure value >>= next : Metered σ ε β) = next value := rfl

theorem Returns.bind (early : Returns first before value between)
    (late : Returns (next value) between result after) :
    Returns (first >>= next) before result after := by
  have is : (first >>= next) before = andThen first next before := rfl
  constructor
  · rw [is, andThen, early.outcome, early.state]
    exact late.outcome
  · rw [is, andThen, early.outcome, early.state]
    exact late.state

theorem returns_bind_iff :
    Returns (first >>= next) before result after ↔
      ∃ value between, Returns first before value between ∧
        Returns (next value) between result after := by
  constructor
  · intro returns
    have outcome := returns.outcome
    have state := returns.state
    have is : (first >>= next) before = andThen first next before := rfl
    rw [is, andThen] at outcome state
    split at outcome
    · rename_i value early
      rw [early] at state
      exact ⟨value, _, ⟨early, rfl⟩, ⟨outcome, state⟩⟩
    · cases outcome
    · cases outcome
  · rintro ⟨value, between, early, late⟩
    exact early.bind late

theorem Returns.unique {otherAfter : σ} (left : Returns computation before value after)
    (right : Returns computation before other otherAfter) : value = other ∧ after = otherAfter := by
  have same := left.outcome.symm.trans right.outcome
  cases same
  exact ⟨rfl, left.state.symm.trans right.state⟩

theorem Returns.bind_iff (returns : Returns first before value between) :
    Returns (first >>= next) before result after ↔ Returns (next value) between result after := by
  rw [returns_bind_iff]
  constructor
  · rintro ⟨_, _, early, late⟩
    cases (returns.unique early).1
    cases (returns.unique early).2
    exact late
  · intro late
    exact ⟨value, between, returns, late⟩

theorem returns_replicate_succ_iff {count : Nat} {values : List α} :
    Returns (computation.replicate (count + 1)) before values after ↔
      ∃ value between rest, Returns computation before value between ∧
        Returns (computation.replicate count) between rest after ∧ value :: rest = values := by
  rw [Metered.replicate, returns_bind_iff]
  constructor
  · rintro ⟨value, between, early, late⟩
    rcases returns_bind_iff.mp late with ⟨rest, stop, others, last⟩
    have same := last.unique (returns_pure (value :: rest) stop)
    cases same.1
    cases same.2
    exact ⟨value, between, rest, early, others, rfl⟩
  · rintro ⟨value, between, rest, early, others, rfl⟩
    exact ⟨value, between, early, others.bind (returns_pure _ _)⟩

theorem Returns.length_replicate {count : Nat} {values : List α}
    (returns : Returns (computation.replicate count) before values after) :
    values.length = count := by
  induction count generalizing before values with
  | zero =>
    cases (returns.unique (returns_pure [] before)).1
    rfl
  | succ _ induction =>
    rcases returns_replicate_succ_iff.mp returns with ⟨_, _, _, -, others, rfl⟩
    rw [length_cons, induction others]

theorem Returns.unwrapOr (returns : Returns computation before value after) (default : α) :
    Returns (computation.unwrapOr default) before value after := by
  constructor
  · rw [Metered.unwrapOr, returns.outcome]
    exact returns.outcome
  · rw [Metered.unwrapOr, returns.outcome]
    exact returns.state

theorem Returns.onState {τ : Type} {inner : Metered τ ε α} {start stop : τ}
    (returns : Returns inner start value stop) (state : σ) :
    Returns (inner.onState start : Metered σ ε α) state value state :=
  ⟨returns.outcome, rfl⟩

end Returns

/-! ## Safety -/

/-- No panic, and nothing reserved beyond the limit. -/
structure Safe (limit : Nat) (computation : Metered σ ε α) (state : σ) : Prop where
  noPanic : ∀ reason, (computation state).outcome ≠ .panic reason
  reserved : ∀ bytes, .reserve bytes ∈ (computation state).requests → bytes ≤ limit

section Safe

variable {limit : Nat} {computation first : Metered σ ε α} {next : α → Metered σ ε β} {state : σ}

theorem safe_pure (value : α) : Safe limit (pure value : Metered σ ε α) state :=
  ⟨nofun, nofun⟩

theorem safe_fail (reason : ε) : Safe limit (fail reason : Metered σ ε α) state :=
  ⟨nofun, nofun⟩

theorem not_safe_panics (reason : Panic) : ¬ Safe limit (panics reason : Metered σ ε α) state :=
  fun safe => safe.noPanic reason rfl

theorem safe_reserve_iff {bytes : Nat} :
    Safe limit (request (.reserve bytes) : Metered σ ε Unit) state ↔ bytes ≤ limit := by
  constructor
  · intro safe
    exact safe.reserved bytes mem_cons_self
  · intro fits
    refine ⟨nofun, fun other member => ?_⟩
    cases mem_singleton.mp member
    exact fits

theorem safe_text (bytes : Nat) :
    Safe limit (request (.text bytes) : Metered σ ε Unit) state :=
  ⟨nofun, fun _ member => by cases mem_singleton.mp member⟩

/-- What comes first is safe, and what comes next is, wherever the first part returns. -/
theorem safe_bind_iff :
    Safe limit (first >>= next) state ↔ Safe limit first state ∧
      ∀ value after, Returns first state value after → Safe limit (next value) after := by
  have is : (first >>= next) state = andThen first next state := rfl
  constructor
  · intro safe
    have noPanic := safe.noPanic
    have reserved := safe.reserved
    rw [is, andThen] at noPanic reserved
    refine ⟨⟨?_, ?_⟩, fun value after returns => ?_⟩
    · intro reason panicked
      rw [panicked] at noPanic
      exact noPanic reason rfl
    · intro bytes member
      split at reserved
      · exact reserved bytes (mem_append_left _ member)
      · exact reserved bytes member
      · exact reserved bytes member
    · rw [returns.outcome, returns.state] at noPanic reserved
      exact ⟨noPanic, fun bytes member => reserved bytes (mem_append_right _ member)⟩
  · rintro ⟨early, late⟩
    cases outcome : (first state).outcome with
    | ok value =>
      have later := late value _ ⟨outcome, rfl⟩
      constructor
      · rw [is, andThen, outcome]
        exact later.noPanic
      · rw [is, andThen, outcome]
        intro bytes member
        rcases mem_append.mp member with before | after
        · exact early.reserved bytes before
        · exact later.reserved bytes after
    | error =>
      constructor
      · rw [is, andThen, outcome]
        exact nofun
      · rw [is, andThen, outcome]
        exact early.reserved
    | panic reason => exact absurd outcome (early.noPanic reason)

theorem safe_onState_iff {τ : Type} {inner : Metered τ ε α} {start : τ} :
    Safe limit (inner.onState start : Metered σ ε α) state ↔ Safe limit inner start :=
  ⟨fun safe => ⟨safe.noPanic, safe.reserved⟩, fun safe => ⟨safe.noPanic, safe.reserved⟩⟩

theorem Returns.safe_bind_iff {value : α} {after : σ} (returns : Returns first state value after) :
    Safe limit (first >>= next) state ↔ Safe limit first state ∧ Safe limit (next value) after := by
  rw [Metered.safe_bind_iff]
  refine and_congr_right fun _ => ⟨fun late => late value after returns, fun late => ?_⟩
  intro _ _ is
  cases (returns.unique is).1
  cases (returns.unique is).2
  exact late

theorem safe_replicate_iff {count : Nat} :
    Safe limit (computation.replicate count) state ↔
      ∀ done < count, ∀ values after, Returns (computation.replicate done) state values after →
        Safe limit computation after := by
  induction count generalizing state with
  | zero => exact iff_of_true (safe_pure []) fun done below => absurd below (Nat.not_lt_zero _)
  | succ _ induction =>
    rw [replicate, safe_bind_iff]
    constructor
    · rintro ⟨early, late⟩ done below values after returns
      cases done with
      | zero =>
        cases (returns.unique (returns_pure [] state)).2
        exact early
      | succ done =>
        rcases returns_replicate_succ_iff.mp returns with ⟨value, between, rest, isFirst, others, -⟩
        have rest := (safe_bind_iff.mp (late value between isFirst)).1
        exact induction.mp rest done (Nat.lt_of_succ_lt_succ below) _ after others
    · intro all
      refine ⟨all 0 (Nat.succ_pos _) [] state (returns_pure [] state),
        fun value between isFirst => safe_bind_iff.mpr ⟨induction.mpr ?_, fun rest _ _ =>
          safe_pure _⟩⟩
      intro done below values after others
      exact all (done + 1) (Nat.succ_lt_succ below) (value :: values) after
        (returns_replicate_succ_iff.mpr ⟨value, between, values, isFirst, others, rfl⟩)

/-- A loop whose steps return when they are safe, and leave the state as it is. -/
theorem safe_foldlM_iff_forall {body : β → ι → Metered σ ε β} {Good : ι → Prop} {items : List ι}
    (start : β) (safe : ∀ reached, ∀ item ∈ items, Safe limit (body reached item) state ↔ Good item)
    (returns : ∀ reached, ∀ item ∈ items, Safe limit (body reached item) state →
      ∃ next, Returns (body reached item) state next state) :
    Safe limit (items.foldlM body start) state ↔ ∀ item ∈ items, Good item := by
  induction items generalizing start with
  | nil => exact iff_of_true (safe_pure start) nofun
  | cons head _ induction =>
    rw [forall_mem_cons, foldlM_cons, ← safe start head mem_cons_self]
    by_cases good : Safe limit (body start head) state
    · rcases returns start head mem_cons_self good with ⟨next, is⟩
      rw [is.safe_bind_iff]
      exact and_congr_right fun _ => induction next
        (fun reached item member => safe reached item (mem_cons_of_mem _ member))
        (fun reached item member => returns reached item (mem_cons_of_mem _ member))
    · exact iff_of_false (fun whole => good (safe_bind_iff.mp whole).1) fun both => good both.1

theorem safe_foldlM_of_step {body : β → ι → Metered σ ε β} {items : List ι}
    (step : ∀ reached, ∀ item ∈ items, ∀ state, Safe limit (body reached item) state)
    (start : β) : Safe limit (items.foldlM body start) state := by
  induction items generalizing start state with
  | nil => exact safe_pure start
  | cons head _ induction =>
    rw [foldlM_cons, safe_bind_iff]
    refine ⟨step start head mem_cons_self state, fun next after _ => ?_⟩
    exact induction (fun reached item member => step reached item (mem_cons_of_mem _ member))
      next

end Safe

/-! ## Harmless computations -/

/-- From every state with the invariant: no panic, no reservation, and the invariant holds
again, whether or not there was an error. -/
structure Harmless (Invariant : σ → Prop) (computation : Metered σ ε α) : Prop where
  noPanic : ∀ ⦃state⦄, Invariant state → ∀ reason, (computation state).outcome ≠ .panic reason
  quiet : ∀ ⦃state⦄, Invariant state → ∀ bytes,
    .reserve bytes ∉ (computation state).requests
  keeps : ∀ ⦃state⦄, Invariant state → Invariant (computation state).state

section Harmless

variable {Invariant : σ → Prop} {limit : Nat} {computation first : Metered σ ε α}
  {next : α → Metered σ ε β} {state : σ}

theorem Harmless.safe (harmless : Harmless Invariant computation) (holds : Invariant state) :
    Safe limit computation state :=
  ⟨harmless.noPanic holds, fun bytes member => absurd member (harmless.quiet holds bytes)⟩

theorem Harmless.of_returns {value : α} {after : σ} (harmless : Harmless Invariant computation)
    (holds : Invariant state) (returns : Returns computation state value after) :
    Invariant after :=
  returns.state ▸ harmless.keeps holds

theorem harmless_pure (value : α) : Harmless Invariant (pure value : Metered σ ε α) :=
  ⟨nofun, nofun, fun _ holds => holds⟩

theorem harmless_fail (reason : ε) : Harmless Invariant (fail reason : Metered σ ε α) :=
  ⟨nofun, nofun, fun _ holds => holds⟩

theorem Harmless.bind (early : Harmless Invariant first)
    (late : ∀ value, Harmless Invariant (next value)) : Harmless Invariant (first >>= next) := by
  have run : ∀ state, Invariant state →
      (∀ reason, ((first >>= next) state).outcome ≠ .panic reason) ∧
        (∀ bytes, .reserve bytes ∉ ((first >>= next) state).requests) ∧
          Invariant ((first >>= next) state).state := by
    intro state holds
    have is : (first >>= next) state = andThen first next state := rfl
    have kept := early.keeps holds
    rw [is, andThen]
    split
    · rename_i value outcome
      refine ⟨(late value).noPanic kept, fun bytes member => ?_, (late value).keeps kept⟩
      rcases mem_append.mp member with before | after
      · exact early.quiet holds bytes before
      · exact (late value).quiet kept bytes after
    · exact ⟨nofun, early.quiet holds, kept⟩
    · rename_i reason panicked
      exact absurd panicked (early.noPanic holds reason)
  exact ⟨fun state holds => (run state holds).1, fun state holds => (run state holds).2.1,
    fun state holds => (run state holds).2.2⟩

theorem Harmless.unwrapOr (harmless : Harmless Invariant computation) (default : α) :
    Harmless Invariant (computation.unwrapOr default) := by
  constructor
  · intro state holds reason
    rw [Metered.unwrapOr]
    split
    · exact nofun
    · exact harmless.noPanic holds reason
  · intro state holds bytes
    rw [Metered.unwrapOr]
    split
    · exact harmless.quiet holds bytes
    · exact harmless.quiet holds bytes
  · intro state holds
    rw [Metered.unwrapOr]
    split
    · exact harmless.keeps holds
    · exact harmless.keeps holds

theorem Harmless.onState {τ : Type} {Inner : τ → Prop} {inner : Metered τ ε α} {start : τ}
    (harmless : Harmless Inner inner) (holds : Inner start) :
    Harmless Invariant (inner.onState start) :=
  ⟨fun _ _ => harmless.noPanic holds, fun _ _ => harmless.quiet holds, fun _ kept => kept⟩

theorem Harmless.replicate (harmless : Harmless Invariant computation) (count : Nat) :
    Harmless Invariant (computation.replicate count) := by
  induction count with
  | zero => exact harmless_pure []
  | succ _ induction =>
    exact harmless.bind fun value => induction.bind fun rest => harmless_pure _

/-- After a harmless beginning only what follows matters. -/
theorem Harmless.safe_bind_iff (harmless : Harmless Invariant first) (holds : Invariant state) :
    Safe limit (first >>= next) state ↔
      ∀ value after, Returns first state value after → Safe limit (next value) after := by
  rw [Metered.safe_bind_iff]
  exact and_iff_right (harmless.safe holds)

theorem harmless_text (bytes : Nat) :
    Harmless Invariant (request (.text bytes) : Metered σ ε Unit) :=
  ⟨nofun, (fun _ _ _ member => by cases mem_singleton.mp member),
    fun _ holds => holds⟩

end Harmless

/-! ## Computations that always return -/

/-- Harmless, and there is never an error. -/
structure Steady (Invariant : σ → Prop) (computation : Metered σ ε α) : Prop
    extends Harmless Invariant computation where
  returns : ∀ ⦃state⦄, Invariant state → ∃ value after, Returns computation state value after

section Steady

variable {Invariant : σ → Prop} {limit : Nat} {computation first : Metered σ ε α}
  {next : α → Metered σ ε β} {state : σ}

theorem steady_pure (value : α) : Steady Invariant (pure value : Metered σ ε α) :=
  ⟨harmless_pure value, fun state _ => ⟨value, state, returns_pure value state⟩⟩

theorem Harmless.steady_unwrapOr (harmless : Harmless Invariant computation) (default : α) :
    Steady Invariant (computation.unwrapOr default) := by
  refine ⟨harmless.unwrapOr default, fun state holds => ?_⟩
  cases outcome : (computation state).outcome with
  | ok value => exact ⟨value, _, Returns.unwrapOr ⟨outcome, rfl⟩ default⟩
  | error =>
    refine ⟨default, (computation state).state, ?_, ?_⟩
    · rw [Metered.unwrapOr, outcome]
    · rw [Metered.unwrapOr, outcome]
  | panic reason => exact absurd outcome (harmless.noPanic holds reason)

theorem Steady.bind (early : Steady Invariant first)
    (late : ∀ value, Steady Invariant (next value)) : Steady Invariant (first >>= next) := by
  refine ⟨early.toHarmless.bind fun value => (late value).toHarmless, fun state holds => ?_⟩
  rcases early.returns holds with ⟨value, _, isFirst⟩
  rcases (late value).returns (early.of_returns holds isFirst) with ⟨result, after, isSecond⟩
  exact ⟨result, after, isFirst.bind isSecond⟩

theorem Steady.replicate (steady : Steady Invariant computation) (count : Nat) :
    Steady Invariant (computation.replicate count) := by
  induction count with
  | zero => exact steady_pure []
  | succ _ induction =>
    exact steady.bind fun value => induction.bind fun rest => steady_pure _

theorem Steady.step (steady : Steady Invariant first) (holds : Invariant state) :
    ∃ value after, Returns first state value after ∧ Invariant after := by
  rcases steady.returns holds with ⟨value, after, returns⟩
  exact ⟨value, after, returns, steady.of_returns holds returns⟩

theorem Steady.safe_bind_iff {value : α} {after : σ} (steady : Steady Invariant first)
    (holds : Invariant state) (returns : Returns first state value after) :
    Safe limit (first >>= next) state ↔ Safe limit (next value) after := by
  rw [returns.safe_bind_iff]
  exact and_iff_right (steady.safe holds)

end Steady

/-! ## Computations without errors -/

/-- There is never an error, though there may be a panic. -/
structure Unfailing (Invariant : σ → Prop) (computation : Metered σ ε α) : Prop where
  noError : ∀ ⦃state⦄, Invariant state → ∀ reason, (computation state).outcome ≠ .error reason
  keeps : ∀ ⦃state⦄, Invariant state → Invariant (computation state).state

section Unfailing

variable {Invariant : σ → Prop} {limit : Nat} {computation first : Metered σ ε α}
  {next : α → Metered σ ε β} {state : σ}

theorem Steady.unfailing (steady : Steady Invariant computation) :
    Unfailing Invariant computation := by
  refine ⟨fun state holds reason failed => ?_, steady.keeps⟩
  rcases steady.returns holds with ⟨_, _, returns⟩
  cases failed.symm.trans returns.outcome

theorem Unfailing.bind (early : Unfailing Invariant first)
    (late : ∀ value, Unfailing Invariant (next value)) : Unfailing Invariant (first >>= next) := by
  have run : ∀ state, Invariant state →
      (∀ reason, ((first >>= next) state).outcome ≠ .error reason) ∧
        Invariant ((first >>= next) state).state := by
    intro state holds
    have is : (first >>= next) state = andThen first next state := rfl
    have kept := early.keeps holds
    rw [is, andThen]
    split
    · rename_i value outcome
      exact ⟨(late value).noError kept, (late value).keeps kept⟩
    · rename_i reason failed
      exact absurd failed (early.noError holds reason)
    · exact ⟨nofun, kept⟩
  exact ⟨fun state holds => (run state holds).1, fun state holds => (run state holds).2⟩

theorem Unfailing.returns_of_safe (unfailing : Unfailing Invariant computation)
    (holds : Invariant state) (safe : Safe limit computation state) :
    ∃ value, Returns computation state value (computation state).state := by
  cases outcome : (computation state).outcome with
  | ok value => exact ⟨value, outcome, rfl⟩
  | error reason => exact absurd outcome (unfailing.noError holds reason)
  | panic reason => exact absurd outcome (safe.noPanic reason)

end Unfailing

end Metered

end CuTile
