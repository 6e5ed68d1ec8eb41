import CuTile.Async.SlotTableSafety

/-! # The reactor's scanner loop

`scan_loop` around the completion-slot table: a pass, the signalling of what it found,
the idle test and `thread::park`. `register` unparks the scanner only when its `publish`
saw the armed count leave zero.
-/

namespace CuTile.Async

open Option

/-- Where `scan_loop` stands. -/
inductive LoopPoint where
  | top
  | scanning
  | testing
  /-- In `thread::park`. -/
  | parking
  /-- Something is armed: the loop spins, yields or probes. -/
  | lingering
  | probing
deriving DecidableEq, Repr

/-- The table, its users and the scanner thread with its park token. -/
structure Reactor (Thread P : Type) where
  slots : SlotSystem Thread P
  point : LoopPoint
  token : Bool

inductive ReactorAction (Thread P : Type) where
  /-- A step of a registrant or of the device. -/
  | client (action : SlotAction Thread P)
  /-- The next step of the scanner thread. The pass counter and the clock only decide
  whether a lingering loop probes, so that choice is left open. -/
  | scanner (verdict probes : Bool)
  /-- `park` may return without a token. -/
  | spurious

def SlotAction.isClient {Thread P : Type} : SlotAction Thread P → Bool
  | .startPass _ | .scan _ | .drain => false
  | _ => true

namespace Reactor

variable {Thread P : Type}

def new (numSlots : Nat) : Reactor Thread P where
  slots := .new numSlots
  point := .top
  token := false

/-- `register` returns after a `publish` that reported the idle-to-active transition. -/
def unparks (slots : SlotSystem Thread P) : SlotAction Thread P → Bool
  | .leave thread => slots.registrants thread == .published true
  | _ => false

/-- The scanner waits in `park` and no token releases it. -/
def Blocked (reactor : Reactor Thread P) : Prop :=
  reactor.point = .parking ∧ reactor.token = false

variable [DecidableEq Thread]

/-- One step inside a pass; when the pass is over, what the loop does with its vectors. -/
def passStep (reactor : Reactor Thread P) (verdict : Bool) : Option (Reactor Thread P) :=
  match reactor.slots.scanner with
  | .resting _ =>
    if reactor.point = .scanning ∧ reactor.slots.woken = [] then
      some { reactor with point := .testing }
    else
      (reactor.slots.step .drain).map fun slots => { reactor with slots := slots, point := .top }
  | _ => (reactor.slots.step (.scan verdict)).map fun slots => { reactor with slots := slots }

def scannerStep (reactor : Reactor Thread P) (verdict probes : Bool) :
    Option (Reactor Thread P) :=
  match reactor.point with
  | .top =>
    (reactor.slots.step (.startPass false)).map fun slots =>
      { reactor with slots := slots, point := .scanning }
  | .scanning | .probing => reactor.passStep verdict
  | .testing =>
    some { reactor with point := if reactor.slots.table.isIdle then .parking else .lingering }
  | .parking => if reactor.token then some { reactor with token := false, point := .top } else none
  | .lingering =>
    if probes then
      (reactor.slots.step (.startPass true)).map fun slots =>
        { reactor with slots := slots, point := .probing }
    else some { reactor with point := .top }

def step (reactor : Reactor Thread P) : ReactorAction Thread P → Option (Reactor Thread P)
  | .client action =>
    if action.isClient then
      (reactor.slots.step action).map fun slots =>
        { reactor with slots := slots, token := reactor.token || unparks reactor.slots action }
    else none
  | .scanner verdict probes => reactor.scannerStep verdict probes
  | .spurious => if reactor.point = .parking then some { reactor with point := .top } else none

end Reactor

/-- The thread's `publish` saw the table idle, and it has not unparked the scanner yet. -/
def Registrant.AboutToUnpark : Registrant → Prop
  | .counted _ wasIdle | .published wasIdle => wasIdle = true
  | _ => False

namespace Reactor

variable {Thread P : Type} {reactor after : Reactor Thread P}

/-- A parking scanner will be released, or has nothing to do. -/
def Released (reactor : Reactor Thread P) : Prop :=
  reactor.token = true ∨ (∃ thread, (reactor.slots.registrants thread).AboutToUnpark) ∨
    reactor.slots.table.nArmed = 0

structure Invariant (reactor : Reactor Thread P) : Prop where
  slots : reactor.slots.Accounted
  released : reactor.point = .parking → reactor.Released

/-! ## One client step while the scanner parks -/

section Client

variable {slots next : SlotSystem Thread P} {action : SlotAction Thread P} {thread : Thread}

/-- Threads that owe an unpark keep owing it until they pay, and the counter leaves zero
only through a thread that then owes one. -/
structure KeepsWatch (slots : SlotSystem Thread P) (action : SlotAction Thread P)
    (next : SlotSystem Thread P) : Prop where
  owed : ∀ thread, (slots.registrants thread).AboutToUnpark →
    (next.registrants thread).AboutToUnpark ∨ unparks slots action = true
  counted : slots.table.nArmed = 0 →
    next.table.nArmed = 0 ∨ ∃ thread, (next.registrants thread).AboutToUnpark

theorem keepsWatch_of_same (registrants : next.registrants = slots.registrants)
    (nArmed : next.table.nArmed = slots.table.nArmed) : KeepsWatch slots action next where
  owed _ owes := .inl (registrants ▸ owes)
  counted idle := .inl (nArmed ▸ idle)

variable [DecidableEq Thread]

theorem keepsWatch_of_advance {registrant : Registrant}
    (registrants : next.registrants = Function.update slots.registrants thread registrant)
    (own : (slots.registrants thread).AboutToUnpark →
      registrant.AboutToUnpark ∨ unparks slots action = true)
    (nArmed : slots.table.nArmed = 0 → next.table.nArmed = 0 ∨ registrant.AboutToUnpark) :
    KeepsWatch slots action next where
  owed other owes := by
    rw [registrants]
    by_cases same : other = thread
    · subst same
      rw [Function.update_self]
      exact own owes
    · rw [Function.update_of_ne same]
      exact .inl owes
  counted idle := by
    rcases nArmed idle with still | owes
    · exact .inl still
    · refine .inr ⟨thread, ?_⟩
      rw [registrants, Function.update_self]
      exact owes

theorem keepsWatch_of_step (client : action.isClient = true)
    (taken : slots.step action = some next) : KeepsWatch slots action next := by
  cases action with
  | startPass | scan | drain => cases client
  | deviceWrite =>
    simp only [SlotSystem.step] at taken
    split_ifs at taken
    cases taken
    exact keepsWatch_of_same rfl rfl
  | claim thread =>
    cases stands : slots.registrants thread <;> simp only [SlotSystem.step, stands] at taken
    case outside =>
      cases claims : slots.table.claim with
      | none =>
        simp only [claims] at taken
        cases taken
        exact keepsWatch_of_same rfl rfl
      | some =>
        simp only [claims] at taken
        cases taken
        apply keepsWatch_of_advance rfl
        · rw [stands]
          exact False.elim
        · rcases map_eq_some_iff.mp claims with ⟨_, _, rfl⟩
          exact .inl
    all_goals cases taken
  | enqueueWrite thread =>
    cases stands : slots.registrants thread <;> simp only [SlotSystem.step, stands] at taken
    case reset =>
      split_ifs at taken
      all_goals
        cases taken
        apply keepsWatch_of_advance rfl
        · rw [stands]
          exact False.elim
        · exact .inl
    all_goals cases taken
  | resetFlag thread | release thread | writePayload thread =>
    cases stands : slots.registrants thread <;> simp only [SlotSystem.step, stands] at taken
    all_goals cases taken
    apply keepsWatch_of_advance rfl
    · rw [stands]
      exact False.elim
    · exact .inl
  | countArmed thread =>
    cases stands : slots.registrants thread <;> simp only [SlotSystem.step, stands] at taken
    all_goals cases taken
    apply keepsWatch_of_advance rfl
    · rw [stands]
      exact False.elim
    · intro idle
      exact .inr (beq_iff_eq.mpr idle)
  | setActive thread =>
    cases stands : slots.registrants thread <;> simp only [SlotSystem.step, stands] at taken
    all_goals cases taken
    apply keepsWatch_of_advance rfl
    · rw [stands]
      exact .inl
    · exact .inl
  | leave thread =>
    cases stands : slots.registrants thread <;> simp only [SlotSystem.step, stands] at taken
    all_goals cases taken
    apply keepsWatch_of_advance rfl
    · intro owes
      rw [stands] at owes
      exact .inr (by simp [unparks, stands, show _ = true from owes])
    · exact .inl

end Client

/-! ## The whole system -/

theorem released_of_client {slots : SlotSystem Thread P} {action : SlotAction Thread P}
    (watch : KeepsWatch reactor.slots action slots) (released : reactor.Released) :
    Released { reactor with
      slots := slots, token := reactor.token || unparks reactor.slots action } := by
  rcases released with token | ⟨thread, owes⟩ | idle
  · exact .inl (by simp [token])
  · rcases watch.owed thread owes with still | paid
    · exact .inr (.inl ⟨thread, still⟩)
    · exact .inl (by simp [paid])
  · rcases watch.counted idle with still | owes
    · exact .inr (.inr still)
    · exact .inr (.inl owes)

theorem nArmed_ne_zero_of_active {slots : SlotSystem Thread P} (accounted : slots.Accounted)
    {slot : Nat} (active : slots.table.active slot = true) : slots.table.nArmed ≠ 0 := by
  rcases accounted with ⟨_, use, accounts⟩
  have isArmed := (accounts.table.armed slot).mp active
  have inside := accounts.table.inside (by simp [isArmed] : use slot ≠ .absent)
  have counted :
      (use slot).weight ≤ ∑ slot ∈ Finset.range slots.table.numSlots, (use slot).weight :=
    Finset.single_le_sum (f := fun slot => (use slot).weight) (fun _ _ => Nat.zero_le _) inside
  have weight : (use slot).weight = 1 := by rw [isArmed]; rfl
  rw [accounts.counter]
  omega

variable [DecidableEq Thread]

theorem Invariant.passStep (invariant : reactor.Invariant) (awake : reactor.point ≠ .parking)
    {verdict : Bool} (taken : reactor.passStep verdict = some after) : after.Invariant := by
  unfold Reactor.passStep at taken
  split at taken
  · split_ifs at taken
    · cases taken
      exact ⟨invariant.slots, by simp⟩
    · rcases map_eq_some_iff.mp taken with ⟨slots, stepped, rfl⟩
      exact ⟨invariant.slots.step stepped, by simp⟩
  · rcases map_eq_some_iff.mp taken with ⟨slots, stepped, rfl⟩
    exact ⟨invariant.slots.step stepped, fun parks => absurd parks awake⟩

theorem Invariant.scannerStep (invariant : reactor.Invariant) {verdict probes : Bool}
    (taken : reactor.scannerStep verdict probes = some after) : after.Invariant := by
  unfold Reactor.scannerStep at taken
  cases point : reactor.point <;> simp only [point] at taken
  case top =>
    rcases map_eq_some_iff.mp taken with ⟨slots, stepped, rfl⟩
    exact ⟨invariant.slots.step stepped, by simp⟩
  case testing =>
    cases taken
    refine ⟨invariant.slots, fun parks => .inr (.inr ?_)⟩
    simpa [SlotTable.isIdle] using parks
  case parking =>
    split_ifs at taken
    cases taken
    exact ⟨invariant.slots, by simp⟩
  case lingering =>
    split_ifs at taken
    · rcases map_eq_some_iff.mp taken with ⟨slots, stepped, rfl⟩
      exact ⟨invariant.slots.step stepped, by simp⟩
    · cases taken
      exact ⟨invariant.slots, by simp⟩
  all_goals exact invariant.passStep (by simp [point]) taken

theorem Invariant.step {action : ReactorAction Thread P} (invariant : reactor.Invariant)
    (taken : reactor.step action = some after) : after.Invariant := by
  cases action with
  | client =>
    simp only [Reactor.step] at taken
    split_ifs at taken with client
    rcases map_eq_some_iff.mp taken with ⟨slots, stepped, rfl⟩
    refine ⟨invariant.slots.step stepped, fun parks => ?_⟩
    exact released_of_client (keepsWatch_of_step client stepped) (invariant.released parks)
  | scanner => exact invariant.scannerStep taken
  | spurious =>
    simp only [Reactor.step] at taken
    split_ifs at taken
    cases taken
    exact ⟨invariant.slots, by simp⟩

theorem Invariant.of_reachable {numSlots : Nat}
    (reached : Reachable Reactor.step (Reactor.new numSlots) reactor) : reactor.Invariant :=
  reached.invariant ⟨SlotSystem.accounted_new numSlots, by simp [Reactor.new]⟩ Invariant.step

/-- A blocked scanner leaves no armed slot behind, unless a registrant is on its way to
unpark it; with all registrants outside `register`, nothing is armed. -/
theorem reactor_parks_only_idle (numSlots : Nat)
    (reached : Reachable Reactor.step (Reactor.new numSlots) reactor) :
    ¬ (reactor.Blocked ∧ (∃ slot, reactor.slots.table.active slot = true) ∧
        ∀ thread, ¬ (reactor.slots.registrants thread).AboutToUnpark) ∧
      (reactor.Blocked → (∀ thread, reactor.slots.registrants thread = .outside) →
        ∀ slot, reactor.slots.table.active slot = false) := by
  have invariant := Invariant.of_reachable reached
  have none_armed : reactor.Blocked →
      (∀ thread, ¬ (reactor.slots.registrants thread).AboutToUnpark) →
      ∀ slot, reactor.slots.table.active slot ≠ true := by
    rintro ⟨parks, token⟩ none slot active
    rcases invariant.released parks with present | ⟨thread, owes⟩ | idle
    · simp [token] at present
    · exact none thread owes
    · exact nArmed_ne_zero_of_active invariant.slots active idle
  constructor
  · rintro ⟨blocked, ⟨slot, active⟩, none⟩
    exact none_armed blocked none slot active
  · intro blocked outside slot
    rw [← Bool.not_eq_true]
    apply none_armed blocked
    intro thread
    rw [outside thread]
    exact id

/-- The scanner blocks in `park`; then a registration arms a slot and has yet to unpark. -/
def armingWhileParked : List (ReactorAction Bool Nat) :=
  [.scanner false false, .scanner false false, .scanner false false, .scanner false false,
    .scanner false false, .client (.claim true), .client (.resetFlag true),
    .client (.enqueueWrite true true), .client (.writePayload true 7), .client (.countArmed true),
    .client (.setActive true)]

theorem reactor_parks_only_idle_arming : ∃ reactor : Reactor Bool Nat,
    execute Reactor.step (Reactor.new 1) armingWhileParked = some reactor ∧
      (reactor.point, reactor.token, reactor.slots.table.active 0) = (.parking, false, true) ∧
      ∃ thread, (reactor.slots.registrants thread).AboutToUnpark := by
  have observed : (execute Reactor.step (Reactor.new 1) armingWhileParked).map (fun reactor =>
      (reactor.point, reactor.token, reactor.slots.table.active 0)) =
        some (.parking, false, true) := by
    decide
  rcases map_eq_some_iff.mp observed with ⟨reactor, runs, shows⟩
  have promise := (reactor_parks_only_idle 1 ⟨armingWhileParked, runs⟩).1
  simp only [Prod.mk.injEq] at shows
  refine ⟨reactor, runs, by simp [shows], ?_⟩
  by_contra none
  exact promise ⟨⟨shows.1, shows.2.1⟩, ⟨0, shows.2.2⟩, not_exists.mp none⟩

end Reactor

end CuTile.Async
