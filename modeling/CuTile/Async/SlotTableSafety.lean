import CuTile.Foundation.Ownership
import CuTile.Async.SlotTable
import Mathlib.Algebra.Order.BigOperators.Group.Finset

/-! # Safety of the completion-slot table

Every slot has one use at a time. The free list, the registrants, the bitmap and the
scanner each account for the slots of their own use, so that every action moves one slot
(recycling: the retired ones) from one account to the next; the counter and the payloads
are sums over the same map.
-/

namespace CuTile.Async

open Function List Option

/-- How far `register` has come with the slot it holds. -/
inductive Stage where
  | claimed
  | written
  | counted
deriving DecidableEq, Repr

/-- The use of a slot index; those beyond the table are absent. -/
inductive SlotUse (Thread : Type) where
  | absent
  | free
  | held (thread : Thread) (stage : Stage)
  | armed
  | cleared
  | retired
deriving DecidableEq, Repr

namespace SlotUse

variable {Thread : Type}

def occupied : SlotUse Thread → Bool
  | .held _ .written | .held _ .counted | .armed | .cleared => true
  | _ => false

def isArmed : SlotUse Thread → Bool
  | .armed => true
  | _ => false

theorem isArmed_iff {use : SlotUse Thread} : use.isArmed = true ↔ use = .armed := by
  cases use <;> simp [isArmed]

def weight : SlotUse Thread → Nat
  | .held _ .counted | .armed | .cleared | .retired => 1
  | _ => 0

end SlotUse

def Registrant.stage? : Registrant → Option (Nat × Stage)
  | .claimed slot | .reset slot | .refused slot | .enqueued slot => some (slot, .claimed)
  | .written slot => some (slot, .written)
  | .counted slot _ => some (slot, .counted)
  | .outside | .published _ => none

namespace Scanner

/-- Slots the scanner has seen armed and not dealt with yet. -/
def watched : Scanner → List Nat
  | .examining pass => pass.slots
  | .judging pass slot | .clearing pass slot _ _ => slot :: pass.slots
  | .taking pass _ _ _ => pass.slots
  | .resting _ | .loading _ | .discounting _ _ => []

/-- The slot whose bit is cleared and whose payload is still there. -/
def cleared : Scanner → List Nat
  | .taking _ slot _ _ => [slot]
  | _ => []

def retired : Scanner → List Nat
  | .loading pass | .examining pass | .judging pass _ | .clearing pass _ _ _
  | .taking pass _ _ _ => pass.retired
  | .resting _ | .discounting _ _ => []

/-- Slots recycled but still in the armed count. -/
def undiscounted : Scanner → Nat
  | .discounting count _ => count
  | _ => 0

/-- Slots the scanner has taken out of the bitmap and not given back. -/
def retiring (scanner : Scanner) : List Nat :=
  scanner.cleared ++ scanner.retired

/-- What the scanner read about the slot it is about to retire. -/
def Judged : Scanner → Prop
  | .clearing pass _ landed dead | .taking pass _ landed dead =>
    (landed = true ∧ dead = false) ∨ (landed = false ∧ dead = true ∧ pass.probing = true)
  | .judging pass _ => pass.probing = true
  | _ => True

end Scanner

variable {Thread P : Type} {use : Nat → SlotUse Thread}

/-! ## The accounts -/

/-- Every thread accounts for the slot it holds. -/
def HeldBy (registrants : Thread → Registrant) (use : Nat → SlotUse Thread) : Prop :=
  ∀ thread slot stage,
    (registrants thread).stage? = some (slot, stage) ↔ use slot = .held thread stage

structure SlotTable.Matches (table : SlotTable P) (use : Nat → SlotUse Thread) : Prop where
  absent : ∀ slot, use slot = .absent ↔ table.numSlots ≤ slot
  free : AccountsFor use .free table.free
  armed : ∀ slot, table.active slot = true ↔ use slot = .armed
  occupied : ∀ slot, (table.payload slot).isSome = (use slot).occupied

structure Scanner.Matches (scanner : Scanner) (use : Nat → SlotUse Thread) : Prop where
  watched_nodup : scanner.watched.Nodup
  watched_armed : ∀ slot ∈ scanner.watched, use slot = .armed
  cleared : AccountsFor use .cleared scanner.cleared
  retired : AccountsFor use .retired scanner.retired

namespace SlotSystem

/-- The payloads that have left the table. -/
def movedOut (system : SlotSystem Thread P) : Multiset P :=
  (system.signalled ++ system.woken).map Retirement.payload +
    (system.faulted ++ system.dead).map Retirement.payload

def stored (system : SlotSystem Thread P) : Multiset P :=
  ∑ slot ∈ Finset.range system.table.numSlots, (system.table.payload slot).toList

structure Accounts (system : SlotSystem Thread P) (use : Nat → SlotUse Thread) : Prop where
  held : HeldBy system.registrants use
  table : system.table.Matches use
  scanner : system.scanner.Matches use
  counter : system.table.nArmed =
    (∑ slot ∈ Finset.range system.table.numSlots, (use slot).weight +
      system.scanner.undiscounted : Nat)
  conserved : (system.handed : Multiset P) = system.movedOut + system.stored

/-- What was read about the payloads that have left the table. -/
structure Judged (system : SlotSystem Thread P) : Prop where
  scanner : system.scanner.Judged
  woken : ∀ retirement ∈ system.signalled ++ system.woken, retirement.landed = true
  dead : ∀ retirement ∈ system.faulted ++ system.dead,
    retirement.landed = false ∧ retirement.dead = true

end SlotSystem

/-! ## Moving one slot -/

section Frames

variable {next : SlotUse Thread} {slot : Nat}

theorem Scanner.Matches.frame {scanner : Scanner} (accounts : scanner.Matches use)
    (before : use slot ≠ .armed ∧ use slot ≠ .cleared ∧ use slot ≠ .retired)
    (after : next ≠ .cleared ∧ next ≠ .retired) :
    scanner.Matches (update use slot next) := by
  refine ⟨accounts.watched_nodup, fun other watched => ?_,
    accounts.cleared.frame before.2.1 after.1, accounts.retired.frame before.2.2 after.2⟩
  have different : other ≠ slot := by
    rintro rfl
    exact before.1 (accounts.watched_armed other watched)
  rw [update_of_ne different]
  exact accounts.watched_armed other watched

variable {registrants : Thread → Registrant}

theorem HeldBy.frame (accounts : HeldBy registrants use)
    (before : ∀ thread stage, use slot ≠ .held thread stage)
    (after : ∀ thread stage, next ≠ .held thread stage) :
    HeldBy registrants (update use slot next) := by
  intro _ other _
  rw [accounts]
  by_cases same : other = slot
  · subst same
    simp [before, after]
  · rw [update_of_ne same]

variable [DecidableEq Thread]

theorem HeldBy.keep {thread : Thread} {registrant : Registrant}
    (accounts : HeldBy registrants use) (same : registrant.stage? = (registrants thread).stage?) :
    HeldBy (update registrants thread registrant) use := by
  intro other _ _
  rw [← accounts]
  by_cases isThread : other = thread
  · subst isThread
    rw [update_self, same]
  · rw [update_of_ne isThread]

/-- A step of a thread that takes a slot, changes its stage or gives it up. -/
theorem HeldBy.advance {thread : Thread} {registrant : Registrant}
    (accounts : HeldBy registrants use)
    (before : ∀ other stage, (registrants thread).stage? = some (other, stage) → other = slot)
    (own : ∀ other stage, use slot = .held other stage → other = thread)
    (after : ∀ other stage,
      registrant.stage? = some (other, stage) ↔ other = slot ∧ next = .held thread stage)
    (ownNext : ∀ other stage, next = .held other stage → other = thread) :
    HeldBy (update registrants thread registrant) (update use slot next) := by
  intro other position _
  by_cases isThread : other = thread
  · subst isThread
    rw [update_self, after]
    by_cases isSlot : position = slot
    · subst isSlot
      simp
    · rw [update_of_ne isSlot]
      constructor
      · rintro ⟨equal, _⟩
        exact absurd equal isSlot
      · intro held
        exact absurd (before _ _ ((accounts _ _ _).mpr held)) isSlot
  · rw [update_of_ne isThread, accounts]
    by_cases isSlot : position = slot
    · subst isSlot
      rw [update_self]
      constructor
      · intro held
        exact absurd (own _ _ held) isThread
      · intro held
        exact absurd (ownNext _ _ held) isThread
    · rw [update_of_ne isSlot]

end Frames

section Moves

variable {next : SlotUse Thread} {slot : Nat}

variable {table : SlotTable P}

section

variable (accounts : table.Matches use)

include accounts

theorem SlotTable.Matches.inside (present : use slot ≠ .absent) :
    slot ∈ Finset.range table.numSlots := by
  rw [Finset.mem_range]
  exact not_le.mp fun beyond => present ((accounts.absent slot).mpr beyond)

/-- One slot changes its use, and the table with it at that slot only. -/
theorem SlotTable.Matches.move {after : SlotTable P} (size : after.numSlots = table.numSlots)
    (present : use slot ≠ .absent) (presentNext : next ≠ .absent)
    (free : AccountsFor (update use slot next) .free after.free)
    (active : after.active = update table.active slot next.isArmed)
    (payload : ∀ other ≠ slot, after.payload other = table.payload other)
    (occupied : (after.payload slot).isSome = next.occupied) :
    after.Matches (update use slot next) := by
  refine ⟨fun other => ?_, free, fun other => ?_, fun other => ?_⟩
  all_goals by_cases same : other = slot
  · subst same
    rw [update_self, size, ← accounts.absent]
    exact iff_of_false presentNext present
  · rw [update_of_ne same, size, accounts.absent]
  · subst same
    rw [active, update_self, update_self, SlotUse.isArmed_iff]
  · rw [active, update_of_ne same, update_of_ne same, accounts.armed]
  · subst same
    rw [update_self, occupied]
  · rw [update_of_ne same, payload other same, accounts.occupied]

/-- A change of use that neither the bitmap nor the payload cells show. -/
theorem SlotTable.Matches.move_unseen {after : SlotTable P}
    (size : after.numSlots = table.numSlots) (active : after.active = table.active)
    (payload : after.payload = table.payload) (before : use slot ≠ .absent ∧ use slot ≠ .armed)
    (afterwards : next ≠ .absent ∧ next ≠ .armed) (occupied : (use slot).occupied = next.occupied)
    (free : AccountsFor (update use slot next) .free after.free) :
    after.Matches (update use slot next) := by
  apply accounts.move size before.1 afterwards.1 free
  · have clear : table.active slot = next.isArmed := by
      rw [Bool.eq_iff_iff, accounts.armed, SlotUse.isArmed_iff]
      exact iff_of_false before.2 afterwards.2
    rw [active, eq_comm, update_eq_self_iff, clear]
  · intros
    rw [payload]
  · rw [payload, accounts.occupied, occupied]

theorem SlotTable.Matches.weight_move (next : SlotUse Thread) (present : use slot ≠ .absent) :
    ∑ other ∈ Finset.range table.numSlots, (update use slot next other).weight +
        (use slot).weight =
      ∑ other ∈ Finset.range table.numSlots, (use other).weight + next.weight :=
  sum_update_add SlotUse.weight use next (accounts.inside present)

end

end Moves

/-! ## The steps of a registrant -/

namespace SlotSystem.Accounts

variable {system : SlotSystem Thread P} {thread : Thread} {slot : Nat}

variable {registrant : Registrant}

theorem use_of_stage (accounts : system.Accounts use) {stage : Stage}
    (stands : system.registrants thread = registrant)
    (holds : registrant.stage? = some (slot, stage)) : use slot = .held thread stage := by
  rw [← accounts.held, stands, holds]

/-- A thread holds `slot`, or it holds none and the slot is free. -/
def Near (use : Nat → SlotUse Thread) (thread : Thread) (registrant : Registrant) (slot : Nat) :
    Prop :=
  (use slot = .free ∧ registrant.stage? = none) ∨
    ∃ stage, use slot = .held thread stage ∧ registrant.stage? = some (slot, stage)

theorem near_of_stage (accounts : system.Accounts use) {stage : Stage}
    (stands : system.registrants thread = registrant)
    (holds : registrant.stage? = some (slot, stage)) :
    Near use thread (system.registrants thread) slot :=
  .inr ⟨stage, accounts.use_of_stage stands holds, by rw [stands, holds]⟩

variable [DecidableEq Thread]

/-- A step that changes neither the thread's hold nor what the table accounts for. -/
theorem keep (accounts : system.Accounts use)
    (same : registrant.stage? = (system.registrants thread).stage?) (flags : Nat → Nat)
    (writes : Nat → Nat) :
    Accounts { system.advance thread registrant { system.table with flags := flags } with
      writes := writes } use where
  held := accounts.held.keep same
  table := { accounts.table with }
  scanner := accounts.scanner
  counter := accounts.counter
  conserved := accounts.conserved

variable {table : SlotTable P}

section

variable (accounts : system.Accounts use)

include accounts

/-- A step that moves the slot a thread holds, or is about to hold, to its next use. -/
theorem move {next : SlotUse Thread} {handed : List P}
    (before : Near use thread (system.registrants thread) slot)
    (after : ((next = .free ∨ next = .armed) ∧ registrant.stage? = none) ∨
      ∃ stage, next = .held thread stage ∧ registrant.stage? = some (slot, stage))
    (matchesNext : table.Matches (update use slot next))
    (size : table.numSlots = system.table.numSlots)
    (count : table.nArmed + (use slot).weight = system.table.nArmed + next.weight)
    (conserved : (handed : Multiset P) =
      system.movedOut + (system.advance thread registrant table).stored) :
    Accounts { system.advance thread registrant table with handed := handed }
      (update use slot next) where
  held := by
    apply accounts.held.advance
    · intro other stage
      rcases before with ⟨_, none⟩ | ⟨_, _, some⟩
      · simp [none]
      · simp [some]
        omega
    · intro other stage
      rcases before with ⟨isFree, _⟩ | ⟨_, isHeld, _⟩
      · simp [isFree]
      · simp [isHeld]
        grind
    · intro other stage
      rcases after with ⟨rfl | rfl, none⟩ | ⟨_, rfl, some⟩
      · simp [none]
      · simp [none]
      · simp [some]
        grind
    · intro other stage
      rcases after with ⟨rfl | rfl, _⟩ | ⟨_, rfl, _⟩
      · simp
      · simp
      · simp
        grind
  table := matchesNext
  scanner := by
    apply accounts.scanner.frame
    · rcases before with ⟨isFree, _⟩ | ⟨stage, isHeld, _⟩
      · simp [isFree]
      · simp [isHeld]
    · rcases after with ⟨rfl | rfl, _⟩ | ⟨stage, rfl, _⟩ <;> simp
  counter := by
    have present : use slot ≠ .absent := by
      rcases before with ⟨isFree, _⟩ | ⟨stage, isHeld, _⟩
      · simp [isFree]
      · simp [isHeld]
    have moved := accounts.table.weight_move next present
    have counter := accounts.counter
    simp only [advance, size]
    omega
  conserved := conserved

theorem conserved_advance (size : table.numSlots = system.table.numSlots)
    (payload : table.payload = system.table.payload) :
    (system.handed : Multiset P) =
      system.movedOut + (system.advance thread registrant table).stored := by
  rw [accounts.conserved, stored, stored, advance, size, payload]

theorem claim (stands : system.registrants thread = .outside)
    (claims : system.table.claim = some (slot, table)) :
    (system.advance thread (.claimed slot) table).Accounts
      (update use slot (.held thread .claimed)) := by
  rcases map_eq_some_iff.mp claims with ⟨_, isTop, equal⟩
  cases equal
  have free := accounts.table.free
  rw [← dropLast_append_getLast? slot isTop] at free
  have isFree : use slot = .free := free.mem_iff.mp (by simp)
  apply accounts.move (.inl ⟨isFree, by rw [stands]; rfl⟩) (.inr ⟨.claimed, rfl, rfl⟩)
  · apply accounts.table.move_unseen
    · rfl
    · rfl
    · rfl
    · simp [isFree]
    · simp
    · simp [isFree, SlotUse.occupied]
    · exact free.take_last (by simp)
  · rfl
  · simp [isFree, SlotUse.weight]
  · exact accounts.conserved_advance rfl rfl

theorem release (stands : system.registrants thread = .refused slot) :
    (system.advance thread .outside (system.table.release slot)).Accounts
      (update use slot .free) := by
  have isHeld := accounts.use_of_stage stands rfl
  apply accounts.move (accounts.near_of_stage stands rfl) (.inl ⟨.inl rfl, rfl⟩)
  · apply accounts.table.move_unseen
    · rfl
    · rfl
    · rfl
    · simp [isHeld]
    · simp
    · simp [isHeld, SlotUse.occupied]
    · exact accounts.table.free.add_last (by simp [isHeld])
  · rfl
  · simp [isHeld, SlotUse.weight]
  · exact accounts.conserved_advance rfl rfl

theorem writePayload (waker : P) (stands : system.registrants thread = .enqueued slot) :
    Accounts { system.advance thread (.written slot) (system.table.writePayload slot waker) with
      handed := system.handed ++ [waker] } (update use slot (.held thread .written)) := by
  have isHeld := accounts.use_of_stage stands rfl
  have present : use slot ≠ .absent := by simp [isHeld]
  have empty : system.table.payload slot = none := by
    rw [← not_isSome_iff_eq_none, accounts.table.occupied, isHeld]
    simp [SlotUse.occupied]
  apply accounts.move (accounts.near_of_stage stands rfl) (.inr ⟨.written, rfl, rfl⟩)
  · apply accounts.table.move
    · rfl
    · exact present
    · simp
    · exact accounts.table.free.frame (by simp [isHeld]) (by simp)
    · have inactive : system.table.active slot = false := by
        rw [← Bool.not_eq_true, accounts.table.armed, isHeld]
        simp
      exact (update_eq_self_iff.mpr inactive.symm).symm
    · intro other different
      exact update_of_ne different _ _
    · simp [SlotTable.writePayload, SlotUse.occupied]
  · rfl
  · simp [isHeld, SlotUse.weight, SlotTable.writePayload]
  · have stored := sum_update_add (fun cell : Option P => (cell.toList : Multiset P))
      system.table.payload (some waker) (accounts.table.inside present)
    rw [← Multiset.coe_add, accounts.conserved, add_assoc]
    simpa [empty, SlotSystem.stored, advance, SlotTable.writePayload] using stored.symm

theorem countArmed (wasIdle : Bool) (stands : system.registrants thread = .written slot) :
    (system.advance thread (.counted slot wasIdle) system.table.countArmed).Accounts
      (update use slot (.held thread .counted)) := by
  have isHeld := accounts.use_of_stage stands rfl
  apply accounts.move (accounts.near_of_stage stands rfl) (.inr ⟨.counted, rfl, rfl⟩)
  · apply accounts.table.move_unseen
    · rfl
    · rfl
    · rfl
    · simp [isHeld]
    · simp
    · simp [isHeld, SlotUse.occupied]
    · exact accounts.table.free.frame (by simp [isHeld]) (by simp)
  · rfl
  · simp [isHeld, SlotUse.weight]
  · exact accounts.conserved_advance rfl rfl

theorem setActive {wasIdle : Bool} (stands : system.registrants thread = .counted slot wasIdle) :
    (system.advance thread (.published wasIdle) (system.table.setActive slot)).Accounts
      (update use slot .armed) := by
  have isHeld := accounts.use_of_stage stands rfl
  apply accounts.move (accounts.near_of_stage stands rfl) (.inl ⟨.inr rfl, rfl⟩)
  · apply accounts.table.move
    · rfl
    · simp [isHeld]
    · simp
    · exact accounts.table.free.frame (by simp [isHeld]) (by simp)
    · rfl
    · intros
      rfl
    · exact (accounts.table.occupied slot).trans (by rw [isHeld]; rfl)
  · rfl
  · simp [isHeld, SlotUse.weight]
  · exact accounts.conserved_advance rfl rfl

end

end SlotSystem.Accounts

/-! ## The steps of the scanner -/

theorem Scanner.Matches.of_sublist {scanner after : Scanner} (accounts : scanner.Matches use)
    (watched : after.watched.Sublist scanner.watched) (cleared : after.cleared = scanner.cleared)
    (retired : after.retired = scanner.retired) : after.Matches use where
  watched_nodup := accounts.watched_nodup.sublist watched
  watched_armed slot member := accounts.watched_armed slot (watched.mem member)
  cleared := cleared ▸ accounts.cleared
  retired := retired ▸ accounts.retired

namespace SlotSystem.Accounts

variable {system : SlotSystem Thread P} {pass : Pass} {slot : Nat}

variable {after : Scanner}

section

variable (accounts : system.Accounts use)

include accounts

theorem rescan (matchesAfter : after.Matches use)
    (same : after.undiscounted = system.scanner.undiscounted) :
    Accounts { system with scanner := after } use where
  held := accounts.held
  table := accounts.table
  scanner := matchesAfter
  counter := same ▸ accounts.counter
  conserved := accounts.conserved

/-- A step of the scanner that takes slots off its list without touching the table. -/
theorem passOver {before : Scanner} (stands : system.scanner = before)
    (watched : after.watched.Sublist before.watched) (cleared : after.cleared = before.cleared)
    (retired : after.retired = before.retired) (same : after.undiscounted = before.undiscounted) :
    Accounts { system with scanner := after } use := by
  subst stands
  exact accounts.rescan (accounts.scanner.of_sublist watched cleared retired) same

theorem load (stands : system.scanner = .loading pass) :
    Accounts { system with scanner := .load pass (system.table.wordBits pass.word) } use := by
  have scanner := accounts.scanner
  rw [stands] at scanner
  unfold Scanner.load
  split_ifs with empty
  · exact accounts.passOver stands (.refl _) rfl rfl rfl
  · apply accounts.rescan
    · refine ⟨?_, fun slot watched => ?_, scanner.cleared, scanner.retired⟩
      · apply Nodup.map
        · intro first second equal
          simpa using equal
        · exact nodup_range.filter _
      · rcases mem_map.mp watched with ⟨_, isSet, rfl⟩
        exact (accounts.table.armed _).mp (mem_filter.mp isSet).2
    · rw [stands]
      rfl

theorem recycle (stands : system.scanner = .loading pass) :
    Accounts { system with
      table := system.table.recycle pass.retired
      scanner := .discounting pass.retired.length pass.anyActive }
      (handOver use pass.retired .free) := by
  have scanner := accounts.scanner
  rw [stands] at scanner
  have isRetired : ∀ slot ∈ pass.retired, use slot = .retired := fun slot member =>
    scanner.retired.mem_iff.mp member
  have unseen : ∀ {View : Type} (view : SlotUse Thread → View), view .retired = view .free →
      ∀ slot, view (handOver use pass.retired .free slot) = view (use slot) :=
    fun view same => view_handOver view fun slot member => by rw [isRetired slot member, same]
  constructor
  · intro thread slot stage
    rw [accounts.held, unseen (· = .held thread stage) (by simp)]
  · refine ⟨fun slot => ?_, ?_, fun slot => ?_, fun slot => ?_⟩
    · rw [unseen (· = .absent) (by simp)]
      exact accounts.table.absent slot
    · exact accounts.table.free.handOver_append scanner.retired.nodup fun slot member => by
        simp [isRetired slot member]
    · rw [unseen (· = .armed) (by simp)]
      exact accounts.table.armed slot
    · rw [unseen SlotUse.occupied rfl]
      exact accounts.table.occupied slot
  · refine ⟨nodup_nil, by simp [Scanner.watched], ?_, ?_⟩
    · exact scanner.cleared.handOver_frame (fun slot member => by simp [isRetired slot member])
        (by simp)
    · exact scanner.retired.handOver_all (by simp)
  · have counter := accounts.counter
    have inside : ∀ slot ∈ pass.retired, slot ∈ Finset.range system.table.numSlots :=
      fun slot member => accounts.table.inside (by simp [isRetired slot member])
    have counted : ∀ slot ∈ pass.retired, (use slot).weight = 1 := fun slot member => by
      rw [isRetired slot member]
      rfl
    have nodup : pass.retired.Nodup := scanner.retired.nodup
    have handed := sum_handOver_add SlotUse.weight .free nodup inside counted rfl
    rw [stands] at counter
    simp only [SlotTable.recycle, Scanner.undiscounted] at counter ⊢
    rw [handed]
    exact counter
  · exact accounts.conserved

theorem clearActive {landed dead : Bool}
    (stands : system.scanner = .clearing pass slot landed dead) :
    Accounts { system with
      table := system.table.clearActive slot
      scanner := .taking pass slot landed dead } (update use slot .cleared) := by
  have scanner := accounts.scanner
  rw [stands] at scanner
  rcases nodup_cons.mp scanner.watched_nodup with ⟨unwatched, nodup⟩
  have isArmed : use slot = .armed := scanner.watched_armed slot (by simp [Scanner.watched])
  constructor
  · exact accounts.held.frame (by simp [isArmed]) (by simp)
  · apply accounts.table.move
    · rfl
    · simp [isArmed]
    · simp
    · exact accounts.table.free.frame (by simp [isArmed]) (by simp)
    · rfl
    · intros
      rfl
    · exact (accounts.table.occupied slot).trans (by rw [isArmed]; rfl)
  · refine ⟨nodup, fun other watched => ?_, scanner.cleared.add_last (by simp [isArmed]),
      scanner.retired.frame (by simp [isArmed]) (by simp)⟩
    have different : other ≠ slot := fun equal => unwatched (equal ▸ watched)
    rw [update_of_ne different]
    exact scanner.watched_armed other (mem_cons_of_mem slot watched)
  · have counter := accounts.counter
    have present : use slot ≠ .absent := by simp [isArmed]
    have moved := accounts.table.weight_move .cleared present
    rw [isArmed] at moved
    rw [stands] at counter
    simp only [SlotTable.clearActive, Scanner.undiscounted, SlotUse.weight] at counter moved ⊢
    omega
  · exact accounts.conserved

theorem payload_of_taking {landed dead : Bool}
    (stands : system.scanner = .taking pass slot landed dead) :
    use slot = .cleared ∧ ∃ waker, system.table.payload slot = some waker := by
  have scanner := accounts.scanner
  rw [stands] at scanner
  have isCleared : use slot = .cleared := scanner.cleared.mem_iff.mp (by simp [Scanner.cleared])
  refine ⟨isCleared, isSome_iff_exists.mp ?_⟩
  rw [accounts.table.occupied, isCleared]
  rfl

theorem takePayload {landed dead : Bool} (stands : system.scanner = .taking pass slot landed dead)
    {woken deads : List (Retirement P)}
    (moves : ∀ waker, system.table.payload slot = some waker →
      movedOut { system with woken := woken, dead := deads } = system.movedOut + {waker}) :
    Accounts { system with
      table := system.table.takePayload slot
      scanner := .examining (pass.retire slot)
      woken := woken
      dead := deads } (update use slot .retired) := by
  rcases accounts.payload_of_taking stands with ⟨isCleared, waker, isWaker⟩
  have scanner := accounts.scanner
  rw [stands] at scanner
  have present : use slot ≠ .absent := by simp [isCleared]
  constructor
  · exact accounts.held.frame (by simp [isCleared]) (by simp)
  · apply accounts.table.move
    · rfl
    · exact present
    · simp
    · exact accounts.table.free.frame (by simp [isCleared]) (by simp)
    · have inactive : system.table.active slot = false := by
        rw [← Bool.not_eq_true, accounts.table.armed, isCleared]
        simp
      exact (update_eq_self_iff.mpr inactive.symm).symm
    · intro other different
      exact update_of_ne different _ _
    · simp [SlotTable.takePayload, SlotUse.occupied]
  · refine ⟨scanner.watched_nodup, fun other watched => ?_, ?_,
      scanner.retired.add_last (by simp [isCleared])⟩
    · have isArmed := scanner.watched_armed other watched
      have different : other ≠ slot := by
        rintro rfl
        simp [isCleared] at isArmed
      rw [update_of_ne different]
      exact isArmed
    · have last : AccountsFor use .cleared ([] ++ [slot]) := scanner.cleared
      exact last.take_last (by simp)
  · have counter := accounts.counter
    have moved := accounts.table.weight_move .retired present
    rw [isCleared] at moved
    rw [stands] at counter
    simp only [SlotTable.takePayload, Scanner.undiscounted, SlotUse.weight] at counter moved ⊢
    omega
  · have stored := sum_update_add (fun cell : Option P => (cell.toList : Multiset P))
      system.table.payload none (accounts.table.inside present)
    have split : system.stored = {waker} + ∑ other ∈ Finset.range system.table.numSlots,
        ((update system.table.payload slot none other).toList : Multiset P) := by
      rw [add_comm]
      simpa [isWaker, SlotSystem.stored] using stored.symm
    rw [accounts.conserved, split, ← add_assoc, ← moves waker isWaker]
    rfl

theorem discount {count : Nat} {anyActive : Bool}
    (stands : system.scanner = .discounting count anyActive) :
    Accounts { system with
      table := system.table.discount count
      scanner := .resting anyActive } use where
  held := accounts.held
  table := { accounts.table with }
  scanner := by
    have scanner := accounts.scanner
    rw [stands] at scanner
    exact scanner.of_sublist (.refl _) rfl rfl
  counter := by
    have counter := accounts.counter
    rw [stands] at counter
    simp only [SlotTable.discount, Scanner.undiscounted] at counter ⊢
    omega
  conserved := accounts.conserved

theorem examine {bit : Nat} {rest : List Nat} (stands : system.scanner = .examining pass)
    (bits : pass.bits = bit :: rest)
    (watched : after.watched.Sublist ((pass.word * 64 + bit) :: (pass.examine rest).slots))
    (cleared : after.cleared = []) (retired : after.retired = pass.retired)
    (same : after.undiscounted = 0) : Accounts { system with scanner := after } use := by
  apply accounts.passOver stands _ cleared retired same
  simpa [Scanner.watched, Pass.slots, Pass.examine, bits] using watched

end

end SlotSystem.Accounts

namespace SlotSystem

variable {system after : SlotSystem Thread P}

def Accounted (system : SlotSystem Thread P) : Prop :=
  system.Judged ∧ ∃ use, system.Accounts use

theorem Accounted.scan (accounted : system.Accounted) {verdict : Bool}
    (taken : system.scan verdict = some after) : after.Accounted := by
  rcases accounted with ⟨judged, use, accounts⟩
  have judges := judged.scanner
  unfold SlotSystem.scan at taken
  cases stands : system.scanner with
  | resting => simp [stands] at taken
  | loading =>
    simp only [stands] at taken
    split_ifs at taken with inside last
    all_goals cases taken
    · refine ⟨⟨?_, judged.woken, judged.dead⟩, use, accounts.load stands⟩
      unfold Scanner.load
      split_ifs <;> trivial
    · exact ⟨{ judged with scanner := trivial }, use,
        accounts.passOver stands (.refl _) rfl last.symm rfl⟩
    · exact ⟨{ judged with scanner := trivial }, _, accounts.recycle stands⟩
  | examining pass =>
    cases bits : pass.bits with
    | nil =>
      simp only [stands, bits] at taken
      cases taken
      exact ⟨{ judged with scanner := trivial }, use,
        accounts.passOver stands (nil_sublist _) rfl rfl rfl⟩
    | cons =>
      simp only [stands, bits] at taken
      split_ifs at taken with beyond landed probing
      all_goals cases taken
      · exact ⟨{ judged with scanner := trivial }, use,
          accounts.examine stands bits (nil_sublist _) rfl rfl rfl⟩
      · exact ⟨⟨.inl ⟨rfl, rfl⟩, judged.woken, judged.dead⟩, use,
          accounts.examine stands bits (.refl _) rfl rfl rfl⟩
      · exact ⟨⟨probing, judged.woken, judged.dead⟩, use,
          accounts.examine stands bits (.refl _) rfl rfl rfl⟩
      · exact ⟨{ judged with scanner := trivial }, use,
          accounts.examine stands bits (sublist_cons_self _ _) rfl rfl rfl⟩
  | judging =>
    simp only [stands] at taken judges
    split_ifs at taken with isDead
    all_goals cases taken
    · exact ⟨⟨.inr ⟨rfl, rfl, judges⟩, judged.woken, judged.dead⟩, use,
        accounts.passOver stands (.refl _) rfl rfl rfl⟩
    · exact ⟨{ judged with scanner := trivial }, use,
        accounts.passOver stands (sublist_cons_self _ _) rfl rfl rfl⟩
  | clearing _ _ _ dead =>
    simp only [stands] at taken judges
    cases taken
    exact ⟨⟨judges, judged.woken, judged.dead⟩, _, accounts.clearActive stands⟩
  | taking pass slot _ dead =>
    simp only [stands] at taken judges
    cases taken
    -- only a dead slot of a pass that does not probe could lose its payload
    rcases judges with ⟨rfl, rfl⟩ | ⟨rfl, rfl, probing⟩
    · refine ⟨⟨trivial, fun retirement member => ?_, judged.dead⟩, _,
        accounts.takePayload stands fun waker isWaker => ?_⟩
      · rw [if_pos rfl, ← append_assoc] at member
        rcases mem_append.mp member with earlier | taken
        · exact judged.woken retirement earlier
        · rcases mem_map.mp taken with ⟨_, _, rfl⟩
          rfl
      · simp only [movedOut, isWaker, if_true, Bool.not_true, Bool.false_and, Bool.false_eq_true,
          if_false, toList_some, map_append, map_cons, map_nil,
          ← Multiset.coe_add, Multiset.coe_singleton]
        abel
    · refine ⟨⟨trivial, judged.woken, fun retirement member => ?_⟩, _,
        accounts.takePayload stands fun waker isWaker => ?_⟩
      · simp only [probing, Bool.not_false, Bool.and_true, if_true, ← append_assoc] at member
        rcases mem_append.mp member with earlier | taken
        · exact judged.dead retirement earlier
        · rcases mem_map.mp taken with ⟨_, _, rfl⟩
          exact ⟨rfl, rfl⟩
      · simp only [movedOut, isWaker, probing, if_true, Bool.not_false, Bool.and_true,
          Bool.false_eq_true, if_false, toList_some, map_append, map_cons,
          map_nil, ← Multiset.coe_add, Multiset.coe_singleton]
        abel
  | discounting =>
    simp only [stands] at taken
    cases taken
    exact ⟨{ judged with scanner := trivial }, use, accounts.discount stands⟩

theorem Accounts.drain (accounts : system.Accounts use) :
    Accounts { system with
      woken := []
      dead := []
      signalled := system.signalled ++ system.woken
      faulted := system.faulted ++ system.dead } use where
  held := accounts.held
  table := accounts.table
  scanner := accounts.scanner
  counter := accounts.counter
  conserved := by
    rw [accounts.conserved]
    simp [movedOut, stored]

theorem Accounts.new (numSlots : Nat) :
    (SlotSystem.new numSlots : SlotSystem Thread P).Accounts
      fun slot => if slot < numSlots then .free else .absent where
  held := by
    intro thread slot stage
    dsimp only
    split_ifs <;> simp [SlotSystem.new, Registrant.stage?]
  table := by
    refine ⟨fun slot => ?_, ⟨?_, fun {slot} => ?_⟩, fun slot => ?_, fun slot => ?_⟩
    · split_ifs with inside <;> simp [SlotSystem.new, SlotTable.new] <;> omega
    · exact nodup_reverse.mpr nodup_range
    · split_ifs with inside <;> simp [SlotSystem.new, SlotTable.new, inside]
    · split_ifs <;> simp [SlotSystem.new, SlotTable.new]
    · split_ifs <;> simp [SlotSystem.new, SlotTable.new, SlotUse.occupied]
  scanner := by
    refine ⟨nodup_nil, by simp [SlotSystem.new, Scanner.watched], ⟨nodup_nil, ?_⟩,
      nodup_nil, ?_⟩
    all_goals
      intro _
      split_ifs <;> simp [SlotSystem.new, Scanner.cleared, Scanner.retired]
  counter := by
    have weightless : ∀ slot ∈ Finset.range numSlots,
        (if slot < numSlots then SlotUse.free else .absent : SlotUse Thread).weight = 0 := by
      intro _ _
      split_ifs <;> rfl
    simp only [SlotSystem.new, SlotTable.new, Finset.sum_eq_zero weightless]
    rfl
  conserved := by
    simp [SlotSystem.new, SlotTable.new, movedOut, stored]

theorem accounted_new (numSlots : Nat) :
    (SlotSystem.new numSlots : SlotSystem Thread P).Accounted :=
  ⟨⟨trivial, by simp [SlotSystem.new], by simp [SlotSystem.new]⟩, _, Accounts.new numSlots⟩

variable [DecidableEq Thread]

theorem Accounted.step {action : SlotAction Thread P} (accounted : system.Accounted)
    (taken : system.step action = some after) : after.Accounted := by
  rcases accounted with ⟨judged, use, accounts⟩
  cases action with
  | scan => exact Accounted.scan ⟨judged, use, accounts⟩ taken
  | claim thread =>
    cases stands : system.registrants thread <;> simp only [SlotSystem.step, stands] at taken
    case outside =>
      cases claims : system.table.claim with
      | none =>
        simp only [claims] at taken
        cases taken
        exact ⟨judged, use, accounts⟩
      | some =>
        simp only [claims] at taken
        cases taken
        exact ⟨{ judged with }, _, accounts.claim stands claims⟩
    all_goals cases taken
  | resetFlag thread =>
    cases stands : system.registrants thread <;> simp only [SlotSystem.step, stands] at taken
    all_goals cases taken
    exact ⟨{ judged with }, use,
      accounts.keep (by rw [stands]; rfl) _ system.writes⟩
  | enqueueWrite thread =>
    cases stands : system.registrants thread <;> simp only [SlotSystem.step, stands] at taken
    case reset =>
      split_ifs at taken
      all_goals
        cases taken
        exact ⟨{ judged with }, use,
          accounts.keep (by rw [stands]; rfl) system.table.flags _⟩
    all_goals cases taken
  | release thread =>
    cases stands : system.registrants thread <;> simp only [SlotSystem.step, stands] at taken
    all_goals cases taken
    exact ⟨{ judged with }, _, accounts.release stands⟩
  | writePayload thread waker =>
    cases stands : system.registrants thread <;> simp only [SlotSystem.step, stands] at taken
    all_goals cases taken
    exact ⟨{ judged with }, _, accounts.writePayload waker stands⟩
  | countArmed thread =>
    cases stands : system.registrants thread <;> simp only [SlotSystem.step, stands] at taken
    all_goals cases taken
    exact ⟨{ judged with }, _, accounts.countArmed _ stands⟩
  | setActive thread =>
    cases stands : system.registrants thread <;> simp only [SlotSystem.step, stands] at taken
    all_goals cases taken
    exact ⟨{ judged with }, _, accounts.setActive stands⟩
  | leave thread =>
    cases stands : system.registrants thread <;> simp only [SlotSystem.step, stands] at taken
    all_goals cases taken
    exact ⟨{ judged with }, use,
      accounts.keep (by rw [stands]; rfl) system.table.flags system.writes⟩
  | deviceWrite =>
    simp only [SlotSystem.step] at taken
    split_ifs at taken
    cases taken
    exact ⟨{ judged with }, use,
      { accounts with table := { accounts.table with } }⟩
  | startPass =>
    cases stands : system.scanner <;> simp only [SlotSystem.step, stands] at taken
    all_goals cases taken
    exact ⟨{ judged with scanner := trivial }, use,
      accounts.passOver stands (.refl _) rfl rfl rfl⟩
  | drain =>
    cases stands : system.scanner <;> simp only [SlotSystem.step, stands] at taken
    all_goals cases taken
    rw [← stands]
    exact ⟨⟨judged.scanner, by simpa using judged.woken, by simpa using judged.dead⟩, use,
      accounts.drain⟩

end SlotSystem

/-! ## What the table promises -/

inductive SlotState (Thread : Type) where
  | free
  | claimed (thread : Thread)
  | armed
  | retiring
deriving DecidableEq, Repr

namespace SlotSystem

def InState (system : SlotSystem Thread P) (slot : Nat) : SlotState Thread → Prop
  | .free => slot ∈ system.table.free
  | .claimed thread => ∃ stage, (system.registrants thread).stage? = some (slot, stage)
  | .armed => system.table.active slot = true
  | .retiring => slot ∈ system.scanner.retiring

/-- The slot has been counted by `publish` and not been recycled. -/
def Published (system : SlotSystem Thread P) (slot : Nat) : Prop :=
  (∃ thread wasIdle, system.registrants thread = .counted slot wasIdle) ∨
    system.table.active slot = true ∨ slot ∈ system.scanner.retiring

open Classical in
/-- The number of slots published but not yet taken off the counter. -/
noncomputable def undecremented (system : SlotSystem Thread P) : Nat :=
  ((Finset.range system.table.numSlots).filter system.Published).card +
    system.scanner.undiscounted

structure Safe (system : SlotSystem Thread P) : Prop where
  exclusive : ∀ slot < system.table.numSlots, ∃! state, system.InState slot state
  claim_unused : ∀ slot table, system.table.claim = some (slot, table) →
    slot < system.table.numSlots ∧ slot ∉ table.free ∧
      ∀ state, system.InState slot state → state = .free
  counter : system.table.nArmed = system.undecremented
  no_underflow : ∀ count anyActive, system.scanner = .discounting count anyActive →
    (count : Int) ≤ system.table.nArmed
  cell_empty : ∀ thread slot, system.registrants thread = .enqueued slot →
    system.table.payload slot = none
  conserved : (system.handed : Multiset P) = system.movedOut + system.stored
  woken_landed : ∀ retirement ∈ system.signalled ++ system.woken, retirement.landed = true
  dead_judged : ∀ retirement ∈ system.faulted ++ system.dead,
    retirement.landed = false ∧ retirement.dead = true

end SlotSystem

def SlotUse.state? : SlotUse Thread → Option (SlotState Thread)
  | .absent => none
  | .free => some .free
  | .held thread _ => some (.claimed thread)
  | .armed => some .armed
  | .cleared | .retired => some .retiring

namespace SlotSystem

variable {system : SlotSystem Thread P} {slot : Nat}

section

variable (accounts : system.Accounts use)

include accounts

theorem Accounts.mem_retiring :
    slot ∈ system.scanner.retiring ↔ use slot = .cleared ∨ use slot = .retired := by
  rw [Scanner.retiring, mem_append, accounts.scanner.cleared.mem_iff,
    accounts.scanner.retired.mem_iff]

theorem Accounts.inState_iff (state : SlotState Thread) :
    system.InState slot state ↔ (use slot).state? = some state := by
  cases state with
  | free =>
    rw [InState, accounts.table.free.mem_iff]
    cases use slot <;> simp [SlotUse.state?]
  | claimed thread =>
    simp only [InState, accounts.held thread slot]
    cases use slot <;> simp [SlotUse.state?]
  | armed =>
    rw [InState, accounts.table.armed]
    cases use slot <;> simp [SlotUse.state?]
  | retiring =>
    rw [InState, accounts.mem_retiring]
    cases use slot <;> simp [SlotUse.state?]

theorem Accounts.exclusive (inside : slot < system.table.numSlots) :
    ∃! state, system.InState slot state := by
  have present : use slot ≠ .absent := fun absent =>
    absurd ((accounts.table.absent slot).mp absent) (not_le.mpr inside)
  have some : ∃ state, (use slot).state? = some state := by
    cases isUse : use slot <;> simp [SlotUse.state?, isUse] at present ⊢
  rcases some with ⟨state, isState⟩
  refine ⟨state, (accounts.inState_iff state).mpr isState, fun other inOther => ?_⟩
  have isOther := (accounts.inState_iff other).mp inOther
  rw [isState] at isOther
  exact (some.inj isOther).symm

theorem Accounts.published_iff : system.Published slot ↔ (use slot).weight = 1 := by
  have counted : (∃ thread wasIdle, system.registrants thread = .counted slot wasIdle) ↔
      ∃ thread, use slot = .held thread .counted := by
    apply exists_congr
    intro thread
    rw [← accounts.held]
    cases system.registrants thread <;> simp [Registrant.stage?]
  rw [Published, counted, accounts.table.armed, accounts.mem_retiring]
  cases use slot with
  | held _ stage => cases stage <;> simp [SlotUse.weight]
  | _ => simp [SlotUse.weight]

theorem Accounts.undecremented_eq :
    system.undecremented =
      ∑ slot ∈ Finset.range system.table.numSlots, (use slot).weight +
        system.scanner.undiscounted := by
  classical
  rw [undecremented, Finset.card_filter]
  congr 1
  apply Finset.sum_congr rfl
  intro slot _
  rw [accounts.published_iff]
  cases use slot with
  | held _ stage => cases stage <;> simp [SlotUse.weight]
  | _ => simp [SlotUse.weight]

theorem Accounts.claim_unused {table : SlotTable P}
    (claims : system.table.claim = some (slot, table)) :
    slot < system.table.numSlots ∧ slot ∉ table.free ∧
      ∀ state, system.InState slot state → state = .free := by
  rcases map_eq_some_iff.mp claims with ⟨_, isTop, equal⟩
  cases equal
  have free := accounts.table.free
  rw [← dropLast_append_getLast? slot isTop] at free
  have isFree : use slot = .free := free.mem_iff.mp (by simp)
  refine ⟨Finset.mem_range.mp (accounts.table.inside (by simp [isFree])), ?_, ?_⟩
  · intro again
    exact (nodup_append.mp free.nodup).2.2 slot again slot (by simp) rfl
  · intro state inState
    have isState := (accounts.inState_iff state).mp inState
    rw [isFree] at isState
    exact (some.inj isState).symm

end

/-- An idle table with no registration under way has only free slots. -/
theorem Accounts.free_of_idle (accounts : system.Accounts use)
    (idle : system.table.isIdle = true)
    (settled : ∀ thread, (system.registrants thread).stage? = none) {slot : Nat}
    (inside : slot < system.table.numSlots) : use slot = .free := by
  have counted := accounts.counter.symm.trans (beq_iff_eq.mp idle)
  have unweighted := (Nat.eq_zero_of_add_eq_zero (Int.ofNat_eq_zero.mp counted)).1
  have weightless := Finset.sum_eq_zero_iff.mp unweighted slot (Finset.mem_range.mpr inside)
  cases isUse : use slot with
  | absent => exact absurd ((accounts.table.absent slot).mp isUse) (Nat.not_le.mpr inside)
  | free => rfl
  | held thread stage =>
    cases (settled thread).symm.trans ((accounts.held thread slot stage).mpr isUse)
  | armed | cleared | retired =>
    rw [isUse] at weightless
    cases weightless

theorem Accounted.safe (accounted : system.Accounted) : system.Safe := by
  rcases accounted with ⟨judged, _, accounts⟩
  constructor
  · intro slot inside
    exact accounts.exclusive inside
  · intro slot table claims
    exact accounts.claim_unused claims
  · rw [accounts.undecremented_eq, accounts.counter]
  · intro count anyActive stands
    rw [accounts.counter, stands]
    exact Int.ofNat_le.mpr (Nat.le_add_left _ _)
  · intro thread slot stands
    rw [← not_isSome_iff_eq_none, accounts.table.occupied, accounts.use_of_stage stands rfl]
    simp [SlotUse.occupied]
  · exact accounts.conserved
  · exact judged.woken
  · exact judged.dead

variable [DecidableEq Thread]

theorem Accounted.of_reachable {numSlots : Nat}
    (reached : Reachable SlotSystem.step (SlotSystem.new numSlots) system) : system.Accounted :=
  reached.invariant (accounted_new numSlots) Accounted.step

/-- Whatever the threads, the device and the scanner do, in any order, the table is safe. -/
theorem slotTable_safe (numSlots : Nat)
    (reached : Reachable step (SlotSystem.new numSlots) system) : system.Safe :=
  (Accounted.of_reachable reached).safe

/-- A registration whose flag lands in the middle of the pass that wakes it, while another
thread claims the second slot. -/
def landing : List (SlotAction Bool Nat) :=
  [.claim true, .resetFlag true, .enqueueWrite true true, .writePayload true 7, .countArmed true,
    .startPass false, .setActive true, .scan false, .claim false, .deviceWrite 0, .scan false,
    .scan false, .scan false, .scan false, .scan false]

theorem slotTable_safe_landing : ∃ system : SlotSystem Bool Nat,
    execute step (SlotSystem.new 2) landing = some system ∧
      (system.woken, system.table.free, system.table.nArmed, system.scanner) =
        ([⟨7, true, false⟩], [0], 1, .discounting 1 true) ∧
      system.Safe := by
  have observed : (execute step (SlotSystem.new 2) landing).map (fun system =>
      (system.woken, system.table.free, system.table.nArmed, system.scanner)) =
        some ([⟨7, true, false⟩], [0], 1, .discounting 1 true) := by
    decide
  rcases map_eq_some_iff.mp observed with ⟨system, runs, shows⟩
  exact ⟨system, runs, shows, slotTable_safe 2 ⟨landing, runs⟩⟩

/-- Where the counter says idle and no registration is under way, every slot is back on the
free list once, and every payload that was handed over has left the table. -/
theorem idle_pool_whole (numSlots : Nat)
    (reached : Reachable step (SlotSystem.new numSlots) system)
    (idle : system.table.isIdle = true)
    (settled : ∀ thread, (system.registrants thread).stage? = none) :
    system.table.free ~ List.range system.table.numSlots ∧
      (system.handed : Multiset P) = system.movedOut := by
  rcases Accounted.of_reachable reached with ⟨_, use, accounts⟩
  have isFree {slot : Nat} (inside : slot < system.table.numSlots) : use slot = .free :=
    accounts.free_of_idle idle settled inside
  constructor
  · apply (perm_ext_iff_of_nodup accounts.table.free.nodup nodup_range).mpr
    intro slot
    rw [accounts.table.free.mem_iff, mem_range]
    refine ⟨fun free => Nat.not_le.mp fun outside => ?_, isFree⟩
    cases free.symm.trans ((accounts.table.absent slot).mpr outside)
  · have empty : system.stored = 0 := by
      apply Finset.sum_eq_zero
      intro slot inside
      have unoccupied := accounts.table.occupied slot
      rw [isFree (Finset.mem_range.mp inside)] at unoccupied
      rw [isNone_iff_eq_none.mp (isSome_eq_false_iff.mp unoccupied)]
      rfl
    rw [accounts.conserved, empty, add_zero]

/-- A registration from the claim to the pass that recycles its slot. -/
theorem idle_pool_whole_cycle :
    let cycle : List (SlotAction Bool Nat) :=
      [.claim true, .resetFlag true, .enqueueWrite true true, .writePayload true 7,
        .countArmed true, .setActive true, .deviceWrite 0, .startPass false] ++
        replicate 7 (.scan false)
    ∃ system, execute step (SlotSystem.new 2) cycle = some system ∧
      system.table.free ~ List.range 2 ∧ (system.handed : Multiset Nat) = system.movedOut := by
  intro cycle
  exact ⟨_, rfl, idle_pool_whole 2 ⟨cycle, rfl⟩ rfl fun thread => by cases thread <;> rfl⟩

end SlotSystem

end CuTile.Async
