import CuTile.Foundation.Interleaving
import Mathlib.Data.List.Basic

/-! # The completion-slot table

`SlotTable` with the atomic steps its users take: `register` claims a slot, resets its
flag, has the device write enqueued (or releases the slot) and publishes a payload in
three steps; the device writes flags; one scanner makes passes over the bitmap. An action
is one atomic step of one of them, so a schedule is an interleaving.
-/

namespace CuTile.Async

/-- The shared table. `active` has one bit per slot; `free` is used as a stack whose top
is its last element; `nArmed` is an integer, so that an underflow would be negative. -/
structure SlotTable (P : Type) where
  numSlots : Nat
  flags : Nat → Nat
  active : Nat → Bool
  payload : Nat → Option P
  free : List Nat
  nArmed : Int

namespace SlotTable

variable {P : Type}

def new (numSlots : Nat) : SlotTable P where
  numSlots := numSlots
  flags _ := 0
  active _ := false
  payload _ := none
  free := (List.range numSlots).reverse
  nArmed := 0

def numWords (table : SlotTable P) : Nat :=
  (table.numSlots + 63) / 64

def isIdle (table : SlotTable P) : Bool :=
  table.nArmed == 0

def claim (table : SlotTable P) : Option (Nat × SlotTable P) :=
  table.free.getLast?.map fun slot => (slot, { table with free := table.free.dropLast })

def release (table : SlotTable P) (slot : Nat) : SlotTable P :=
  { table with free := table.free ++ [slot] }

def resetFlag (table : SlotTable P) (slot : Nat) : SlotTable P :=
  { table with flags := Function.update table.flags slot 0 }

def landFlag (table : SlotTable P) (slot : Nat) : SlotTable P :=
  { table with flags := Function.update table.flags slot 1 }

/-! The three steps of `publish`; the second reports whether the table was idle. -/

def writePayload (table : SlotTable P) (slot : Nat) (waker : P) : SlotTable P :=
  { table with payload := Function.update table.payload slot (some waker) }

def countArmed (table : SlotTable P) : SlotTable P :=
  { table with nArmed := table.nArmed + 1 }

def setActive (table : SlotTable P) (slot : Nat) : SlotTable P :=
  { table with active := Function.update table.active slot true }

/-! The writes of `scan_inner`. -/

/-- The set bits of one word of the bitmap, lowest first. -/
def wordBits (table : SlotTable P) (word : Nat) : List Nat :=
  (List.range 64).filter fun bit => table.active (word * 64 + bit)

def clearActive (table : SlotTable P) (slot : Nat) : SlotTable P :=
  { table with active := Function.update table.active slot false }

def takePayload (table : SlotTable P) (slot : Nat) : SlotTable P :=
  { table with payload := Function.update table.payload slot none }

def recycle (table : SlotTable P) (retired : List Nat) : SlotTable P :=
  { table with free := table.free ++ retired }

def discount (table : SlotTable P) (count : Nat) : SlotTable P :=
  { table with nArmed := table.nArmed - count }

end SlotTable

inductive Registrant where
  | outside
  /-- `claim` returned the slot. -/
  | claimed (slot : Nat)
  /-- The flag is reset and the device write is next. -/
  | reset (slot : Nat)
  /-- The device write was refused, and `release` is next. -/
  | refused (slot : Nat)
  /-- The device write is enqueued, and `publish` is next. -/
  | enqueued (slot : Nat)
  /-- In `publish`, after the payload write. -/
  | written (slot : Nat)
  /-- In `publish`, after the counter step. -/
  | counted (slot : Nat) (wasIdle : Bool)
  /-- `publish` returned. -/
  | published (wasIdle : Bool)
deriving DecidableEq, Repr

/-- The local variables of one run of `scan_inner`; `bits` are those not examined yet. -/
structure Pass where
  probing : Bool
  word : Nat
  bits : List Nat
  retired : List Nat
  anyActive : Bool
deriving DecidableEq, Repr

namespace Pass

def start (probing : Bool) : Pass where
  probing := probing
  word := 0
  bits := []
  retired := []
  anyActive := false

def nextWord (pass : Pass) : Pass :=
  { pass with word := pass.word + 1, bits := [] }

def examine (pass : Pass) (rest : List Nat) : Pass :=
  { pass with bits := rest }

def retire (pass : Pass) (slot : Nat) : Pass :=
  { pass with retired := pass.retired ++ [slot] }

/-- The slots of the word that the pass has not examined yet. -/
def slots (pass : Pass) : List Nat :=
  pass.bits.map fun (bit : Nat) => pass.word * 64 + bit

end Pass

/-- Where the scanner stands; `landed` and `dead` are what it read about the slot. -/
inductive Scanner where
  | resting (anyActive : Bool)
  | loading (pass : Pass)
  | examining (pass : Pass)
  | judging (pass : Pass) (slot : Nat)
  | clearing (pass : Pass) (slot : Nat) (landed dead : Bool)
  | taking (pass : Pass) (slot : Nat) (landed dead : Bool)
  | discounting (count : Nat) (anyActive : Bool)
deriving DecidableEq, Repr

def Scanner.load (pass : Pass) (bits : List Nat) : Scanner :=
  if bits = [] then .loading pass.nextWord
  else .examining { pass with bits := bits, anyActive := true }

/-- A payload that left the table, with what the scanner had read about its slot. -/
structure Retirement (P : Type) where
  payload : P
  landed : Bool
  dead : Bool
deriving DecidableEq, Repr

/-- The system. `writes` counts the enqueued device writes of a slot; `woken` and `dead`
are the vectors of the running pass, and what the caller drained from them stands in
`signalled` and `faulted`. `handed` records every payload handed to `publish`. -/
structure SlotSystem (Thread P : Type) where
  table : SlotTable P
  registrants : Thread → Registrant
  writes : Nat → Nat
  scanner : Scanner
  woken : List (Retirement P)
  dead : List (Retirement P)
  signalled : List (Retirement P)
  faulted : List (Retirement P)
  handed : List P

inductive SlotAction (Thread P : Type) where
  | claim (thread : Thread)
  | resetFlag (thread : Thread)
  | enqueueWrite (thread : Thread) (accepted : Bool)
  | release (thread : Thread)
  | writePayload (thread : Thread) (waker : P)
  | countArmed (thread : Thread)
  | setActive (thread : Thread)
  /-- `register` returns; the caller of `publish` has unparked the scanner if it had to. -/
  | leave (thread : Thread)
  | deviceWrite (slot : Nat)
  /-- `scan_probing` when probing, `scan_once` otherwise. -/
  | startPass (probing : Bool)
  /-- The scanner's next step; `verdict` answers the predicate where it is asked. -/
  | scan (verdict : Bool)
  | drain

namespace SlotSystem

variable {Thread P : Type}

def new (numSlots : Nat) : SlotSystem Thread P where
  table := .new numSlots
  registrants _ := .outside
  writes _ := 0
  scanner := .resting false
  woken := []
  dead := []
  signalled := []
  faulted := []
  handed := []

def scan (system : SlotSystem Thread P) (verdict : Bool) : Option (SlotSystem Thread P) :=
  match system.scanner with
  | .resting _ => none
  | .loading pass =>
    if pass.word < system.table.numWords then
      some { system with scanner := .load pass (system.table.wordBits pass.word) }
    else if pass.retired = [] then
      some { system with scanner := .resting pass.anyActive }
    else
      some { system with
        table := system.table.recycle pass.retired
        scanner := .discounting pass.retired.length pass.anyActive }
  | .examining pass =>
    match pass.bits with
    | [] => some { system with scanner := .loading pass.nextWord }
    | bit :: rest =>
      let slot := pass.word * 64 + bit
      if system.table.numSlots ≤ slot then
        some { system with scanner := .loading pass.nextWord }
      else if system.table.flags slot = 1 then
        some { system with scanner := .clearing (pass.examine rest) slot true false }
      else if pass.probing then
        some { system with scanner := .judging (pass.examine rest) slot }
      else
        some { system with scanner := .examining (pass.examine rest) }
  | .judging pass slot =>
    if (system.table.payload slot).isSome && verdict then
      some { system with scanner := .clearing pass slot false true }
    else
      some { system with scanner := .examining pass }
  | .clearing pass slot landed dead =>
    some { system with
      table := system.table.clearActive slot
      scanner := .taking pass slot landed dead }
  | .taking pass slot landed dead =>
    let taken := (system.table.payload slot).toList.map fun waker => Retirement.mk waker landed dead
    some { system with
      table := system.table.takePayload slot
      scanner := .examining (pass.retire slot)
      woken := if landed then system.woken ++ taken else system.woken
      -- a payload that neither vector takes is dropped
      dead := if !landed && pass.probing then system.dead ++ taken else system.dead }
  | .discounting count anyActive =>
    some { system with
      table := system.table.discount count
      scanner := .resting anyActive }

variable [DecidableEq Thread]

/-- One thread moves on, with the table as it left it. -/
def advance (system : SlotSystem Thread P) (thread : Thread) (registrant : Registrant)
    (table : SlotTable P) : SlotSystem Thread P :=
  { system with
    table := table
    registrants := Function.update system.registrants thread registrant }

def step (system : SlotSystem Thread P) : SlotAction Thread P → Option (SlotSystem Thread P)
  | .claim thread =>
    match system.registrants thread with
    | .outside =>
      match system.table.claim with
      -- "reactor slot pool exhausted"
      | none => some system
      | some (slot, table) => some (system.advance thread (.claimed slot) table)
    | _ => none
  | .resetFlag thread =>
    match system.registrants thread with
    | .claimed slot => some (system.advance thread (.reset slot) (system.table.resetFlag slot))
    | _ => none
  | .enqueueWrite thread accepted =>
    match system.registrants thread with
    | .reset slot =>
      if accepted then
        some { system.advance thread (.enqueued slot) system.table with
          writes := Function.update system.writes slot (system.writes slot + 1) }
      else
        some (system.advance thread (.refused slot) system.table)
    | _ => none
  | .release thread =>
    match system.registrants thread with
    | .refused slot => some (system.advance thread .outside (system.table.release slot))
    | _ => none
  | .writePayload thread waker =>
    match system.registrants thread with
    | .enqueued slot =>
      some { system.advance thread (.written slot) (system.table.writePayload slot waker) with
        handed := system.handed ++ [waker] }
    | _ => none
  | .countArmed thread =>
    match system.registrants thread with
    | .written slot =>
      some (system.advance thread (.counted slot system.table.isIdle) system.table.countArmed)
    | _ => none
  | .setActive thread =>
    match system.registrants thread with
    | .counted slot wasIdle =>
      some (system.advance thread (.published wasIdle) (system.table.setActive slot))
    | _ => none
  | .leave thread =>
    match system.registrants thread with
    | .published _ => some (system.advance thread .outside system.table)
    | _ => none
  | .deviceWrite slot =>
    if system.writes slot = 0 then none
    else
      some { system with
        table := system.table.landFlag slot
        writes := Function.update system.writes slot (system.writes slot - 1) }
  | .startPass probing =>
    match system.scanner with
    | .resting _ => some { system with scanner := .loading (.start probing) }
    | _ => none
  | .scan verdict => system.scan verdict
  | .drain =>
    match system.scanner with
    | .resting _ =>
      some { system with
        woken := []
        dead := []
        signalled := system.signalled ++ system.woken
        faulted := system.faulted ++ system.dead }
    | _ => none

end SlotSystem

end CuTile.Async
