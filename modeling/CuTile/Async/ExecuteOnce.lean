import CuTile.Foundation.Interleaving
import Mathlib.Tactic.Simps.Basic

/-! # Execute-once memoisation

`ExecuteOnce::execute` by any number of callers, for a shared operation or the two halves
of an unzip. Each pass of the loop is one critical section of the mutex: what the caller
finds there decides whether it runs the operation, waits, or takes the outcome. The
operation runs outside the lock, and settling takes three steps: recording the event,
storing the outcome, and notifying.
-/

namespace CuTile.Async

/-- What a stream has been given, in order: work of the operation, an event to record, an
event to wait for. -/
inductive StreamEntry where
  | work
  | record (event : Nat)
  | wait (event : Nat)
deriving DecidableEq, Repr

structure Producer where
  stream : Nat
  event : Nat
deriving DecidableEq, Repr

inductive OnceState (Out : Type) where
  | pending
  | running (thread : Nat)
  | done (value : Out) (producer : Option Producer)
  | failed (error : String)

inductive CallerPhase (Made Out Result : Type) where
  | idle
  /-- About to lock and look at the state. -/
  | looking
  | waiting
  | running
  /-- The operation has returned a value; its event is to be recorded. -/
  | recording (made : Made)
  | storing (outcome : OnceState Out) (unwinding : Bool)
  | notifying (unwinding : Bool)
  | returned (result : Except String Result)
  | panicked

/-- What the two users of `ExecuteOnce` bring along: the stream of each caller, how the
result of the operation is kept, and what a caller takes of it. -/
structure Sharing (Made Out Result : Type) where
  stream : Nat → Nat
  keep : Made → Out
  take : Nat → Out → Except String Result × Out

/-- `SharedDeviceOp`: every caller gets the value. -/
def Sharing.shared {Made : Type} (stream : Nat → Nat) : Sharing Made Made Made where
  stream := stream
  keep := id
  take _ value := (.ok value, value)

inductive Half where
  | left
  | right
deriving DecidableEq, Repr

/-- `Select`: every caller takes the half on its side. -/
def Sharing.unzip {Left Right : Type} (stream : Nat → Nat) (side : Nat → Half) :
    Sharing (Left × Right) (Option Left × Option Right) (Left ⊕ Right) where
  stream := stream
  keep made := (some made.1, some made.2)
  take caller halves :=
    match side caller with
    | .left =>
      (match halves.1 with
        | some left => .ok (.inl left)
        | none => .error "unzip: the left result was already taken", (none, halves.2))
    | .right =>
      (match halves.2 with
        | some right => .ok (.inr right)
        | none => .error "unzip: the right result was already taken", (halves.1, none))

inductive RunOutcome (Made : Type) where
  | success (made : Made)
  | failure (error : String)
  | panic

/-- `runs` counts the times the operation was started, `made` is the value that was kept.
`nested` lists the results of calls made from inside the operation, `refused` the callers
whose own stream could not be made to wait. -/
structure OnceSystem (Made Out Result : Type) where
  once : OnceState Out
  callers : Nat → CallerPhase Made Out Result
  streams : Nat → List StreamEntry
  nextEvent : Nat
  runs : Nat
  made : Option Made
  nested : List (Nat × Except String Result)
  refused : List Nat

inductive OnceAction (Made : Type) where
  | call (caller : Nat)
  /-- The loop body under the lock; `waits` is the driver's answer to `cuStreamWaitEvent`. -/
  | look (caller : Nat) (waits : Except String Unit)
  | wakeSpuriously (caller : Nat)
  | enqueueWork (caller : Nat)
  /-- The operation executes a clone of itself. -/
  | reenter (caller : Nat)
  | finishRun (caller : Nat) (outcome : RunOutcome Made)
  /-- `Producer::record`, with the driver's answer. -/
  | record (caller : Nat) (recorded : Except String Unit)
  | store (caller : Nat)
  | notifyAll (caller : Nat)

def reenteredMessage : String :=
  "execute-once operation re-entered from inside its own execution (a shared or unzipped op executing itself)"

def panickedMessage : String :=
  "execute-once operation panicked while executing"

namespace OnceSystem

variable {Made Out Result : Type} (sharing : Sharing Made Out Result)

def pending : OnceSystem Made Out Result where
  once := .pending
  callers := fun _ => .idle
  streams := fun _ => []
  nextEvent := 0
  runs := 0
  made := none
  nested := []
  refused := []

/-- `ExecuteOnce::done`, for a value without device work behind it. -/
def done (made : Made) : OnceSystem Made Out Result :=
  { pending with once := .done (sharing.keep made) none, made := some made }

@[simps]
def setCaller (system : OnceSystem Made Out Result) (caller : Nat)
    (phase : CallerPhase Made Out Result) : OnceSystem Made Out Result :=
  { system with callers := Function.update system.callers caller phase }

@[simps]
def append (system : OnceSystem Made Out Result) (stream : Nat) (entry : StreamEntry) :
    OnceSystem Made Out Result :=
  { system with
    streams := Function.update system.streams stream (system.streams stream ++ [entry]) }

/-- `Producer::join`: a consumer on another stream waits for the event. -/
def join (system : OnceSystem Made Out Result) (producer : Option Producer) (stream : Nat)
    (waits : Except String Unit) : Except String (OnceSystem Made Out Result) :=
  match producer with
  | none => .ok system
  | some producer =>
    if stream = producer.stream then .ok system
    else
      match waits with
      | .error error => .error error
      | .ok () => .ok (system.append stream (.wait producer.event))

/-- One pass of the loop. -/
def look (system : OnceSystem Made Out Result) (caller : Nat) (waits : Except String Unit) :
    OnceSystem Made Out Result :=
  match system.once with
  | .pending =>
    { (system.setCaller caller .running) with
      once := .running caller
      runs := system.runs + 1 }
  | .running thread =>
    if thread = caller then system.setCaller caller (.returned (.error reenteredMessage))
    else system.setCaller caller .waiting
  | .failed error => system.setCaller caller (.returned (.error error))
  | .done value producer =>
    match system.join producer (sharing.stream caller) waits with
    | .error error =>
      { (system.setCaller caller (.returned (.error error))) with
        refused := caller :: system.refused }
    | .ok joined =>
      { (joined.setCaller caller (.returned (sharing.take caller value).1)) with
        once := .done (sharing.take caller value).2 producer }

/-- `notify_all` releases whoever waits at that moment. -/
def release : CallerPhase Made Out Result → CallerPhase Made Out Result
  | .waiting => .looking
  | phase => phase

/-- After its outcome is stored the caller looks again, or its panic goes on. -/
def afterNotify (unwinding : Bool) : CallerPhase Made Out Result :=
  if unwinding then .panicked else .looking

def step (system : OnceSystem Made Out Result) :
    OnceAction Made → Option (OnceSystem Made Out Result)
  | .call caller =>
    match system.callers caller with
    | .idle => some (system.setCaller caller .looking)
    | _ => none
  | .look caller waits =>
    match system.callers caller with
    | .looking => some (system.look sharing caller waits)
    | _ => none
  | .wakeSpuriously caller =>
    match system.callers caller with
    | .waiting => some (system.setCaller caller .looking)
    | _ => none
  | .enqueueWork caller =>
    match system.callers caller with
    | .running => some (system.append (sharing.stream caller) .work)
    | _ => none
  | .reenter caller =>
    match system.callers caller, system.once with
    | .running, .running thread =>
      if thread = caller then
        some { system with nested := (caller, .error reenteredMessage) :: system.nested }
      else none
    | _, _ => none
  | .finishRun caller outcome =>
    match system.callers caller with
    | .running =>
      match outcome with
      | .success made => some (system.setCaller caller (.recording made))
      | .failure error => some (system.setCaller caller (.storing (.failed error) false))
      | .panic => some (system.setCaller caller (.storing (.failed panickedMessage) true))
    | _ => none
  | .record caller recorded =>
    match system.callers caller with
    | .recording made =>
      match recorded with
      | .ok () =>
        let producer := ⟨sharing.stream caller, system.nextEvent⟩
        some { ((system.append (sharing.stream caller) (.record system.nextEvent)).setCaller caller
            (.storing (.done (sharing.keep made) (some producer)) false)) with
          nextEvent := system.nextEvent + 1
          made := some made }
      | .error error => some (system.setCaller caller (.storing (.failed error) false))
    | _ => none
  | .store caller =>
    match system.callers caller with
    | .storing outcome unwinding =>
      some { (system.setCaller caller (.notifying unwinding)) with once := outcome }
    | _ => none
  | .notifyAll caller =>
    match system.callers caller with
    | .notifying unwinding =>
      some { system with
        callers := Function.update (release ∘ system.callers) caller (afterNotify unwinding) }
    | _ => none

end OnceSystem

end CuTile.Async
