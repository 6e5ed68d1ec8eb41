import CuTile.Async.DeviceFuture

/-! # Resources of submitted work

One operation with everything its work needs: the owners and leases retained by the
submission, and the operation's result. It is driven by a `DeviceFuture`, through polls and
a drop in any state, or by a call of `DeviceOp::sync_on`. The driver answers every query
and wait as it likes, except that it reports an idle stream, or lets a wait succeed, only
when the work submitted so far has finished; the completion signal is ordered behind the
work in the same way. What becomes of each possession is logged with the amount of work
unfinished at that moment.
-/

namespace CuTile.Async

/-- What the work of an operation may still use. -/
inductive Possession where
  | result
  | lease (id : Nat)
  | owner (id : Nat)
deriving DecidableEq, Repr

inductive Fate where
  | dropped
  /-- Handed to the caller of a successful completion. -/
  | delivered
  /-- `mem::forget`. -/
  | leaked
deriving DecidableEq, Repr

structure Disposal where
  possession : Possession
  fate : Fate
  unfinished : Nat
deriving DecidableEq, Repr

structure OwnerSet where
  leases : List Nat
  others : List Nat
deriving DecidableEq, Repr

def OwnerSet.isEmpty (owners : OwnerSet) : Bool :=
  owners.leases.isEmpty && owners.others.isEmpty

def OwnerSet.possessions (owners : OwnerSet) : List Possession :=
  owners.leases.map .lease ++ owners.others.map .owner

/-! ## Waiting for a stream -/

/-- Where a destructor stands in its wait: `bind_to_thread`, then `probe_stream`, then
`synchronize` if the stream is busy. -/
inductive WaitPoint where
  | binding
  | probing
  | syncing
deriving DecidableEq, Repr

inductive WaitAnswer where
  | bind (success : Bool)
  | probe (health : StreamHealth)
  | synchronize (success : Bool)
deriving DecidableEq, Repr

inductive WaitOutcome where
  | next (point : WaitPoint)
  /-- `Ok` or `Err`. -/
  | done (success : Bool)
deriving DecidableEq, Repr

def waitStep (unfinished : Nat) : WaitPoint → WaitAnswer → Option WaitOutcome
  | .binding, .bind success => some (if success then .next .probing else .done false)
  | .probing, .probe .idle => if unfinished = 0 then some (.done true) else none
  | .probing, .probe .busy => some (.next .syncing)
  | .probing, .probe .capturing => some (.done false)
  | .probing, .probe .faulted => some (.done false)
  | .syncing, .synchronize success =>
    if success then if unfinished = 0 then some (.done true) else none else some (.done false)
  | _, _ => none

theorem unfinished_eq_zero_of_waitStep {unfinished : Nat} {point : WaitPoint} {answer : WaitAnswer}
    (waits : waitStep unfinished point answer = some (.done true)) : unfinished = 0 := by
  unfold waitStep at waits
  split at waits
  · split at waits <;> cases waits
  · split at waits
    · assumption
    · cases waits
  · cases waits
  · cases waits
  · cases waits
  · split at waits
    · split at waits
      · assumption
      · cases waits
    · cases waits
  · cases waits

/-! ## The state -/

inductive Entry where
  | poll
  | syncOn
deriving DecidableEq, Repr

inductive HostPoint where
  | resting
  /-- Before `sync_on` takes the execution lock. -/
  | starting
  | executing (entry : Entry)
  | spinning
  | registering
  | checking
  | probing
  | rechecking
  /-- In the drop of the future, with the result taken out of it. -/
  | releasing (wait : WaitPoint)
  /-- In `sync_on`, after `execute`. -/
  | synchronizing
  /-- The future is gone, or `sync_on` has returned. -/
  | over
deriving DecidableEq, Repr

/-- The drop of the last context that shares the submission. -/
inductive SubmissionPoint where
  | held
  | dropping (wait : WaitPoint)
  | gone
deriving DecidableEq, Repr

/-- `operation` and `result` say whether those fields are set, `unfinished` counts the work
of the operation that the device has not finished, `complete` is the flag set by the
completion signal, and `reports` counts the reported leaks. `acquired` lists everything
the operation came to possess. -/
structure InFlight where
  point : HostPoint
  state : DeviceFutureState
  context : Bool
  operation : Bool
  result : Bool
  owners : Option OwnerSet
  submission : SubmissionPoint
  unfinished : Nat
  registered : Bool
  complete : Bool
  faultDelivered : Bool
  reports : Nat
  acquired : List Possession
  log : List Disposal
deriving DecidableEq, Repr

/-- What one query of the inline spin finds. -/
inductive SpinAnswer where
  | finished
  | busy
  | error
  /-- The budget is used up, or there is none. -/
  | timeout
deriving DecidableEq, Repr

inductive InFlightAction where
  | finish
  /-- The flag write or host function enqueued behind the work. -/
  | signal
  | startPoll (lock : Bool)
  | startSync (lock : Bool)
  | retainLease (id : Nat)
  | retain (id : Nat)
  | submit
  | executeReturns (success : Bool)
  | executePanics
  | spin (answer : SpinAnswer)
  | register (success : Bool)
  | check
  | probe (health : StreamHealth)
  | recheck
  | startDrop
  | release (answer : WaitAnswer)
  /-- The end of `stream.synchronize()` in `sync_on`. -/
  | synchronize (success : Bool)
  | startRelease
  | releaseOwners (answer : WaitAnswer)
deriving DecidableEq, Repr

namespace InFlight

def scheduled : InFlight where
  point := .resting
  state := .idle
  context := true
  operation := true
  result := false
  owners := some ⟨[], []⟩
  submission := .held
  unfinished := 0
  registered := false
  complete := false
  faultDelivered := false
  reports := 0
  acquired := []
  log := []

def new : InFlight :=
  { scheduled with context := false, operation := false, owners := none, submission := .gone }

def failed : InFlight :=
  { new with state := .failed }

def syncOn : InFlight :=
  { scheduled with point := .starting }

/-! ## Disposing of possessions -/

@[simps]
def record (system : InFlight) (possessions : List Possession) (fate : Fate) : InFlight :=
  { system with
    log := system.log ++ possessions.map fun possession => ⟨possession, fate, system.unfinished⟩ }

def OwnerSet.all (owners : Option OwnerSet) : List Possession :=
  (owners.map OwnerSet.possessions).getD []

/-- The owners leave the submission. -/
@[simps]
def disposeOwners (system : InFlight) (fate : Fate) : InFlight :=
  { system.record (OwnerSet.all system.owners) fate with owners := none }

/-- The result leaves the future or the frame of `sync_on`, if there is one. -/
@[simps]
def disposeResult (system : InFlight) (fate : Fate) : InFlight :=
  { system.record (if system.result then [.result] else []) fate with result := false }

/-- `Submission::complete`. -/
@[simps]
def completeSubmission (system : InFlight) : InFlight :=
  system.disposeOwners .dropped

/-- `take_completed_result` and `Poll::Ready(Ok(..))`. -/
def takeCompletedResult (system : InFlight) : Option InFlight :=
  -- "Expected future result to be Some."
  if system.result then
    some { system.completeSubmission.disposeResult .delivered with
      state := .complete, point := .resting }
  else none

/-- `Poll::Ready(Err(..))`. -/
@[simps]
def readyError (system : InFlight) : InFlight :=
  { system with state := .complete, point := .resting }

@[simps]
def deliverFault (system : InFlight) : InFlight :=
  { system.readyError with faultDelivered := true }

/-! ## Steps -/

/-- Up to `operation.execute` in `DeviceFuture::execute`. -/
def beginExecute (system : InFlight) (entry : Entry) : InFlight :=
  if system.context && system.operation then
    { system with operation := false, point := .executing entry }
  else system.readyError

def startPoll (system : InFlight) (lock : Bool) : Option InFlight :=
  match system.state with
  | .failed => some system.readyError
  | .idle => some (if lock then system.beginExecute .poll else system.readyError)
  | .executing => some { system with point := .checking }
  -- "Poll called after completion."
  | .complete => none

def retain (system : InFlight) (possession : Possession) (insert : OwnerSet → OwnerSet) :
    InFlight :=
  match system.owners with
  | some owners =>
    { system with
      owners := some (insert owners)
      acquired := possession :: system.acquired }
  -- "submission already completed"
  | none => system

def executeReturns (system : InFlight) (entry : Entry) (success : Bool) : InFlight :=
  let held := if success then { system with result := true, acquired := .result :: system.acquired }
    else system
  match entry, success with
  | .poll, true => { held with point := .spinning }
  | .poll, false => held.readyError
  | .syncOn, _ => { held with point := .synchronizing }

def spin (system : InFlight) : SpinAnswer → Option InFlight
  | .finished => if system.unfinished = 0 then system.takeCompletedResult else none
  | .busy => some system
  | .error => some system.deliverFault
  | .timeout => some { system with point := .registering }

def probe (system : InFlight) : StreamHealth → Option InFlight
  | .idle => if system.unfinished = 0 then system.takeCompletedResult else none
  | .faulted => some system.deliverFault
  | .busy | .capturing => some { system with point := .rechecking }

def hasUndeliveredSubmission (system : InFlight) : Bool :=
  (system.state = .executing || system.state = .complete) && system.result

/-- A result that could not be waited for. -/
@[simps]
def leakResult (system : InFlight) : InFlight :=
  { system.disposeResult .leaked with
    reports := if system.faultDelivered then system.reports else system.reports + 1
    point := .over }

/-- `release_in_flight_result`, up to the wait. The fields of the future are dropped after
it. -/
def startDrop (system : InFlight) : InFlight :=
  if system.hasUndeliveredSubmission then
    if system.context then { system with point := .releasing .binding } else system.leakResult
  else { system.disposeResult .dropped with point := .over }

def release (system : InFlight) : WaitOutcome → InFlight
  | .next point => { system with point := .releasing point }
  | .done true => { system.disposeResult .dropped with point := .over }
  | .done false => system.leakResult

/-- The end of `sync_on`: an error of the wait returns before `complete`, and the frame's
`res` is dropped on the way. -/
def synchronize (system : InFlight) (success : Bool) : Option InFlight :=
  if success then
    if system.unfinished = 0 then
      some { system.completeSubmission.disposeResult .delivered with point := .over }
    else none
  else some { system.disposeResult .dropped with point := .over }

/-- `Owners::release`, up to the wait. -/
def startRelease (system : InFlight) : InFlight :=
  match system.owners with
  | none => { system with submission := .gone }
  | some owners =>
    if owners.isEmpty then { system.disposeOwners .dropped with submission := .gone }
    else { system with submission := .dropping .binding }

def releaseOwners (system : InFlight) : WaitOutcome → InFlight
  | .next point => { system with submission := .dropping point }
  | .done success =>
    { system.disposeOwners (if success then .dropped else .leaked) with submission := .gone }

def step (system : InFlight) : InFlightAction → Option InFlight
  | .finish =>
    if 0 < system.unfinished then some { system with unfinished := system.unfinished - 1 } else none
  | .signal =>
    if system.registered && system.unfinished = 0 then some { system with complete := true }
    else none
  | .startPoll lock => if system.point = .resting then system.startPoll lock else none
  | .startSync lock =>
    if system.point = .starting then
      some (if lock then { system with operation := false, point := .executing .syncOn }
        else { system with point := .over })
    else none
  | .retainLease id =>
    match system.point with
    | .executing _ =>
      some (system.retain (.lease id) fun owners => { owners with leases := id :: owners.leases })
    | _ => none
  | .retain id =>
    match system.point with
    | .executing _ =>
      some (system.retain (.owner id) fun owners => { owners with others := id :: owners.others })
    | _ => none
  | .submit =>
    match system.point with
    | .executing _ => some { system with unfinished := system.unfinished + 1 }
    | _ => none
  | .executeReturns success =>
    match system.point with
    | .executing entry => some (system.executeReturns entry success)
    | _ => none
  | .executePanics =>
    match system.point with
    | .executing .poll => some { system with point := .resting }
    | .executing .syncOn => some { system with point := .over }
    | _ => none
  | .spin answer => if system.point = .spinning then system.spin answer else none
  | .register success =>
    if system.point = .registering then
      some (if success then
          { system with registered := true, state := .executing, point := .resting }
        else system.readyError)
    else none
  | .check =>
    if system.point = .checking then
      if system.complete then system.takeCompletedResult else some { system with point := .probing }
    else none
  | .probe health => if system.point = .probing then system.probe health else none
  | .recheck =>
    if system.point = .rechecking then
      if system.complete then system.takeCompletedResult else some { system with point := .resting }
    else none
  | .startDrop => if system.point = .resting then some system.startDrop else none
  | .release answer =>
    match system.point with
    | .releasing point => (waitStep system.unfinished point answer).map system.release
    | _ => none
  | .synchronize success =>
    if system.point = .synchronizing then system.synchronize success else none
  | .startRelease =>
    if system.point = .over && system.submission = .held then some system.startRelease else none
  | .releaseOwners answer =>
    match system.submission with
    | .dropping point => (waitStep system.unfinished point answer).map system.releaseOwners
    | _ => none

end InFlight

end CuTile.Async
