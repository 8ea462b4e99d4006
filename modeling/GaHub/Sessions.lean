import GaHub.Lib.Dict

namespace GaHub.Sessions

open Lib

abbrev SessionId := String

-- `uuid4().hex`: a run never shares its id with another.
abbrev RunId := Nat

-- Threads and calls in progress, by their place in the world.
abbrev CallId := Nat

-- A reading of the monotonic clock.
abbrev Time := Int

-- Runtimes are compared by identity. Those the factory builds are told apart
-- from those a caller prepares for `replace_runtime`.
inductive RuntimeId where
  | built (serial : Nat)
  | prepared (serial : Nat)
  deriving DecidableEq

inductive Status where
  | idle
  | starting
  | running
  | aborting
  | error
  deriving DecidableEq

structure RuntimeState where
  sessionId : SessionId
  status : Status := .idle
  runId : Option RunId := none
  streamId : Option String := none
  error : Option String := none
  completedRunId : Option RunId := none
  outcome : Option String := none
  deriving DecidableEq

inductive BusyReason where
  | sessionActive
  | capacityFull
  deriving DecidableEq

-- The exceptions of the coordinator; `external` is one raised by the factory,
-- a runtime, a callback or the thread library.
inductive CoordinatorError where
  | agentBusy (activeSessionId : SessionId) (activeRunId : Option RunId) (capacity activeCount : Nat)
      (reason : BusyReason)
  | sessionNotActive (sessionId : SessionId)
  | runMismatch (runId : RunId)
  | controlBusy (sessionId : SessionId) (operation : String)
  | stopped
  | runStartAborted (sessionId : SessionId) (runId : RunId)
  | external
  deriving DecidableEq

-- `creationGates` maps a session to the call that holds its gate, if any;
-- `shutdownLock` to the shutdown attempt in progress.
structure SessionCoordinator where
  capacity : Nat
  abortTimeout : Time
  runtimes : Dict SessionId RuntimeId := .empty
  states : Dict SessionId RuntimeState := .empty
  activeBySession : Dict SessionId RuntimeState := .empty
  abortStarted : Dict RunId Time := .empty
  exclusiveControls : Dict SessionId String := .empty
  sideQuestions : Dict SessionId Nat := .empty
  shutdownRequested : Bool := false
  watchers : Dict RunId CallId := .empty
  shutdownWorkers : Dict SessionId CallId := .empty
  shutdownAbortWorkers : Dict RunId CallId := .empty
  creationGates : Dict SessionId (Option CallId) := .empty
  runtimeEpoch : Dict SessionId Nat := .empty
  shutdownLock : Option CallId := none

-- `__init__` raises outside 1..10.
def init (capacity : Int) (abortTimeout : Time) : Option SessionCoordinator :=
  if 1 ≤ capacity ∧ capacity ≤ 10 then some { capacity := capacity.toNat, abortTimeout } else none

namespace SessionCoordinator

variable (co : SessionCoordinator)

def epoch (session : SessionId) : Nat := (co.runtimeEpoch.get? session).getD 0

def sideCount (session : SessionId) : Nat := (co.sideQuestions.get? session).getD 0

def runtimeState (session : SessionId) : RuntimeState :=
  (co.states.get? session).getD { sessionId := session }

-- `_active_by_session[s] = _states[s] = state`, which the source always writes together.
def project (session : SessionId) (state : RuntimeState) : SessionCoordinator :=
  { co with
    activeBySession := co.activeBySession.set session state
    states := co.states.set session state }

-- The entry of a run is dropped and `state` is what remains of it.
def retire (session : SessionId) (state : RuntimeState) : SessionCoordinator :=
  { co with
    activeBySession := co.activeBySession.erase session
    states := co.states.set session state }

def bumpEpoch (session : SessionId) : SessionCoordinator :=
  { co with runtimeEpoch := co.runtimeEpoch.set session (co.epoch session + 1) }

def openGate (session : SessionId) : SessionCoordinator :=
  { co with creationGates := co.creationGates.set session none }

def busy (representative : RuntimeState) (reason : BusyReason) : CoordinatorError :=
  .agentBusy representative.sessionId representative.runId co.capacity co.activeBySession.size reason

def raiseIfShutdown : Except CoordinatorError Unit :=
  if co.shutdownRequested then .error .stopped else .ok ()

def raiseIfControlBusy (session : SessionId) (includeSideQuestions : Bool) :
    Except CoordinatorError Unit :=
  match co.exclusiveControls.get? session with
  | some operation => .error (.controlBusy session operation)
  | none =>
      if includeSideQuestions && decide (0 < co.sideCount session) then
        .error (.controlBusy session "btw")
      else .ok ()

-- The head of `submit_stream`: capacity check and identity reservation.
def admitRun (session : SessionId) (run : RunId) : Except CoordinatorError SessionCoordinator := do
  co.raiseIfShutdown
  co.raiseIfControlBusy session false
  match co.activeBySession.get? session with
  | some sameSession => .error (co.busy sameSession .sessionActive)
  | none =>
      if co.capacity ≤ co.activeBySession.size then
        match co.activeBySession.values.head? with
        | some representative => .error (co.busy representative .capacityFull)
        -- `next(iter(...))` of an empty map, at a capacity of zero
        | none => .error .external
      else
        .ok (co.project session { sessionId := session, status := .starting, runId := some run })

-- The head shared by `configure_if_idle`, `rewind` and `exclusive`.
def reserveControl (session : SessionId) (operation : String) :
    Except CoordinatorError SessionCoordinator := do
  co.raiseIfShutdown
  match co.activeBySession.get? session with
  | some active => .error (co.busy active .sessionActive)
  | none => do
      co.raiseIfControlBusy session true
      .ok { co with exclusiveControls := co.exclusiveControls.set session operation }

def leaveControl (session : SessionId) (operation : String) : SessionCoordinator :=
  if co.exclusiveControls.get? session = some operation then
    { co with exclusiveControls := co.exclusiveControls.erase session }
  else co

def admitSideQuestion (session : SessionId) : Except CoordinatorError SessionCoordinator := do
  co.raiseIfShutdown
  co.raiseIfControlBusy session false
  .ok { co with sideQuestions := co.sideQuestions.set session (co.sideCount session + 1) }

def leaveSideQuestion (session : SessionId) : SessionCoordinator :=
  let remaining := co.sideCount session - 1
  { co with
    sideQuestions :=
      if 0 < remaining then co.sideQuestions.set session remaining
      else co.sideQuestions.erase session }

-- The entry of this admission, if it is still there.
def reservation (session : SessionId) (run : RunId) : Option RuntimeState :=
  (co.activeBySession.get? session).filter fun active => decide (active.runId = some run)

def reservationStatus (session : SessionId) (run : RunId) : Option Status :=
  (co.reservation session run).map RuntimeState.status

def forgetAbort (run : RunId) : SessionCoordinator :=
  { co with abortStarted := co.abortStarted.erase run }

def releaseReservation (session : SessionId) (run : RunId) : SessionCoordinator :=
  let dropped :=
    if (co.reservation session run).isSome then co.retire session { sessionId := session } else co
  dropped.forgetAbort run

-- `none` when the reservation is gone, else the state to announce.
def finishAbortedStart (session : SessionId) (run : RunId) :
    Option (RuntimeState × SessionCoordinator) :=
  match co.reservation session run with
  | none => none
  | some _ =>
      let settled : RuntimeState := { sessionId := session, completedRunId := some run }
      some (settled, (co.forgetAbort run).retire session settled)

-- What `submit_stream` finds once the agent took the run.
inductive Promotion where
  | running (co : SessionCoordinator)
  | aborting
  | orphaned

def promote (session : SessionId) (run : RunId) (streamId : String) : Promotion :=
  match co.reservation session run with
  | none => .orphaned
  | some active =>
      if active.status = .starting then
        .running (co.project session
          { sessionId := session, status := .running, runId := some run, streamId := some streamId })
      else .aborting

-- The bookkeeping half of `_abort_orphaned_run`.
def forgetOrphan (run : RunId) : SessionCoordinator :=
  { co.forgetAbort run with watchers := co.watchers.erase run }

-- The rollback after `watcher.start()` raised.
def rollbackWatcher (session : SessionId) (run : RunId) : SessionCoordinator :=
  let dropped :=
    if (co.reservation session run).isSome then co.retire session { sessionId := session } else co
  { dropped with watchers := co.watchers.erase run }

def stopped (active : RuntimeState) : Bool :=
  decide (active.status = .aborting ∨ active.status = .error)

-- The runtime whose `abort` `_abort_locked` calls before it marks the entry.
def abortTarget (active : RuntimeState) : Option RuntimeId :=
  if stopped active then none else co.runtimes.get? active.sessionId

-- The rest of `_abort_locked`; `none` is its assertion on the run id.
def abortLocked (active : RuntimeState) (now : Time) :
    Option (RuntimeState × SessionCoordinator) :=
  if stopped active then some (active, co)
  else
    active.runId.map fun run =>
      let aborting := { active with status := .aborting }
      let started := { co with abortStarted := co.abortStarted.set run now }
      (aborting, started.project active.sessionId aborting)

def watchTimeout (session : SessionId) (run : RunId) (now : Time) :
    Option (RuntimeState × SessionCoordinator) :=
  match co.reservation session run, co.abortStarted.get? run with
  | some active, some started =>
      if active.status = .aborting ∧ co.abortTimeout ≤ now - started then
        let failed := { active with status := .error, error := some "abort_timeout" }
        some (failed, co.project session failed)
      else none
  | _, _ => none

def completedState (session : SessionId) (run : RunId) (active : RuntimeState)
    (runOutcome : Option String) : RuntimeState :=
  let outcome := if active.status = .aborting then some "cancelled" else runOutcome
  { sessionId := session, completedRunId := some run
    outcome := some (match outcome with
      | some text => if text = "" then "completed" else text
      | none => "completed") }

-- The completion section of the watcher, with what `run_outcome` says.
def complete (session : SessionId) (run : RunId) (runOutcome : Option String) :
    Option (RuntimeState × SessionCoordinator) :=
  match co.reservation session run with
  | none => none
  | some active =>
      let completed := completedState session run active runOutcome
      some (completed, (co.forgetAbort run).retire session completed)

def closeWatcher (run : RunId) (thread : CallId) : SessionCoordinator :=
  if co.watchers.get? run = some thread then { co with watchers := co.watchers.erase run } else co

def controlsActive : Bool := !(co.exclusiveControls.keys.isEmpty && co.sideQuestions.keys.isEmpty)

-- `none` where the source returns no identity to abort.
def markShutdownAborting (active : RuntimeState) (now : Time) :
    Option (RunId × RuntimeId) × SessionCoordinator :=
  match co.activeBySession.get? active.sessionId with
  | none => (none, co)
  | some current =>
      if current.runId ≠ active.runId then (none, co)
      else match co.runtimes.get? active.sessionId, current.runId with
        | some runtime, some run =>
            if stopped current then (some (run, runtime), co)
            else
              let aborting := { current with status := .aborting }
              let started := { co with abortStarted := co.abortStarted.set run now }
              (some (run, runtime), started.project active.sessionId aborting)
        | _, _ => (none, co)

end SessionCoordinator

end GaHub.Sessions
