import GaHub.Lib.Dict
import Mathlib.Data.List.Sort

namespace GaHub.Conductor

open Lib

abbrev RequestId := String

abbrev AgentId := String

-- A reading of the clock; only the order of readings matters.
abbrev Time := Int

inductive WorkerStatus where
  | running
  | pending
  | accepted
  | rejected
  | timeout
  | failed
  | cancelled
  | killed
  deriving DecidableEq

inductive WorkflowStatus where
  | admitted
  | supervising
  | reworking
  | awaitingReview
  | completed
  | failed
  | cancelled
  | killed
  deriving DecidableEq

inductive AdmissionState where
  | admitted
  | submitting
  | recoveredIncomplete
  deriving DecidableEq

inductive TerminalEvent where
  | workflowCompleted
  | workflowFailed
  deriving DecidableEq

-- The lifecycle events of a worker; `other` is any string the tracker has no branch for.
inductive WorkerEvent where
  | spawned
  | started
  | running
  | reworked
  | completed
  | pendingReview
  | accepted
  | rejected
  | timeoutTotal
  | failed
  | cancelled
  | killed
  | other (name : String)
  deriving DecidableEq

inductive Stage where
  | planning
  | supervising
  | reworking
  | awaitingReview
  | aggregating
  | recoverableFailure
  | completed
  | failed
  deriving DecidableEq

-- `CLOSED_WORKER_STATES`
def WorkerStatus.closed : WorkerStatus → Bool
  | .accepted | .rejected => true
  | _ => false

-- A chat item: its `id`, and the rest of the object.
structure Item where
  id : Option String
  body : String
  deriving DecidableEq

structure WorkerState where
  generation : Int
  state : WorkerStatus := .running
  deriving DecidableEq

structure WorkflowState where
  requestId : RequestId
  title : Option String := none
  admissionState : AdmissionState := .admitted
  bootId : Option String := none
  state : WorkflowStatus := .admitted
  workers : Dict AgentId WorkerState := .empty
  finalItem : Option Item := none
  createdAt : Time := 0
  completedAt : Option Time := none
  terminalEvent : Option TerminalEvent := none
  phase : Option String := none
  error : Option String := none
  failedAgentId : Option AgentId := none
  deriving DecidableEq

-- `asdict(workflow)`: what `state_json` holds. The workers are an object,
-- that is a list of members.
structure Row where
  requestId : RequestId
  title : Option String
  admissionState : AdmissionState
  bootId : Option String
  state : WorkflowStatus
  workers : List (AgentId × WorkerState)
  finalItem : Option Item
  createdAt : Time
  completedAt : Option Time
  terminalEvent : Option TerminalEvent
  phase : Option String
  error : Option String
  failedAgentId : Option AgentId
  deriving DecidableEq

def Row.lists (row : Row) (agent : AgentId) : Bool := decide (agent ∈ row.workers.map Prod.fst)

-- `x or None` for a string.
def orNone (text : String) : Option String := if text = "" then none else some text

inductive Topic where
  | workerFailed
  | workflowCompleted
  | workflowFailed
  deriving DecidableEq

structure Payload where
  requestId : RequestId
  title : Option String
  admissionState : AdmissionState
  bootId : Option String
  status : WorkflowStatus
  stage : Stage
  terminalEvent : Option TerminalEvent
  subagents : Dict AgentId WorkerState
  createdAt : Time
  completedAt : Option Time
  phase : Option String
  error : Option String
  failedAgentId : Option AgentId
  item : Option Item
  deriving DecidableEq

abbrev Transition := Topic × Payload

-- What `_assert_ready_for_final` complains about, and the other errors the
-- tracker and its store raise.
inductive ConductorError where
  | unknownRequest (request : RequestId)
  | alreadyTerminal (request : RequestId)
  | foreignWorker (agent : AgentId) (owner request : RequestId)
  | openWorkers (workers : List (AgentId × WorkerStatus))
  | noneAccepted
  | activeWorkflow
  | outsideTransaction
  | epochChanged
  | cursorBackwards
  | operationConflict
  | invalidCommandState
  | fault
  deriving DecidableEq

namespace WorkflowState

variable (w : WorkflowState)

def asdict : Row where
  requestId := w.requestId
  title := w.title
  admissionState := w.admissionState
  bootId := w.bootId
  state := w.state
  workers := w.workers.entries
  finalItem := w.finalItem
  createdAt := w.createdAt
  completedAt := w.completedAt
  terminalEvent := w.terminalEvent
  phase := w.phase
  error := w.error
  failedAgentId := w.failedAgentId

-- `_decode_state`: the workers become a dict again.
def decodeState (row : Row) : WorkflowState where
  requestId := row.requestId
  title := row.title
  admissionState := row.admissionState
  bootId := row.bootId
  state := row.state
  workers := .ofList row.workers
  finalItem := row.finalItem
  createdAt := row.createdAt
  completedAt := row.completedAt
  terminalEvent := row.terminalEvent
  phase := row.phase
  error := row.error
  failedAgentId := row.failedAgentId

theorem decodeState_asdict : decodeState w.asdict = w := by
  simp only [decodeState, asdict, Dict.ofList_entries]

def closed : Bool := w.workers.values.all fun worker => worker.state.closed

def someAccepted : Bool := w.workers.values.any fun worker => decide (worker.state = .accepted)

def workflowStage : Stage :=
  if w.terminalEvent.isSome then
    if w.state = .completed then .completed else .failed
  else if w.state = .failed then .recoverableFailure
  else if !w.workers.values.isEmpty && w.workers.values.all (fun v => decide (v.state = .accepted)) then
    .aggregating
  else if w.state = .reworking ∨
      w.workers.values.any (fun v => decide (1 < v.generation ∧ v.state = .running)) = true then
    .reworking
  else if w.state = .awaitingReview then .awaitingReview
  else if w.state = .supervising then .supervising
  else .planning

-- `_payload`; an extra replaces the stored value only where it is truthy.
def payload (phase error failedAgentId : String := "") : Payload where
  requestId := w.requestId
  title := w.title
  admissionState := w.admissionState
  bootId := w.bootId
  status := w.state
  stage := w.workflowStage
  terminalEvent := w.terminalEvent
  subagents := w.workers
  createdAt := w.createdAt
  completedAt := w.completedAt
  phase := (orNone phase).or w.phase
  error := (orNone error).or w.error
  failedAgentId := (orNone failedAgentId).or w.failedAgentId
  item := w.finalItem

-- `_complete_if_ready`; `none` leaves the workflow as it is.
def completeIfReady (now : Time) : Option WorkflowState :=
  if w.terminalEvent.isSome ∨ w.finalItem.isNone then none
  else if !w.workers.values.isEmpty && !w.closed then none
  else if !w.workers.values.isEmpty && !w.someAccepted then none
  else some { w with
    state := .completed
    completedAt := some now
    terminalEvent := some .workflowCompleted }

def assertReadyForFinal : Except ConductorError Unit :=
  if w.terminalEvent.isSome then .error (.alreadyTerminal w.requestId)
  else if w.workers.values.isEmpty then .ok ()
  else
    let openWorkers := w.workers.entries.filter fun e => !e.2.state.closed
    if !openWorkers.isEmpty then
      .error (.openWorkers ((openWorkers.map fun e => (e.1, e.2.state)).insertionSort (·.1 ≤ ·.1)))
    else if !w.someAccepted then .error .noneAccepted
    else .ok ()

def setTitle (title : String) : WorkflowState :=
  if w.title.all (· = "") then { w with title := some (title.take 5000).toString } else w

def confirmAdmission (bootId : Option String) : WorkflowState :=
  { w with
    admissionState := .admitted
    bootId := if bootId.all (· = "") then w.bootId else bootId }

def reopen : WorkflowState :=
  { w with
    terminalEvent := none
    finalItem := none
    completedAt := none
    state := .supervising
    phase := some "reopened"
    error := none
    failedAgentId := none }

-- The worker map and the status after `bind_subagent`, before completion is tried.
def bindWorker (agent : AgentId) (generation : Int) : WorkflowState :=
  match w.workers.get? agent with
  | none => { w with workers := w.workers.set agent { generation }, state := .supervising }
  | some current =>
      if current.generation < generation then
        { w with workers := w.workers.set agent { generation }, state := .supervising }
      else if current.state = .running then { w with state := .supervising }
      else w

-- The head of an applied worker event: the worker appears, or starts a new
-- generation. `none` is a stale event.
def noteWorker (agent : AgentId) (generation : Option Int) : Option WorkflowState :=
  match w.workers.get? agent with
  | none => some { w with workers := w.workers.set agent { generation := generation.getD 0 } }
  | some worker =>
      match generation with
      | none => some w
      | some generation =>
          if generation < worker.generation then none
          else if worker.generation < generation then
            some { w with workers := w.workers.set agent { generation } }
          else some w

def setWorker (agent : AgentId) (status : WorkerStatus) : WorkflowState :=
  match w.workers.get? agent with
  | none => w
  | some worker => { w with workers := w.workers.set agent { worker with state := status } }

-- `cancelled` and `killed` close the workflow under their own name.
def closeFailed (agent : AgentId) (worker : WorkerStatus) (status : WorkflowStatus) (error : String)
    (now : Time) : WorkflowState :=
  { w.setWorker agent worker with
    state := status
    completedAt := some now
    terminalEvent := some .workflowFailed
    error := orNone error
    failedAgentId := orNone agent }

-- The branch of an event on an open workflow: the new state, and the transition
-- of the two branches that return before completion is tried.
def observe (agent : AgentId) (event : WorkerEvent) (error : String) (now : Time) :
    WorkflowState × Option Transition :=
  match event with
  | .spawned | .started | .running =>
      ({ w.setWorker agent .running with state := .supervising }, none)
  | .reworked => ({ w.setWorker agent .running with state := .reworking }, none)
  | .completed | .pendingReview =>
      ({ w.setWorker agent .pending with state := .awaitingReview }, none)
  | .accepted => (w.setWorker agent .accepted, none)
  | .rejected => (w.setWorker agent .rejected, none)
  | .timeoutTotal => ({ w.setWorker agent .timeout with state := .awaitingReview }, none)
  | .failed =>
      let failed := { w.setWorker agent .failed with state := .failed }
      (failed, some (.workerFailed, failed.payload "" error agent))
  | .cancelled =>
      let closed := w.closeFailed agent .cancelled .cancelled error now
      (closed, some (.workflowFailed, closed.payload "" error agent))
  | .killed =>
      let closed := w.closeFailed agent .killed .killed error now
      (closed, some (.workflowFailed, closed.payload "" error agent))
  | .other _ => (w, none)

def applyEvent (agent : AgentId) (event : WorkerEvent) (error : String) (now : Time) :
    WorkflowState × Option Transition :=
  match w.observe agent event error now with
  | (observed, some transition) => (observed, some transition)
  | (observed, none) =>
      match observed.completeIfReady now with
      | none => (observed, none)
      | some completed => (completed, some (.workflowCompleted, completed.payload))

def failSupervisor (phase error : String) (now : Time) : WorkflowState :=
  { w with
    state := .failed
    completedAt := some now
    terminalEvent := some .workflowFailed
    phase := orNone phase
    error := orNone error }

-- What `abandon_stranded` sweeps.
def stranded : Bool :=
  w.terminalEvent.isNone && decide (w.state = .admitted) && w.workers.values.isEmpty

-- The sort key of `prune_terminal`: `completed_at or created_at`.
def closedAt : Time :=
  match w.completedAt with
  | none => w.createdAt
  | some at' => if at' = 0 then w.createdAt else at'

end WorkflowState

end GaHub.Conductor
