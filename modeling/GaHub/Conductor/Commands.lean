import GaHub.Conductor.Recovery

namespace GaHub.Conductor

open Lib

def Value.truthy : Value → Bool
  | .null => false
  | .bool b => b
  | .int n => decide (n ≠ 0)
  | .str s => decide (s ≠ "")
  | .json _ => true

-- `GahubProcessError`
structure Failure where
  statusCode : Option Nat
  detail : ErrorDetail
  deriving DecidableEq

inductive Raised where
  | process (failure : Failure)
  | value (message : String)
  | notRunning (message : String)
  -- the transaction at the end of a delivery
  | body (error : RecoveryError)
  | other
  deriving DecidableEq

namespace Failure

variable (f : Failure)

-- What `_record_rejection` takes for an answer.
def definite : Bool :=
  decide (f.statusCode ∈ [some 400, some 404, some 409, some 422]) &&
    decide (f.detail.detail.error ≠ some "operation_in_progress")

def named (operation : OperationId) : Failure :=
  { f with detail := .object { f.detail.detail with operationId := some operation } }

def uncertain (receiptKnown : Bool) : Bool :=
  f.statusCode.all (fun status => decide (500 ≤ status) && !receiptKnown) || f.detail.detail.enqueued ||
    decide (f.detail.detail.error = some "engine_boot_changed")

end Failure

-- The answer of `get_subagent`.
structure WorkerView where
  bootId : Option String
  activeGeneration : Int
  commandRevision : Int
  reviewPending : Bool
  deliverablesMissing : Bool
  deliverablesStale : Bool
  deriving DecidableEq

-- The engine's result of a command; a chat result is the chat item itself.
structure EngineReply where
  item : ChatItem
  activeGeneration : Option Int
  body : String
  deriving DecidableEq

inductive ReceiptOutcome where
  | unknown
  | accepted (reply : EngineReply)
  | refused (statusCode : Nat) (detail : ErrorDetail)
  deriving DecidableEq

structure Receipt where
  bootId : Option String
  outcome : ReceiptOutcome
  deriving DecidableEq

def Receipt.known (receipt : Receipt) : Bool := decide (receipt.outcome ≠ .unknown)

structure Answers where
  now : Time := 0
  -- `configure_models` raised with this text
  configured : Option String := none
  started : Option Raised := none
  synced : Option Raised := none
  worker : Except Raised WorkerView := .error .other
  models : Except Raised (Value × String) := .error .other
  engineReady : Option Raised := none
  receipt : Except Raised Receipt := .error .other
  reply : Except Raised EngineReply := .error .other
  fault : Bool := false

inductive Point where
  | fetched
  | admitted
  | recovered
  | compared
  | assigned
  | prepared
  | saved
  | marked
  | cleared
  | sent
  | raised (error : Raised) (receiptKnown : Bool)
  | replied (reply : EngineReply)
  deriving DecidableEq

inductive Progress where
  | entered
  -- the state is that of the row as it was read
  | running (point : Point) (state : CommandState) (payload : CommandPayload)
  | ended (outcome : Option Raised)
  deriving DecidableEq

-- One call of `execute_command`.
structure Job where
  startAllowed : Bool
  -- the state `drain_commands` listed the command with, if it made the call
  listed : Option CommandState
  progress : Progress
  deriving DecidableEq

-- What happened to the commands, for the record.
inductive Note where
  | queried (operation : OperationId) (bootId : Option String) (known : Bool)
  | sent (operation : OperationId) (bootId : Option String) (row : Option Command)
  | suspended (operation : OperationId)
  | uncertain (operation : OperationId)
  -- `answered`: a receipt or a reply of the engine says so
  | stored (operation : OperationId) (state : CommandState) (answered : Bool)
  deriving DecidableEq

def Deferring.andThen (d : Deferring) (rest : List Effect → Tracker → Deferring) : Deferring :=
  match d with
  | (.error e, t) => (.error e, t)
  | (.ok effects, t) => rest effects t

namespace Tracker

variable (t : Tracker)

-- The transaction of `submit`. `fresh` is a new request id.
def submit (operation : OperationId) (intent : Intent) (fresh : RequestId) (now : Time) : Deferring :=
  match t.db.commands.get? operation with
  | some existing =>
      if existing.payload.intent.equal intent then (.ok [], t)
      else (.error (.conductor .operationConflict), t)
  | none =>
      let put := fun (payload : CommandPayload) (t : Tracker) =>
        t.step (.store (.putCommand operation payload now)) fun _ t => ((.ok [], t) : Deferring)
      let mint := fun t : Tracker =>
        t.step (.admitRequest fresh .submitting none now) fun _ t => put { intent, requestId := some fresh } t
      if !intent.isUserChat then put { intent } t
      else
        match intent.hint with
        | none => mint t
        | some hint =>
            if t.isOpen hint then put { intent, requestId := some hint } t
            else
              t.step (.reopen hint) fun reply t =>
                match reply with
                | .reopened (some _) =>
                    t.step (.admitRequest hint .submitting none now) fun _ t =>
                      put { intent := intent.set "reopen" (.bool true), requestId := some hint } t
                | _ => mint t

def deliver (operation : OperationId) (payload : CommandPayload) (reply : EngineReply) (now : Time) :
    Deferring :=
  let intent := payload.intent
  let finish := fun (effects : List Effect) (t : Tracker) =>
    t.step (.store (.finishCommand operation (some .succeeded) (some (.reply reply.body)) now)) fun _ t =>
      ((.ok effects, t) : Deferring)
  let rid := payload.requestId.filter fun r => decide (r ≠ "")
  let sid := (orElse (intent.text "sid") reply.item.id).getD ""
  let dispatches := decide (intent.text "action" = none ∨ intent.text "action" = some "input" ∨
    intent.text "action" = some "rework")
  if intent.text "kind" = some "chat" then
    let chat := fun t : Tracker => (t.onRemoteChat reply.item now).andThen finish
    match rid with
    | none => chat t
    | some rid =>
        if intent.text "role" = some "user" then
          t.step (.confirmAdmission rid payload.bootId now) fun _ t => chat t
        else chat t
  else
    match rid with
    | none => finish [] t
    | some rid =>
        if !t.hasRequest rid then finish [] t
        else if intent.text "action" = some "accept" then
          t.step (.recordSubagentEvent sid .accepted reply.activeGeneration (some rid) "" now) fun reply t =>
            finish (published (transitionOf reply)) t
        else if t.isOpen rid && dispatches then
          t.step (.confirmAdmission rid payload.bootId now) fun _ t =>
            t.step (.bindSubagent rid sid (reply.activeGeneration.getD 0) now) fun _ t => finish [] t
        else finish [] t

end Tracker

-- The service with its deliveries, the pass of its command loop and the engine's boots.
structure Hub where
  process : Process
  ready : Bool := false
  stopped : Bool := false
  jobs : Dict OperationId Job := .empty
  -- what `drain_commands` has still to look at, as it read it
  listed : List (OperationId × Command) := []
  -- what its `except` clause is about to handle
  caught : Option (OperationId × CommandState × Failure) := none
  boots : List String := []
  -- the newest boot any answer of the engine has named
  learned : Nat := 0
  log : List Note := []

namespace Hub

variable (h : Hub)

def row (operation : OperationId) : Option Command := h.process.tracker.db.commands.get? operation

def write (op : StoreOp) : Hub := { h with process := h.process.save op }

def note (note : Note) : Hub := { h with log := note :: h.log }

-- `finish_command`
def finish (operation : OperationId) (state : CommandState) (result : Option CommandResult)
    (answered : Bool) (now : Time) : Hub :=
  (h.write (.finishCommand operation (some state) result now)).note (.stored operation state answered)

-- `_record_rejection`
def recordRejection (operation : OperationId) (f : Failure) (now : Time) : Hub :=
  if f.definite then
    h.finish operation .rejected (some (.failure f.statusCode (.object f.detail.detail))) false now
  else h

def move (operation : OperationId) (job : Job) (progress : Progress) : Hub :=
  { h with jobs := h.jobs.set operation { job with progress } }

-- `store.pending_commands()`
def pendingCommands : List (OperationId × Command) :=
  (h.process.tracker.db.commands.entries.filter fun e =>
    decide (e.2.state = .pending ∨ e.2.state = .sending ∨ e.2.state = .unknown)).insertionSort
      fun x y => x.2.updatedAt ≤ y.2.updatedAt

def refusal : Option CommandResult → Failure
  | some (.failure statusCode detail) => ⟨some ((statusCode.filter fun s => decide (s ≠ 0)).getD 409), detail⟩
  | some (.note error) => ⟨some 409, .object { error := some error }⟩
  | some (.reply body) => ⟨some 409, .object { rest := body }⟩
  | none => ⟨some 409, .object {}⟩

def failure (status : Nat) (error : String) (operation : OperationId) : Raised :=
  .process ⟨some status, .object { error := some error, operationId := some operation }⟩

def conflict (error : String) (rest : String := "") : Raised :=
  .process ⟨some 409, .object { error := some error, rest }⟩

-- `expected is not None and expected != actual`
def differs (expected : Option Value) (actual : Value) : Bool :=
  expected.any fun v => decide (v ≠ .null ∧ v.key ≠ actual.key)

def ofText : Option String → Value
  | none => .null
  | some s => .str s

-- The checks `_prepare` makes of the worker an action is for.
def checkWorker (payload : CommandPayload) (intent : Intent) (bootId : Option String) (worker : WorkerView) :
    Except Raised CommandPayload :=
  if worker.bootId ≠ bootId then .error (.process ⟨some 409, .text "engine changed during action preparation"⟩)
  else if differs (intent.get? "expected_boot_id") (ofText worker.bootId) then
    .error (conflict "worker_version_conflict" "expected_boot_id")
  else if differs (intent.get? "expected_generation") (.int worker.activeGeneration) then
    .error (conflict "worker_version_conflict" "expected_generation")
  else if differs (intent.get? "expected_command_revision") (.int worker.commandRevision) then
    .error (conflict "worker_version_conflict" "expected_command_revision")
  else if payload.expectedGeneration.getD worker.activeGeneration ≠ worker.activeGeneration then
    .error (conflict "worker_version_conflict")
  else if payload.auto && (!worker.reviewPending || worker.deliverablesMissing || worker.deliverablesStale) then
    .error (conflict "auto_accept_ineligible")
  else
    .ok { payload with
      expectedGeneration := some worker.activeGeneration
      expectedCommandRevision := some worker.commandRevision }

def stripped (intent : Intent) : Intent :=
  let expectations := if intent.text "kind" = some "action" then
    ["expected_boot_id", "expected_generation", "expected_command_revision"] else []
  (["kind", "conductor_llm_index", "subagent_llm_index", "subagent_model_policy"] ++ expectations).foldl
    (fun d k => d.erase k) intent

-- An action finds its request by its worker when nothing else names it.
def requestOf (payload : CommandPayload) : Option RequestId :=
  let given := orElse payload.requestId (payload.intent.text "request_id")
  if payload.intent.text "kind" = some "action" ∧ given.all (· = "") then
    h.process.tracker.requestForSubagent ((payload.intent.text "sid").getD "")
  else given

-- The part of `_prepare` that asks for the worker of an action.
def checkAction (payload : CommandPayload) (a : Answers) : Except Raised CommandPayload × Hub :=
  if payload.intent.text "kind" = some "action" then
    match a.worker with
    | .error e => (.error e, h)
    | .ok worker =>
        (checkWorker payload payload.intent h.process.bootId worker,
          { h with ready := h.ready && decide (worker.bootId = h.process.bootId) })
  else (.ok payload, h)

-- The payload as it is saved, for the request and with the intent to send.
def sendable (payload : CommandPayload) (rid : Option RequestId) (intent : Intent) : CommandPayload :=
  { payload with requestId := rid, prepared := some ((stripped intent).set "request_id" (ofText rid)) }

def admitAction (payload : CommandPayload) (rid : Option RequestId) (a : Answers) :
    Except Raised CommandPayload × Hub :=
  let intent := payload.intent
  let kind := intent.text "kind"
  if kind = some "dispatch" ∨ intent.text "action" = some "input" ∨ intent.text "action" = some "rework" then
    match a.models with
    | .error e => (.error e, h)
    | .ok (selected, policy) =>
        (.ok (sendable { payload with modelPolicy := some policy } rid (intent.set "llm_index" selected)), h)
  else if kind = some "chat" ∧ (intent.get? "final").any Value.truthy then
    let answer := h.process.tracker.call (.assertReadyForFinal (rid.getD "")) false
    let asked := { h with process := { h.process with tracker := answer.2 } }
    match answer.1 with
    | .error _ => (.error (.value "conductor request is not ready for a final"), asked)
    | .ok _ => (.ok (sendable payload rid intent), asked)
  else if kind = some "action" ∨ kind = some "chat" ∧ intent.text "role" = some "user" then
    match a.engineReady with
    | some e => (.error e, h)
    | none => (.ok (sendable payload rid intent), h)
  else (.ok (sendable payload rid intent), h)

-- `_prepare`
def prepare (payload : CommandPayload) (a : Answers) : Except Raised CommandPayload × Hub :=
  match h.checkAction payload a with
  | (.error e, checked) => (.error e, checked)
  | (.ok payload, checked) => checked.admitAction payload (h.requestOf payload) a

def fetch (operation : OperationId) (job : Job) : Hub :=
  match h.row operation with
  | none => h.move operation job (.ended (some .other))
  | some command =>
      if command.state = .succeeded then h.move operation job (.ended none)
      else if command.state = .rejected then
        h.move operation job (.ended (some (.process (refusal command.result))))
      else if command.payload.suspended then
        h.move operation job (.ended (some (failure 409 "operation_unknown" operation)))
      else h.move operation job (.running .fetched command.state command.payload)

-- `_record_rejection` and the end of the call.
def reject (operation : OperationId) (job : Job) (f : Failure) (now : Time) : Hub :=
  (h.recordRejection operation f now).move operation job (.ended (some (.process (f.named operation))))

-- The `except` clauses around the query and the request.
def conclude (operation : OperationId) (job : Job) (error : Raised) (receiptKnown : Bool) (now : Time) : Hub :=
  match error with
  | .process f =>
      let detail := f.detail.detail
      let result := some (.failure f.statusCode f.detail)
      let told := fun state : CommandState => Progress.ended (some (.process { f with
        detail := .object { detail with operationId := some operation, operationState := some state } }))
      let h := { h with ready := h.ready && decide (detail.error ≠ some "engine_boot_changed") }
      if f.uncertain receiptKnown then
        ((h.finish operation .unknown result true now).note (.uncertain operation)).move operation job (told .unknown)
      else (h.finish operation .rejected result true now).move operation job (told .rejected)
  | error =>
      ((h.finish operation .unknown none false now).note (.uncertain operation)).move operation job
        (.ended (some error))

-- The next step of a delivery, from where it stands.
def advance (operation : OperationId) (job : Job) (point : Point) (state : CommandState)
    (payload : CommandPayload) (a : Answers) : Hub :=
  let go := fun (h : Hub) (point : Point) => h.move operation job (.running point state payload)
  let stop := fun (h : Hub) (error : Raised) => h.move operation job (.ended (some error))
  match point with
  | .fetched =>
      if job.startAllowed && payload.intent.isUserChat && decide (state = .pending) then
        match a.configured, a.started with
        | some message, _ => h.reject operation job ⟨some 422, .text message⟩ a.now
        | none, some error => stop h error
        | none, none => go h .admitted
      else go h .admitted
  | .admitted =>
      match if h.ready then none else a.synced with
      | some error => stop h error
      | none =>
          if !h.ready || h.stopped then stop h (failure 503 "recovery_pending" operation)
          else go h .recovered
  | .recovered =>
      if !payload.bootId.all (· = "") && decide (payload.bootId ≠ h.process.bootId) then
        stop ((h.finish operation .unknown (some (.note "engine_boot_changed")) false a.now).note
          (.uncertain operation)) (failure 409 "operation_unknown" operation)
      else go h .compared
  | .compared =>
      h.move operation job (.running .assigned state { payload with bootId := h.process.bootId })
  | .assigned =>
      if payload.prepared.isSome then go h .saved
      else
        match h.prepare payload a with
        | (.ok payload, h) => h.move operation job (.running .prepared state payload)
        | (.error (.process f), h) => h.reject operation job f a.now
        | (.error (.value message), h) => h.reject operation job ⟨some 422, .text message⟩ a.now
        | (.error (.notRunning message), h) => h.reject operation job ⟨some 409, .text message⟩ a.now
        | (.error error, h) => stop h error
  | .prepared => go (h.write (.prepareCommand operation payload)) .saved
  | .saved => go (h.finish operation .sending none false a.now) .marked
  | .marked =>
      if state = .sending ∨ state = .unknown then
        match a.receipt with
        | .error error => go h (.raised error false)
        | .ok receipt =>
            let h := h.note (.queried operation receipt.bootId receipt.known)
            if receipt.bootId ≠ payload.bootId then go h (.raised (conflict "engine_boot_changed") false)
            else
              match receipt.outcome with
              | .unknown => go h .cleared
              | .accepted reply => go h (.replied reply)
              | .refused statusCode detail => go h (.raised (.process ⟨some statusCode, detail⟩) true)
      else go h .cleared
  | .cleared => go (h.note (.sent operation payload.bootId (h.row operation))) .sent
  | .sent =>
      match a.reply with
      | .error error => go h (.raised error false)
      | .ok reply => go h (.replied reply)
  | .raised error receiptKnown => h.conclude operation job error receiptKnown a.now
  | .replied reply =>
      let p := h.process
      match p.tracker.begin.deliver operation payload reply a.now with
      | (.error error, t) => stop { h with process := { p with tracker := t.rollback } } (.body error)
      | (.ok effects, t) =>
          if a.fault then stop { h with process := { p with tracker := t.rollback } } .other
          else
            ({ h with process := { p with tracker := t.commit, pending := p.pending ++ effects } }.note
              (.stored operation .succeeded true)).move operation job (.ended none)

def Point.onStore : Point → Bool
  | .admitted | .compared | .cleared | .marked | .sent => false
  | _ => true

-- `finally`; the error of a listed command is caught by the pass.
def leave (operation : OperationId) (job : Job) (outcome : Option Raised) : Hub :=
  let left := { h with jobs := h.jobs.erase operation }
  match job.listed, outcome with
  | some state, some (.process f) => { left with caught := some (operation, state, f) }
  | _, _ => left

def draining : Bool := h.caught.isSome || h.jobs.values.any fun job => job.listed.isSome

-- The next round of the loop of `drain_commands`.
def pick (autoAccept : Bool) : Option Hub :=
  match h.listed with
  | [] => none
  | (operation, command) :: rest =>
      let skip := some { h with listed := rest }
      if h.draining then none
      else if h.stopped || !h.ready then some { h with listed := [] }
      else if command.payload.auto && !autoAccept then skip
      else if command.payload.suspended then skip
      else if command.payload.bootId ≠ none ∧ command.payload.bootId ≠ h.process.bootId then skip
      else if (h.jobs.get? operation).isSome then skip
      else
        some { h with
          listed := rest
          jobs := h.jobs.set operation { startAllowed := false, listed := some command.state, progress := .entered } }

-- The `except` clause of the loop.
def handle (now : Time) : Option Hub :=
  h.caught.map fun e =>
    let h := { h with caught := none }
    if e.2.1 = .pending then h.recordRejection e.1 e.2.2 now else h

def suspendOne (now : Time) (h : Hub) (e : OperationId × Command) : Hub :=
  ((h.write (.prepareCommand e.1 { e.2.payload with suspended := true })).finish e.1 .unknown
    (some (.note "manual_stop")) false now).note (.suspended e.1)

-- `suspend_commands`, one transaction.
def suspend (now : Time) : Hub := h.pendingCommands.foldl (suspendOne now) h

end Hub

-- What the rest of the service does leaves the commands to their own actions.
def ProcessAction.aside : ProcessAction → Bool
  | .tracker (.call (.store (.putCommand ..)) _) | .tracker (.call (.store (.finishCommand ..)) _)
  | .tracker (.call (.store (.prepareCommand ..)) _) | .boot _ | .restart .. => false
  | _ => true

inductive CommandAction where
  | submit (operation : OperationId) (intent : Intent) (fresh : RequestId) (now : Time) (fault : Bool)
  -- the call of `execute_command` at the end of `submit`
  | enter (operation : OperationId)
  | step (operation : OperationId) (answers : Answers)
  | list
  | pick (autoAccept : Bool)
  | handle (now : Time)
  | suspend (now : Time)
  | process (action : ProcessAction)
  | ready (ready : Bool)
  | stop
  -- a new engine process
  | reboot (bootId : String)
  -- `sync` learns the boot of the answer it got
  | learn (index : Nat)
  | crash (active recent : List RequestId)

namespace Hub

variable (h : Hub)

def submit (operation : OperationId) (intent : Intent) (fresh : RequestId) (now : Time) (fault : Bool) :
    Except RecoveryError Unit × Hub :=
  let p := h.process
  match p.tracker.begin.submit operation intent fresh now with
  | (.error e, t) => (.error e, { h with process := { p with tracker := t.rollback } })
  | (.ok effects, t) =>
      if fault then (.error (.conductor .fault), { h with process := { p with tracker := t.rollback } })
      else (.ok (), { h with process := { p with tracker := t.commit, pending := p.pending ++ effects } })

def next : CommandAction → Option Hub
  | .submit operation intent fresh now fault =>
      if h.process.tracker.closed then some (h.submit operation intent fresh now fault).2 else none
  | .enter operation =>
      if (h.jobs.get? operation).isSome then none
      else
        some { h with jobs := h.jobs.set operation { startAllowed := true, listed := none, progress := .entered } }
  | .step operation a =>
      match h.jobs.get? operation with
      | none => none
      | some job =>
          match job.progress with
          | .entered => if h.process.tracker.closed then some (h.fetch operation job) else none
          | .running point state payload =>
              if !Point.onStore point || h.process.tracker.closed then
                some (h.advance operation job point state payload a)
              else none
          | .ended outcome => some (h.leave operation job outcome)
  | .list =>
      if h.process.tracker.closed && h.listed.isEmpty && !h.draining then
        some { h with listed := h.pendingCommands }
      else none
  | .pick autoAccept => h.pick autoAccept
  | .handle now => if h.process.tracker.closed then h.handle now else none
  | .suspend now => if h.process.tracker.closed then some (h.suspend now) else none
  | .process action =>
      if action.aside then (h.process.next action).map fun p => { h with process := p } else none
  | .ready ready => if ready && h.process.bootId.isNone then none else some { h with ready }
  | .stop => some { h with stopped := true }
  | .reboot bootId =>
      if bootId = "" ∨ bootId ∈ h.boots then none else some { h with boots := h.boots ++ [bootId] }
  | .learn index =>
      match h.boots[index]? with
      | none => none
      | some bootId =>
          if h.ready || decide (index < h.learned) then none
          else some { h with process := { h.process with bootId := some bootId }, learned := index }
  | .crash active recent =>
      (h.process.next (.restart active recent)).map fun p =>
        { process := p, boots := h.boots, learned := h.learned, log := h.log }

end Hub

def commandMachine (maxWorkflows : Nat) : Machine Hub CommandAction where
  start := { process := (recoveryMachine maxWorkflows).start }
  next := Hub.next

end GaHub.Conductor
