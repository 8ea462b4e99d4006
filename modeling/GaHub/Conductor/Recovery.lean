import GaHub.Conductor.Tracker
import Mathlib.Data.Finset.Card

namespace GaHub.Conductor

open Lib

-- The payload of a journal record, as far as the recovery reads it.
structure JournalEvent where
  event : String
  requestId : Option RequestId := none
  bootId : Option String := none
  id : Option AgentId := none
  generation : Option Int := none
  status : Option String := none
  phase : Option String := none
  error : Option String := none
  desc : Option String := none
  reason : Option String := none
  item : Option ChatItem := none
  deriving DecidableEq

structure Record where
  seq : Int
  type : String
  bootId : Option String := none
  ts : Time := 0
  -- `none` is a payload that is no object
  payload : Option JournalEvent := none
  deriving DecidableEq

-- `x` or `y`, for two strings that may be missing.
def orElse (x y : Option String) : Option String := if x.all (· = "") then y else x

-- `subagent_` with one of `WORKER_EVENTS`.
def workerEvents : List (String × WorkerEvent) :=
  [("subagent_spawned", .spawned), ("subagent_started", .started), ("subagent_running", .running),
   ("subagent_completed", .completed), ("subagent_pending_review", .pendingReview),
   ("subagent_accepted", .accepted), ("subagent_rejected", .rejected),
   ("subagent_reworked", .reworked), ("subagent_timeout_output", .other "timeout_output"),
   ("subagent_timeout_total", .timeoutTotal), ("subagent_cancelled", .cancelled),
   ("subagent_failed", .failed), ("subagent_killed", .killed)]

def observations : List String :=
  ["chat_read", "request_yield_requested", "request_started", "model_failed", "model_fallback",
   "worker_failed", "worker_timeout", "worker_silent", "subagent_milestone",
   "subagent_force_accept", "supervisor_followup", "engine_stopped", "error", "output_truncated"]

inductive RecordKind where
  | engineStarted
  | requestAdmitted
  | chat
  | subagent (event : WorkerEvent)
  | requestOutcome
  | observation
  | unsupported
  deriving DecidableEq

-- The branches of `_apply_record`, in its order.
def Record.kind (record : Record) : RecordKind :=
  if record.type = "engine_started" then .engineStarted
  else if record.type = "request_admitted" then .requestAdmitted
  else if record.type = "chat" then .chat
  else
    match workerEvents.lookup record.type with
    | some event => .subagent event
    | none =>
        if record.type = "request_outcome" then .requestOutcome
        else if record.type ∈ observations then .observation
        else .unsupported

-- `str.strip`, with what the source's language counts as white space.
def isSpace (c : Char) : Bool :=
  let n := c.toNat
  decide (9 ≤ n ∧ n ≤ 13 ∨ 28 ≤ n ∧ n ≤ 32 ∨ n = 133 ∨ n = 160 ∨ n = 5760 ∨ 8192 ≤ n ∧ n ≤ 8202 ∨
    n = 8232 ∨ n = 8233 ∨ n = 8239 ∨ n = 8287 ∨ n = 12288)

def strip (s : String) : String :=
  .ofList ((s.toList.dropWhile isSpace).reverse.dropWhile isSpace).reverse

namespace Activity

-- `_row`; the reading of the clock stands in two units.
def row (request : RequestId) (kind text : String) (ts : Time) (worker : Option AgentId := none) :
    Activity where
  requestId := request
  kind
  at' := max ts 0
  atMs := max ts 0
  text
  workerId := worker

def worker : List (String × String × String) :=
  [("subagent_spawned", "worker_spawned", "子代理已派出"), ("subagent_started", "worker_started", "子代理开工"),
   ("subagent_reworked", "worker_reworked", "按返工意见重新处理"),
   ("subagent_pending_review", "worker_pending_review", "子代理交付，等待验收"),
   ("subagent_accepted", "worker_accepted", "子代理验收通过"),
   ("subagent_rejected", "worker_rejected", "子代理被打回"),
   ("subagent_timeout_total", "worker_timeout", "子代理执行超时"),
   ("subagent_failed", "worker_failed", "子代理执行失败"),
   ("subagent_cancelled", "worker_cancelled", "子代理已取消"),
   ("subagent_killed", "worker_killed", "子代理已终止")]

-- `journal_activity`, without the id of the row.
def journal (kind : String) (event : JournalEvent) (ts : Time) : Option Activity :=
  match event.requestId with
  | none => none
  | some request =>
      if request = "" then none
      else if kind = "request_outcome" then
        if event.status = some "yielded" then none
        else if event.status = some "ok" then
          some (row request "turn_completed" "Conductor 完成一轮处理" ts)
        else some (row request "turn_failed" "Conductor 本轮处理失败" ts)
      else if kind = "subagent_milestone" then
        let desc := strip (event.desc.getD "")
        if desc = "" then none
        else
          let text := if event.status = some "reached" then "里程碑 · " ++ desc else "里程碑未达成 · " ++ desc
          some (row request "worker_milestone" text ts event.id)
      else if kind = "subagent_force_accept" then
        some (row request "worker_force_accepted" "强制验收通过" ts event.id)
      else
        (worker.lookup kind).map fun spec =>
          let reaped := kind = "subagent_killed" ∧ event.reason = some "idle_timeout"
          row request spec.1 (if reaped then spec.2 ++ "（空闲超时回收）" else spec.2) ts event.id

-- `workflow_activity` for the topic of a transition.
def workflow (topic : Topic) (request : RequestId) (ts : Time) : Option (String × Activity) :=
  if request = "" then none
  else
    match topic with
    | .workflowCompleted =>
        some ("wf:" ++ request ++ ":workflow_completed", row request "workflow_completed" "任务完成" ts)
    | .workflowFailed =>
        some ("wf:" ++ request ++ ":workflow_failed", row request "workflow_failed" "任务失败" ts)
    | .workerFailed => none

end Activity

-- `_activity_for`: keyed by epoch and sequence number.
def Record.activity (record : Record) (epoch : Option String) : Option (String × Activity) :=
  record.payload.bind fun event =>
    (Activity.journal record.type event record.ts).map fun row =>
      ((orElse epoch (some "journal")).getD "" ++ ":" ++ toString record.seq, row)

inductive RecoveryError where
  | invalidPayload (seq : Int)
  | missingRequest
  | missingWorker
  | unsupported (type : String)
  | conductor (error : ConductorError)
  deriving DecidableEq

-- What a body leaves for after the commit; notifications that end on the bus are left out.
inductive Effect where
  | mirror (item : ChatItem)
  | publish (transition : Transition)

-- `TERMINAL_WORKFLOW_STATES`
def WorkflowStatus.terminal : WorkflowStatus → Bool
  | .completed | .failed | .cancelled | .killed => true
  | _ => false

namespace ChatItem

variable (item : ChatItem)

-- `hub_item` of `on_remote_chat`.
def hub (now : Time) : ChatItem :=
  { item with
    role := orElse item.role (some "conductor")
    ts := if item.ts.all (· = 0) then some now else item.ts
    kind := if item.final then some "final" else item.kind }

-- The item as `final_item` keeps it.
def asItem : Item where
  id := item.id
  body := item.role.getD "" ++ "\n" ++ item.requestId.getD "" ++ "\n" ++ item.msg

-- `item.get("request_id")`, where it is truthy.
def request : Option RequestId := item.requestId.filter fun r => decide (r ≠ "")

end ChatItem

abbrev Deferring := Except RecoveryError (List Effect) × Tracker

namespace Tracker

variable (t : Tracker)

-- One operation inside a body: its answer goes on, its error ends the body.
def step (op : Op) (rest : Reply → Tracker → Deferring) : Deferring :=
  match t.run op with
  | (.error e, t) => (.error (.conductor e), t)
  | (.ok reply, t) => rest reply t

def published : Option Transition → List Effect
  | none => []
  | some transition => [.publish transition]

def transitionOf : Reply → Option Transition
  | .transition transition | .event _ transition => transition
  | _ => none

-- The two lines before `save_chat`: a title for the request, or its final.
def noteChat (item : ChatItem) (now : Time) (rest : List Effect → Tracker → Deferring) : Deferring :=
  match item.request with
  | none => rest [] t
  | some request =>
      if !t.hasRequest request then rest [] t
      else if item.role = some "user" then
        t.step (.setTitle request item.msg) fun _ t => rest [] t
      else if (item.role = some "conductor" ∨ item.role = some "system") ∧ item.final then
        t.step (.recordFinal request item.asItem now) fun reply t => rest (published (transitionOf reply)) t
      else rest [] t

-- `on_remote_chat`
def onRemoteChat (item : ChatItem) (now : Time) : Deferring :=
  let hub := item.hub now
  t.noteChat hub now fun effects t =>
    t.step (.store (.saveChat hub (hub.ts.getD now))) fun _ t => (.ok (effects ++ [.mirror hub]), t)

-- `fail_unhandled_request`, with the chat as this process mirrors it.
def failUnhandledRequest (chat : List ChatItem) (request : RequestId) (now : Time) : Deferring :=
  match t.snapshot request with
  | none => (.ok [], t)
  | some snapshot =>
      let answered := chat.any fun item =>
        decide (item.role = some "conductor" ∧ item.requestId = some request)
      if snapshot.status.terminal || !snapshot.subagents.entries.isEmpty || snapshot.item.isSome || answered then
        (.ok [], t)
      else
        t.step (.failSupervisor request "finish"
          "supervisor turn finished without dispatching a worker or answering this request" now)
          fun reply t => (.ok (published (transitionOf reply)), t)

end Tracker

def autoAcceptId (engine : String) (sid : AgentId) (generation : Int) (bootId : Option String) :
    OperationId :=
  "autoaccept-" ++ engine.quote ++ sid.quote ++ toString generation ++ (bootId.map String.quote).getD "null"

def autoAcceptIntent (sid : AgentId) (request : RequestId) : Intent :=
  .ofList [("kind", .str "action"), ("sid", .str sid), ("action", .str "accept"),
    ("msg", .str "自动验收：机器检查全部通过。"), ("request_id", .str request), ("force", .bool false)]

-- What a process has in memory besides the tracker, and what it owes after a commit.
structure Process where
  tracker : Tracker
  journalBoot : Option String := none
  bootId : Option String := none
  chatMessages : List ChatItem := []
  relayed : Finset String := ∅
  pending : List Effect := []

-- The surroundings of one record: the clock, the configuration and the journal's identity.
structure Setting where
  now : Time
  epoch : Option String
  engine : String
  autoAccept : Bool

namespace Tracker

variable (t : Tracker)

-- `enqueue_auto_accept`
def enqueueAutoAccept (s : Setting) (bootId : Option String) (sid : AgentId) (request : RequestId)
    (generation : Int) (effects : List Effect) : Deferring :=
  let operation := autoAcceptId s.engine sid generation bootId
  if (t.db.commands.get? operation).isSome then (.ok effects, t)
  else
    t.step (.store (.putCommand operation
      { intent := autoAcceptIntent sid request, auto := true, bootId
        expectedGeneration := some generation } s.now)) fun _ t => (.ok effects, t)

-- The branch of a worker's lifecycle event, once its request is confirmed.
def recordWorkerEvent (s : Setting) (bootId boot : Option String) (event : WorkerEvent)
    (e : JournalEvent) : Deferring :=
  t.step (.recordSubagentEvent (e.id.getD "") event e.generation e.requestId "" s.now) fun reply t =>
    let effects := published (transitionOf reply)
    match reply with
    | .event (some owner) _ =>
        if event = .pendingReview ∧ owner ≠ "" ∧ s.autoAccept ∧ boot = bootId then
          match e.id with
          | none => (.error .missingWorker, t)
          | some sid => t.enqueueAutoAccept s bootId sid owner (e.generation.getD 0) effects
        else (.ok effects, t)
    | _ => (.ok effects, t)

def applyWorkerEvent (s : Setting) (bootId boot : Option String) (event : WorkerEvent)
    (e : JournalEvent) : Deferring :=
  match e.requestId with
  | none => t.recordWorkerEvent s bootId boot event e
  | some request =>
      if request = "" then t.recordWorkerEvent s bootId boot event e
      else t.step (.confirmAdmission request boot s.now) fun _ t => t.recordWorkerEvent s bootId boot event e

def applyChat (s : Setting) (boot : Option String) (item : Option ChatItem) : Deferring :=
  match item with
  | none => (.ok [], t)
  | some item =>
      match item.request with
      | none => t.onRemoteChat item s.now
      | some request =>
          if (item.final ∨ item.role = some "user") ∧ !t.hasRequest request then
            t.step (.admitRequest request .recoveredIncomplete boot s.now) fun _ t =>
              t.onRemoteChat item s.now
          else t.onRemoteChat item s.now

def applyOutcome (s : Setting) (chat : List ChatItem) (e : JournalEvent) : Deferring :=
  match e.requestId with
  | none => (.ok [], t)
  | some request =>
      if request = "" then (.ok [], t)
      else if e.status = some "ok" then t.failUnhandledRequest chat request s.now
      else if e.status ≠ some "yielded" ∧ t.hasRequest request then
        t.step (.failSupervisor request ((orElse e.phase (some "finish")).getD "")
          ((orElse e.error (some "supervisor failed")).getD "") s.now) fun reply t =>
            (.ok (published (transitionOf reply)), t)
      else (.ok [], t)

end Tracker

namespace Process

variable (p : Process)

-- `event.get("boot_id") or self._journal_boot`
def boot (e : JournalEvent) : Option String := orElse e.bootId p.journalBoot

-- `_apply_record` after `engine_started`, inside the open transaction of `t`.
def applyRecord (t : Tracker) (s : Setting) (record : Record) : Deferring :=
  if record.kind = .engineStarted then (.ok [], t)
  else
    match record.payload with
    | none => (.error (.invalidPayload record.seq), t)
    | some e =>
        if e.event ≠ record.type then (.error (.invalidPayload record.seq), t)
        else
          t.step (.store (.saveActivity (record.activity s.epoch).toList)) fun _ t =>
            match record.kind with
            | .engineStarted | .observation => (.ok [], t)
            | .requestAdmitted =>
                match e.requestId with
                | none => (.error .missingRequest, t)
                | some request =>
                    if request = "" then (.error .missingRequest, t)
                    else t.step (.confirmAdmission request (p.boot e) s.now) fun _ t => (.ok [], t)
            | .chat => t.applyChat s (p.boot e) e.item
            | .subagent event => t.applyWorkerEvent s p.bootId (p.boot e) event e
            | .requestOutcome => t.applyOutcome s p.chatMessages e
            | .unsupported => (.error (.unsupported record.type), t)

-- `_journal_boot` is set while the record is applied, and stays set.
def heard (record : Record) : Process :=
  if record.kind = .engineStarted then { p with journalBoot := record.bootId } else p

def body (s : Setting) (record : Record) : Deferring :=
  match p.applyRecord p.tracker.begin s record with
  | (.error e, t) => (.error e, t)
  | (.ok effects, t) =>
      t.step (.store (.checkpoint s.epoch record.seq t.db.cursor.bootId)) fun _ t => (.ok effects, t)

def attempt (s : Setting) (record : Record) (fault : Bool) : Except RecoveryError Unit × Process :=
  let p := p.heard record
  match p.body s record with
  | (.error e, t) => (.error e, { p with tracker := t.rollback })
  | (.ok effects, t) =>
      if fault then (.error (.conductor .fault), { p with tracker := t.rollback })
      else (.ok (), { p with tracker := t.commit, pending := p.pending ++ effects })

-- `mirror` of `on_remote_chat`. When the set of relayed ids is full, `kept` is
-- what its iteration order leaves of it.
def mirror (item : ChatItem) (kept : Finset String) : Process :=
  if item.id.any fun id => decide (id ∈ p.relayed) then p
  else
    let chat := p.chatMessages ++ [item]
    let relayed := ((orNone (item.id.getD "")).map fun id => insert id p.relayed).getD p.relayed
    { p with
      chatMessages := chat.drop (chat.length - 200)
      relayed := if 500 < relayed.card then kept else relayed }

-- `_record_workflow_failure_message`: one report for each request. `id` is a new short id.
def reportFailure (request : RequestId) (phase error id : String) (now : Time) : Process :=
  if p.chatMessages.any fun item => decide (item.requestId = some request ∧ item.kind = some "error") then p
  else
    let reason := if strip error = "" then "unknown error" else strip error
    let item : ChatItem :=
      { id := some id, role := some "conductor", msg := "Conductor workflow failed during " ++ phase ++ ": " ++ reason
        ts := some now, requestId := orNone request, kind := some "error" }
    let chat := p.chatMessages ++ [item]
    { p with chatMessages := chat.drop (chat.length - 200) }

-- `_publish_workflow_transition_now`
def publishNow (transition : Transition) (id : String) (now : Time) : Process :=
  let p :=
    if transition.1 = .workflowFailed then
      p.reportFailure transition.2.requestId ((orElse transition.2.phase (some "subagent")).getD "")
        (transition.2.error.getD "") id now
    else p
  match Activity.workflow transition.1 transition.2.requestId now with
  | none => p
  | some row => { p with tracker := (p.tracker.call (.store (.saveActivity [row])) false).2 }

-- `store.chat_messages()`: by time, then in the order of insertion.
def loadChat (db : Db) : List ChatItem :=
  (db.chat.values.insertionSort fun x y => x.2 ≤ y.2).map Prod.fst

end Process

-- A snapshot of the pool names its worker; the backfill builds the same items from the journal.
abbrev PoolItem := String × Snapshot

inductive ProcessAction where
  | record (s : Setting) (record : Record) (fault : Bool)
  -- what routes, commands and reconciliation do to the tracker
  | tracker (action : Action)
  -- a transition any of them hands to `publish_workflow_transition`
  | defer (transition : Transition)
  -- one of the deferred effects; threads may finish in any order
  | effect (index : Nat) (kept : Finset String) (id : String) (now : Time)
  -- `recovery.boot_id` follows the engine
  | boot (bootId : String)
  | archive (items : List PoolItem)
  -- the backfills read the tombstones first and save later
  | backfillArchive (items : List PoolItem) (tombstones : Finset RequestId)
  | backfillActivity (rows : List (String × Activity)) (tombstones : Finset RequestId)
  | restart (active recent : List RequestId)

-- The writes of the archive and of the timeline have actions of their own, and so has a restart.
def Action.apart : Action → Bool
  | .call (.store (.saveSubagentSnapshots _)) _ | .call (.store (.saveActivity _)) _
  | .restart .. => false
  | _ => true

namespace Process

variable (p : Process)

def save (op : StoreOp) : Process := { p with tracker := (p.tracker.call (.store op) false).2 }

def next : ProcessAction → Option Process
  | .record s record fault =>
      if p.tracker.closed && decide (record.seq = p.tracker.db.cursor.seq + 1) then
        some (p.attempt s record fault).2
      else none
  | .tracker action =>
      if action.apart then (p.tracker.next action).map fun t => { p with tracker := t } else none
  | .defer transition => some { p with pending := p.pending ++ [.publish transition] }
  | .effect index kept id now =>
      if !p.tracker.closed then none
      else
        let left := { p with pending := p.pending.eraseIdx index }
        match p.pending[index]? with
        | none => none
        | some (.mirror item) => some (left.mirror item kept)
        | some (.publish transition) => some (left.publishNow transition id now)
  | .boot bootId => if bootId = "" then none else some { p with bootId := some bootId }
  | .archive items => if p.tracker.closed then some (p.save (.saveSubagentSnapshots items)) else none
  | .backfillArchive items tombstones =>
      if p.tracker.closed && decide (tombstones ⊆ p.tracker.db.tombstones) then
        some (p.save (.saveSubagentSnapshots (items.filter fun e =>
          !(e.2.requestId.any fun r => decide (r ≠ "" ∧ r ∈ tombstones)))))
      else none
  | .backfillActivity rows tombstones =>
      if p.tracker.closed && decide (tombstones ⊆ p.tracker.db.tombstones) then
        some (p.save (.saveActivity (rows.filter fun e => decide (e.2.requestId ∉ tombstones))))
      else none
  | .restart active recent =>
      (p.tracker.next (.restart active recent)).map fun t =>
        { tracker := t, chatMessages := loadChat t.db
          relayed := ((loadChat t.db).filterMap ChatItem.id).toFinset }

end Process

def recoveryMachine (maxWorkflows : Nat) : Machine Process ProcessAction where
  start := { tracker := (conductorMachine maxWorkflows true).start }
  next := Process.next

end GaHub.Conductor
