import GaHub.Conductor.Wire
import GaHub.Lib.Machine
import Mathlib.Data.Finset.Insert
import Mathlib.Data.List.Sort
import Mathlib.Data.List.Perm.Basic

namespace GaHub.Conductor

open Lib

abbrev EffectId := Nat

-- `command_fingerprint`: a digest of the canonical encoding, which stands for it here.
def commandFingerprint (payload : CommandPayload) : CommandPayload := payload

structure Command where
  fingerprint : CommandPayload
  payload : CommandPayload
  state : CommandState
  result : Option CommandResult
  updatedAt : Time
  deriving DecidableEq

structure Cursor where
  seq : Int := 0
  epoch : Option String := none
  bootId : Option String := none
  deriving DecidableEq

structure Snapshot where
  requestId : Option RequestId
  updatedAt : Time
  archivedAt : Time
  body : String
  deriving DecidableEq

structure Activity where
  requestId : RequestId
  kind : String
  at' : Time
  atMs : Int
  text : String
  workerId : Option AgentId
  deriving DecidableEq

-- The tables of one engine. A dict iterates in `rowid` order: an upsert keeps
-- the place of a row, an insert goes to the end.
structure Db where
  workflows : Dict RequestId Row := .empty
  consumerState : Option Cursor := none
  commands : Dict OperationId Command := .empty
  tombstones : Finset RequestId := ∅
  chat : Dict String (ChatItem × Time) := .empty
  archive : Dict String Snapshot := .empty
  activity : Dict String Activity := .empty

-- `ORDER BY key DESC, rowid DESC LIMIT cap`, as what the table keeps.
def keepNewest {ν : Type} (cap : Nat) (notOlder : ν → ν → Bool) (table : Dict String ν) :
    Dict String ν :=
  let newest := table.entries.reverse.insertionSort fun x y => notOlder x.2 y.2 = true
  table.filter fun e => decide (e.1 ∈ (newest.take cap).map Prod.fst)

inductive StoreOp where
  | checkpoint (epoch : Option String) (seq : Int) (bootId : Option String)
  | putCommand (operation : OperationId) (payload : CommandPayload) (now : Time)
  -- `none` is a state outside the five the store knows
  | finishCommand (operation : OperationId) (state : Option CommandState)
      (result : Option CommandResult) (now : Time)
  | prepareCommand (operation : OperationId) (payload : CommandPayload)
  | saveChat (item : ChatItem) (ts : Time)
  | saveSubagentSnapshots (items : List (String × Snapshot))
  | saveActivity (rows : List (String × Activity))
  | defer (effect : EffectId)

inductive Op where
  | setTitle (request : RequestId) (title : String)
  | admitRequest (request : RequestId) (admissionState : AdmissionState) (bootId : Option String) (now : Time)
  | forgetWorkflow (request : RequestId) (allowActive : Bool)
  | confirmAdmission (request : RequestId) (bootId : Option String) (now : Time)
  | reopen (request : RequestId)
  | bindSubagent (request : RequestId) (agent : AgentId) (generation : Int) (now : Time)
  | recordSubagentEvent (agent : AgentId) (event : WorkerEvent) (generation : Option Int)
      (request : Option RequestId) (error : String) (now : Time)
  | recordFinal (request : RequestId) (item : Item) (now : Time)
  | assertReadyForFinal (request : RequestId)
  | failSupervisor (request : RequestId) (phase error : String) (now : Time)
  | abandonStranded (reason : String) (now : Time)
  | store (op : StoreOp)

inductive Reply where
  | nothing
  -- `bind_subagent` returns what completion returned
  | completion (payload : Option Payload)
  | reopened (payload : Option Payload)
  | event (owner : Option RequestId) (transition : Option Transition)
  | transition (transition : Option Transition)
  | transitions (transitions : List Transition)
  | command (command : Option Command)

namespace Db

variable (db : Db)

def cursor : Cursor := db.consumerState.getD {}

-- `worker_owner`: the last inserted row that lists the agent.
def workerOwner (agent : AgentId) : Option RequestId :=
  ((db.workflows.entries.filter fun e => e.2.lists agent).getLast?).map Prod.fst

def forgetWorkflow (request : RequestId) : Db :=
  { db with
    workflows := db.workflows.erase request
    tombstones := insert request db.tombstones
    archive := db.archive.filter fun e => decide (e.2.requestId ≠ some request)
    activity := db.activity.filter fun e => decide (e.2.requestId ≠ request) }

def checkpoint (epoch : Option String) (seq : Int) (bootId : Option String) :
    Except ConductorError Db :=
  let current := db.cursor
  if !current.epoch.all (· = "") && decide (current.epoch ≠ epoch) then .error .epochChanged
  else if seq < current.seq then .error .cursorBackwards
  else .ok { db with consumerState := some { seq, epoch, bootId } }

def putCommand (operation : OperationId) (payload : CommandPayload) (now : Time) :
    Except ConductorError (Command × Db) :=
  let fingerprint := commandFingerprint payload
  match db.commands.get? operation with
  | some existing =>
      if existing.fingerprint ≠ fingerprint then .error .operationConflict else .ok (existing, db)
  | none =>
      let command := { fingerprint, payload, state := .pending, result := none, updatedAt := now }
      .ok (command, { db with commands := db.commands.set operation command })

def updateCommand (operation : OperationId) (update : Command → Command) : Db :=
  match db.commands.get? operation with
  | none => db
  | some command => { db with commands := db.commands.set operation (update command) }

def saveChat (item : ChatItem) (id : String) (ts : Time) : Db :=
  let saved := if (db.chat.get? id).isSome then db.chat else db.chat.set id (item, ts)
  { db with chat := keepNewest 200 (fun x y => decide (y.2 ≤ x.2)) saved }

def saveSubagentSnapshots (items : List (String × Snapshot)) : Db :=
  let saved := items.foldl (fun table e => table.set e.1 e.2) db.archive
  let notOlder := fun x y : Snapshot =>
    decide (y.updatedAt < x.updatedAt ∨ y.updatedAt = x.updatedAt ∧ y.archivedAt ≤ x.archivedAt)
  { db with archive := keepNewest 400 notOlder saved }

def saveActivity (rows : List (String × Activity)) : Db :=
  let saved := rows.foldl (fun table e => table.set e.1 e.2) db.activity
  { db with activity := keepNewest 4000 (fun x y => decide (y.atMs ≤ x.atMs)) saved }

end Db

-- The outermost transaction in progress: the rollback points, the deferred
-- effects, and the database as `BEGIN` found it.
structure Txn where
  before : Dict RequestId (Option WorkflowState) := .empty
  effects : List EffectId := []
  saved : Db

structure Store where
  db : Db := {}
  txn : Option Txn := none
  ran : List EffectId := []

structure Tracker where
  maxWorkflows : Nat
  workflows : Dict RequestId WorkflowState := .empty
  owners : Dict AgentId RequestId := .empty
  tombstones : Finset RequestId := ∅
  store : Option Store := none

abbrev Result := Except ConductorError Reply × Tracker

namespace Tracker

variable (t : Tracker)

def db : Db := (t.store.map Store.db).getD {}

def rows : Dict RequestId Row := t.db.workflows

def txn : Option Txn := t.store.bind Store.txn

def withDb (f : Db → Db) : Tracker :=
  { t with store := t.store.map fun s => { s with db := f s.db } }

-- `self._workflows[request] = workflow`, also for an edit of the object held there.
def hold (request : RequestId) (w : WorkflowState) : Tracker :=
  { t with workflows := t.workflows.set request w }

-- `_touch`: the first one in a transaction takes the rollback point.
def touch (request : RequestId) : Tracker :=
  { t with store := t.store.map fun s => { s with txn := s.txn.map fun x =>
      if (x.before.get? request).isSome then x
      else { x with before := x.before.set request (t.workflows.get? request) } } }

-- `_get`: memory first, then the row.
def find (request : RequestId) : Option WorkflowState :=
  (t.workflows.get? request).or ((t.rows.get? request).map WorkflowState.decodeState)

-- `_require`; `none` is the unknown request.
def require (request : RequestId) : Option (WorkflowState × Tracker) :=
  (t.find request).map fun w => (w, (t.hold request w).touch request)

def snapshot (request : RequestId) : Option Payload := (t.find request).map fun w => w.payload

def isOpen (request : RequestId) : Bool := (t.find request).any fun w => w.terminalEvent.isNone

def hasRequest (request : RequestId) : Bool := (t.find request).isSome

def requestForSubagent (agent : AgentId) : Option RequestId :=
  match t.owners.get? agent with
  | some request => if request = "" then t.db.workerOwner agent else some request
  | none => t.db.workerOwner agent

def forgetOwners (requests : List RequestId) : Tracker :=
  { t with owners := t.owners.filter fun e => decide (e.2 ∉ requests) }

-- `_rebuild_owners` over the workflows in iteration order.
def ownersOf (workflows : Dict RequestId WorkflowState) : Dict AgentId RequestId :=
  .ofList (workflows.values.flatMap fun w => w.workers.keys.map fun agent => (agent, w.requestId))

-- What `prune_terminal` drops: the oldest terminal workflows over capacity.
def pruned (workflows : Dict RequestId WorkflowState) (maxWorkflows : Nat) : List RequestId :=
  let terminal := workflows.values.filter fun w => w.terminalEvent.isSome
  let oldest := terminal.insertionSort fun v w => v.closedAt ≤ w.closedAt
  (oldest.take (workflows.size - maxWorkflows)).map WorkflowState.requestId

def prune : Tracker :=
  let removed := pruned t.workflows t.maxWorkflows
  { t.forgetOwners removed with
    workflows := t.workflows.filter fun e => decide (e.1 ∉ removed) }

-- `prune_terminal()` inside `admit`: with a store it waits for the commit.
def pruneTerminal : Tracker := if t.store.isSome then t else t.prune

def setTitle (request : RequestId) (title : String) : Result :=
  match t.require request with
  | none => (.error (.unknownRequest request), t)
  | some (w, t) => (.ok .nothing, t.hold request (w.setTitle title))

def admitRequest (request : RequestId) (admissionState : AdmissionState) (bootId : Option String)
    (now : Time) : Tracker :=
  if request ∈ t.tombstones then t
  else
    match t.find request with
    | some existing => ((t.hold request existing).touch request).pruneTerminal
    | none =>
        let fresh : WorkflowState := { requestId := request, createdAt := now, admissionState, bootId }
        ((t.touch request).hold request fresh).pruneTerminal

def forgetWorkflow (request : RequestId) (allowActive : Bool) : Result :=
  if (t.find request).any (fun w => w.terminalEvent.isNone) && !allowActive then
    (.error .activeWorkflow, t)
  else
    let forgotten := { t.withDb (·.forgetWorkflow request) with
      tombstones := insert request t.tombstones
      workflows := t.workflows.erase request }
    (.ok .nothing, forgotten.forgetOwners [request])

def confirmAdmission (request : RequestId) (bootId : Option String) (now : Time) : Result :=
  if request ∈ t.tombstones then (.ok .nothing, t)
  else
    let t := t.admitRequest request .admitted bootId now
    match t.require request with
    | none => (.error (.unknownRequest request), t)
    | some (w, t) => (.ok .nothing, t.hold request (w.confirmAdmission bootId))

-- A workflow that is only in the database is reopened on a copy nobody keeps.
def reopen (request : RequestId) : Result :=
  if request ∈ t.tombstones then (.ok (.reopened none), t)
  else
    let t := t.touch request
    match t.find request with
    | none => (.ok (.reopened none), t)
    | some w =>
        if w.terminalEvent.isNone then (.ok (.reopened none), t)
        else
          let reopened := w.reopen
          let kept := if (t.workflows.get? request).isSome then t.hold request reopened else t
          (.ok (.reopened (some (reopened.payload "reopened"))), kept)

def bindSubagent (request : RequestId) (agent : AgentId) (generation : Int) (now : Time) : Result :=
  match t.require request with
  | none => (.error (.unknownRequest request), t)
  | some (w, t) =>
      if w.terminalEvent.isSome then (.error (.alreadyTerminal request), t)
      else
        let t := { t with owners := t.owners.set agent request }
        let bound := w.bindWorker agent generation
        match bound.completeIfReady now with
        | none => (.ok (.completion none), t.hold request bound)
        | some completed => (.ok (.completion (some completed.payload)), t.hold request completed)

-- The part of `record_subagent_event` once the owner is settled.
def observe (owner : RequestId) (agent : AgentId) (event : WorkerEvent) (generation : Option Int)
    (error : String) (now : Time) : Result :=
  match t.workflows.get? owner with
  | none => (.ok (.event none none), t)
  | some w =>
      let t := t.touch owner
      match w.noteWorker agent generation with
      | none => (.ok (.event (some owner) none), t)
      | some noted =>
          if noted.terminalEvent.isSome then (.ok (.event (some owner) none), t.hold owner noted)
          else
            let (applied, transition) := noted.applyEvent agent event error now
            (.ok (.event (some owner) transition), t.hold owner applied)

-- The other request the agent belongs to, unless that one is closed.
def foreignOwner (owner : Option RequestId) (request : RequestId) : Option RequestId :=
  owner.filter fun o => decide (o ≠ request) && (t.find o).all fun w => w.terminalEvent.isNone

def recordSubagentEvent (agent : AgentId) (event : WorkerEvent) (generation : Option Int)
    (request : Option RequestId) (error : String) (now : Time) : Result :=
  let owner := t.requestForSubagent agent
  match request with
  | none =>
      match owner with
      | none => (.ok (.event none none), t)
      | some owner => t.observe owner agent event generation error now
  | some request =>
      match t.require request with
      | none => (.error (.unknownRequest request), t)
      | some (w, t) =>
          match t.foreignOwner owner request with
          | some other => (.error (.foreignWorker agent other request), t)
          | none =>
              if w.terminalEvent.isSome then (.ok (.event (some request) none), t)
              else
                { t with owners := t.owners.set agent request }.observe request agent event generation
                  error now

def recordFinal (request : RequestId) (item : Item) (now : Time) : Result :=
  match t.require request with
  | none => (.error (.unknownRequest request), t)
  | some (w, t) =>
      if w.finalItem.any (fun final => decide (final.id = item.id)) then (.ok (.transition none), t)
      else
        match w.assertReadyForFinal with
        | .error e => (.error e, t)
        | .ok () =>
            let final := { w with finalItem := some item }
            match final.completeIfReady now with
            | none => (.ok (.transition none), t.hold request final)
            | some completed =>
                (.ok (.transition (some (.workflowCompleted, completed.payload))),
                  t.hold request completed)

def assertReadyForFinal (request : RequestId) : Result :=
  match t.require request with
  | none => (.error (.unknownRequest request), t)
  | some (w, t) =>
      match w.assertReadyForFinal with
      | .error e => (.error e, t)
      | .ok () => (.ok .nothing, t)

def failSupervisor (request : RequestId) (phase error : String) (now : Time) : Result :=
  match t.workflows.get? request with
  | none => (.ok (.transition none), t)
  | some w =>
      if w.terminalEvent.isSome then (.ok (.transition none), t)
      else
        let failed := w.failSupervisor phase error now
        (.ok (.transition (some (.workflowFailed, failed.payload phase error))),
          (t.touch request).hold request failed)

-- One round of the loop of `abandon_stranded`.
def abandon (reason : String) (now : Time) (acc : List Transition × Tracker) (w : WorkflowState) :
    List Transition × Tracker :=
  if w.stranded then
    let failed := w.failSupervisor "stopped_by_user" reason now
    (acc.1 ++ [(.workflowFailed, failed.payload "stopped_by_user" reason)],
      (acc.2.touch w.requestId).hold w.requestId failed)
  else acc

def abandonStranded (reason : String) (now : Time) : Result :=
  let (transitions, t) := t.workflows.values.foldl (abandon reason now) ([], t)
  (.ok (.transitions transitions), t)

def runStore (s : Store) : StoreOp → Result
  | .checkpoint epoch seq bootId =>
      if s.txn.isNone then (.error .outsideTransaction, t)
      else
        match s.db.checkpoint epoch seq bootId with
        | .error e => (.error e, t)
        | .ok db => (.ok .nothing, t.withDb fun _ => db)
  | .putCommand operation payload now =>
      match s.db.putCommand operation payload now with
      | .error e => (.error e, t)
      | .ok (command, db) => (.ok (.command (some command)), t.withDb fun _ => db)
  | .finishCommand operation state result now =>
      match state with
      | none => (.error .invalidCommandState, t)
      | some state =>
          (.ok .nothing, t.withDb fun db => db.updateCommand operation fun c =>
            { c with state, result, updatedAt := now })
  | .prepareCommand operation payload =>
      (.ok .nothing, t.withDb fun db => db.updateCommand operation fun c =>
        { c with payload, fingerprint := commandFingerprint payload })
  | .saveChat item ts =>
      match item.id with
      | none => (.ok .nothing, t)
      | some id => (.ok .nothing, if id = "" then t else t.withDb fun db => db.saveChat item id ts)
  | .saveSubagentSnapshots items =>
      let named := items.filter fun e => decide (e.1 ≠ "")
      (.ok .nothing, if named.isEmpty then t else t.withDb fun db => db.saveSubagentSnapshots named)
  | .saveActivity rows =>
      let named := rows.filter fun e => decide (e.1 ≠ "" ∧ e.2.requestId ≠ "")
      (.ok .nothing, if named.isEmpty then t else t.withDb fun db => db.saveActivity named)
  | .defer effect =>
      (.ok .nothing, { t with store := some (match s.txn with
        | none => { s with ran := s.ran ++ [effect] }
        | some x => { s with txn := some { x with effects := x.effects ++ [effect] } }) })

def run : Op → Result
  | .setTitle request title => t.setTitle request title
  | .admitRequest request admissionState bootId now =>
      (.ok .nothing, t.admitRequest request admissionState bootId now)
  | .forgetWorkflow request allowActive => t.forgetWorkflow request allowActive
  | .confirmAdmission request bootId now => t.confirmAdmission request bootId now
  | .reopen request => t.reopen request
  | .bindSubagent request agent generation now => t.bindSubagent request agent generation now
  | .recordSubagentEvent agent event generation request error now =>
      t.recordSubagentEvent agent event generation request error now
  | .recordFinal request item now => t.recordFinal request item now
  | .assertReadyForFinal request => t.assertReadyForFinal request
  | .failSupervisor request phase error now => t.failSupervisor request phase error now
  | .abandonStranded reason now => t.abandonStranded reason now
  | .store op =>
      match t.store with
      | none => (.error .outsideTransaction, t)
      | some s => t.runStore s op

def begin : Tracker :=
  { t with store := t.store.map fun s => { s with txn := some { saved := s.db } } }

-- The row of a request with a rollback point, written when the workflow differs from it.
def saveRow (rows : Dict RequestId Row) (e : RequestId × Option WorkflowState) :
    Dict RequestId Row :=
  match t.workflows.get? e.1 with
  | none => rows
  | some w => if e.2 = some w then rows else rows.set w.requestId w.asdict

-- The end of a transaction that commits, with its deferred effects.
def commit : Tracker :=
  match t.store with
  | none => t
  | some s =>
      match s.txn with
      | none => t
      | some x =>
          { t with store := some {
              db := { s.db with workflows := x.before.entries.foldl t.saveRow s.db.workflows }
              ran := s.ran ++ x.effects } }.prune

-- `restore_projection`, one rollback point at a time.
def restorePoint (workflows : Dict RequestId WorkflowState)
    (e : RequestId × Option WorkflowState) : Dict RequestId WorkflowState :=
  match e.2 with
  | none => workflows.erase e.1
  | some previous => workflows.set e.1 previous

def rollback : Tracker :=
  match t.store with
  | none => t
  | some s =>
      match s.txn with
      | none => t
      | some x =>
          let restored := x.before.entries.foldl restorePoint t.workflows
          { t with
            workflows := restored
            owners := ownersOf restored
            store := some { s with db := x.saved, txn := none } }

end Tracker

def Op.opens (t : Tracker) : Op → Bool
  | .admitRequest request .. | .confirmAdmission request .. | .reopen request =>
      decide (request ∉ t.tombstones)
  | .assertReadyForFinal _ | .store (.checkpoint ..) | .store (.defer _)
  | .store (.finishCommand _ none _ _) => false
  | .store (.saveChat item _) => !item.id.all (· = "")
  | .store (.saveSubagentSnapshots items) => items.any fun e => decide (e.1 ≠ "")
  | .store (.saveActivity rows) => rows.any fun e => decide (e.1 ≠ "" ∧ e.2.requestId ≠ "")
  | _ => true

def Op.onStore : Op → Bool
  | .store _ => true
  | _ => false

namespace Tracker

variable (t : Tracker)

def closed : Bool := t.store.isSome && t.txn.isNone

-- A call of a method: inside an open transaction, without a store, or with a
-- transaction of its own, whose commit may fail.
def call (op : Op) (fault : Bool) : Result :=
  if t.closed && op.opens t then
    match t.begin.run op with
    | (.error e, t) => (.error e, t.rollback)
    | (.ok reply, t) => if fault then (.error .fault, t.rollback) else (.ok reply, t.commit)
  else t.run op

-- The queries at start-up leave some order open: `active` are the rows without
-- a terminal event, `recent` the newest ones by creation.
structure LoadOrder (db : Db) (limit : Nat) (active recent : List RequestId) : Prop where
  active : active.Perm (db.workflows.entries.filterMap fun e =>
    if e.2.terminalEvent.isNone then some e.1 else none)
  nodup : recent.Nodup
  fits : recent.length ≤ max 1 limit
  known : ∀ r ∈ recent, r ∈ db.workflows.keys ∧ r ∉ db.tombstones
  sorted : recent.Pairwise fun r q => ∀ row ∈ db.workflows.get? r, ∀ other ∈ db.workflows.get? q,
    other.createdAt ≤ row.createdAt
  newest : ∀ e ∈ db.workflows.entries, e.1 ∉ db.tombstones → e.1 ∉ recent →
    recent.length = max 1 limit ∧
      ∀ r ∈ recent, ∀ row ∈ db.workflows.get? r, e.2.createdAt ≤ row.createdAt

instance (db : Db) (limit : Nat) (active recent : List RequestId) :
    Decidable (LoadOrder db limit active recent) :=
  decidable_of_iff (_ ∧ _ ∧ _ ∧ _ ∧ _ ∧ _)
    ⟨fun ⟨h₁, h₂, h₃, h₄, h₅, h₆⟩ => ⟨h₁, h₂, h₃, h₄, h₅, h₆⟩,
      fun h => ⟨h.active, h.nodup, h.fits, h.known, h.sorted, h.newest⟩⟩

-- `restore_state`
def restoreState (db : Db) (order : List RequestId) : Dict RequestId WorkflowState :=
  (order.filterMap db.workflows.get?).foldl (fun workflows row =>
    workflows.set row.requestId (WorkflowState.decodeState row)) .empty

-- A new tracker and a new store over the database a stopped process left.
def restart (s : Store) (active recent : List RequestId) : Tracker :=
  let db := (s.txn.map Txn.saved).getD s.db
  let workflows := restoreState db (active ++ recent)
  { t with
    workflows
    owners := ownersOf workflows
    tombstones := db.tombstones
    store := some { db, ran := s.ran } : Tracker }.prune

end Tracker

inductive Action where
  | begin
  | call (op : Op) (fault : Bool)
  | commit
  | rollback
  | restart (active recent : List RequestId)

namespace Tracker

def undone (t : Tracker) : Action → Option Tracker
  | .rollback => some t
  | .call op fault =>
      if t.closed && op.opens t then
        match t.begin.run op with
        | (.error _, t) => some t
        | (.ok _, t) => if fault then some t else none
      else none
  | _ => none

def next (t : Tracker) : Action → Option Tracker
  | .begin => if t.closed then some t.begin else none
  | .call op fault => if op.onStore && t.store.isNone then none else some (t.call op fault).2
  | .commit => if t.txn.isSome then some t.commit else none
  | .rollback => if t.txn.isSome then some t.rollback else none
  | .restart active recent =>
      match t.store with
      | none => none
      | some s =>
          if LoadOrder ((s.txn.map Txn.saved).getD s.db) t.maxWorkflows active recent then
            some (t.restart s active recent)
          else none

end Tracker

-- A tracker of its own, or one attached to a store over an empty database.
def conductorMachine (maxWorkflows : Nat) (stored : Bool) : Machine Tracker Action where
  start := { maxWorkflows := max 1 maxWorkflows, store := if stored then some {} else none }
  next := Tracker.next

end GaHub.Conductor
