import GaHub.Lib.Dict
import GaHub.Lib.Machine
import GaHub.Lib.Text
import Mathlib.Algebra.Order.Group.Int

namespace GaHub.Scheduled

open Lib

abbrev TaskId := String
abbrev SessionId := String
abbrev ErrorText := String

-- Seconds since the epoch. They are only compared and shifted.
abbrev Time := Int

inductive Status where
  | pending
  | dispatching
  | sent
  | cancelled
  deriving DecidableEq

structure Attachment where
  path : String
  name : Option String := none
  deriving DecidableEq

structure ScheduledChat where
  id : TaskId
  sessionId : SessionId
  text : String
  images : List String
  scheduledFor : Time
  createdAt : Time
  attachments : List Attachment := []
  status : Status := .pending
  sentAt : Option Time := none
  cancelledAt : Option Time := none
  lastError : Option ErrorText := none
  retryAt : Option Time := none
  deriving DecidableEq

inductive Probe where
  | readable
  -- not absolute, or no file
  | missing
  | failing (error : ErrorText)
  deriving DecidableEq

def attachmentError (probe : String → Probe) (a : Attachment) : Option ErrorText :=
  if a.path = "" ∨ a.path.toList.any (fun c => c == '\r' || c == '\n' || c.toNat == 0) then some "无效路径"
  else match probe a.path with
    | .readable => none
    | .missing => some "文件不存在或不是绝对文件路径"
    | .failing error => some error

-- `attachment.get("name") or raw`
def Attachment.label (a : Attachment) : String :=
  match a.name with
  | none => a.path
  | some name => if name = "" then a.path else name

def validateAttachments (probe : String → Probe) (attachments : List Attachment) : Option ErrorText :=
  if attachments.length > 256 then some "一次最多添加256个附件"
  else attachments.findSome? fun a =>
    (attachmentError probe a).map fun error =>
      "附件不可用：" ++ a.label ++ "（" ++ error ++ "）。请重新定位或移除附件。"

structure Row where
  llmKey : Option String
  llmIndex : Option Int
  deriving DecidableEq

structure Request where
  text : String
  sessionId : SessionId
  images : List String
  source : String
  llmKey : Option String
  deriving DecidableEq

-- `coordinator().submit`: it admits a run and returns, raises without one, or raises after admitting one.
inductive Submission where
  | admitted
  | refused (error : ErrorText)
  | withdrawn (error : ErrorText)
  deriving DecidableEq

structure Backend where
  row : Except ErrorText Row
  preference : Except ErrorText (Option String)
  submission : Submission
  touch : Except ErrorText Unit

inductive KeyError where
  | unconfirmed
  | failed (error : ErrorText)
  deriving DecidableEq

def effectiveLlmKey (row : Row) (preference : Except ErrorText (Option String)) :
    Except KeyError (Option String) :=
  match row.llmKey.filter fun key => strip key ≠ "" with
  | some key => .ok (some (strip key))
  | none =>
      if row.llmIndex.isSome then .error .unconfirmed
      else match preference with
        | .ok key => .ok key
        | .error error => .error (.failed error)

-- A dispatch: the request that was admitted, if one was, and the exception that leaves the callback.
structure Dispatch where
  admitted : Option Request
  failure : Option ErrorText
  deriving DecidableEq

def dispatchScheduledChat (b : Backend) (task : ScheduledChat) : Dispatch :=
  match b.row with
  | .error error => ⟨none, some error⟩
  | .ok row =>
      match effectiveLlmKey row b.preference with
      -- logged and skipped
      | .error .unconfirmed => ⟨none, none⟩
      | .error (.failed error) => ⟨none, some error⟩
      | .ok llmKey =>
          let request : Request := ⟨task.text, task.sessionId, task.images, "scheduled", llmKey⟩
          match b.submission with
          | .refused error => ⟨none, some error⟩
          | .withdrawn error => ⟨some request, some error⟩
          | .admitted =>
              match b.touch with
              | .ok _ => ⟨some request, none⟩
              | .error error => ⟨some request, some error⟩

-- Where a call of `run_due_once` stands between its critical sections.
inductive Phase where
  | next
  | submitting (id : TaskId)
  | settling (id : TaskId) (failure : Option ErrorText)
  | returned
  | raised
  deriving DecidableEq

structure Call where
  due : List TaskId
  dispatched : Nat := 0
  phase : Phase := .next
  deriving DecidableEq

inductive Entry where
  -- the callback is called
  | submit (id : TaskId)
  -- the coordinator admits a run
  | admitted (id : TaskId) (request : Request)
  | cancelled (id : TaskId)
  deriving DecidableEq

structure State where
  tasks : Dict TaskId ScheduledChat := .empty
  file : List ScheduledChat := []
  calls : List Call := []
  log : List Entry := []

inductive Action where
  | create (id : TaskId) (sessionId : SessionId) (text : String) (images : List String) (scheduledFor : Time)
      (attachments : List Attachment) (now : Time) (probe : String → Probe) (saved : Bool)
  | cancel (sessionId : SessionId) (id : TaskId) (now : Time) (saved : Bool)
  -- the sections of `run_due_once`
  | start (now : Time)
  | take (call : Nat) (saved : Bool)
  | submit (call : Nat) (probe : String → Probe) (backend : Backend)
  | settle (call : Nat) (now : Time) (saved : Bool)

namespace State

variable (s : State)

-- `_save_locked`; when it raises, the old file stays.
def saveLocked (saved : Bool) : State :=
  if saved then { s with file := s.tasks.values } else s

def setTask (id : TaskId) (task : ScheduledChat) : State := { s with tasks := s.tasks.set id task }

def setCall (i : Nat) (c : Call) : State := { s with calls := s.calls.set i c }

def create (id : TaskId) (sessionId : SessionId) (text : String) (images : List String) (scheduledFor : Time)
    (attachments : List Attachment) (now : Time) (probe : String → Probe) (saved : Bool) : State :=
  if scheduledFor ≤ now ∨ (validateAttachments probe attachments).isSome then s
  else
    (s.setTask id { id, sessionId, text, images, scheduledFor, createdAt := now, attachments }).saveLocked saved

def cancel (sessionId : SessionId) (id : TaskId) (now : Time) (saved : Bool) : State :=
  match s.tasks.get? id with
  | none => s
  | some task =>
      if task.sessionId = sessionId ∧ task.status = .pending then
        let withdrawn := s.setTask id { task with status := .cancelled, cancelledAt := some now, retryAt := none }
        { withdrawn with log := s.log ++ [Entry.cancelled id] }.saveLocked saved
      else s

-- `retry_at or scheduled_for`: zero is no retry time.
def dueTime (task : ScheduledChat) : Time :=
  match task.retryAt with
  | none => task.scheduledFor
  | some at' => if at' = 0 then task.scheduledFor else at'

def start (now : Time) : State :=
  let due := (s.tasks.values.filter fun task => decide (task.status = .pending ∧ dueTime task ≤ now)).map
    ScheduledChat.id
  { s with calls := s.calls ++ [{ due }] }

def take (i : Nat) (c : Call) (saved : Bool) : State :=
  match c.due with
  | [] => s.setCall i { c with phase := .returned }
  | id :: rest =>
      match s.tasks.get? id with
      | none => s.setCall i { c with due := rest }
      | some task =>
          if task.status = .pending then
            ((s.setTask id { task with status := .dispatching }).saveLocked saved).setCall i
              { c with due := rest, phase := if saved then .submitting id else .raised }
          else s.setCall i { c with due := rest }

def submit (i : Nat) (c : Call) (id : TaskId) (task : ScheduledChat) (probe : String → Probe) (b : Backend) : State :=
  match validateAttachments probe task.attachments with
  | some error => s.setCall i { c with phase := .settling id (some error) }
  | none =>
      let d := dispatchScheduledChat b task
      { s.setCall i { c with phase := .settling id d.failure } with
        log := s.log ++ .submit id :: d.admitted.toList.map (.admitted id) }

def afterFailure (retrySeconds now : Time) (error : ErrorText) (task : ScheduledChat) : ScheduledChat :=
  { task with
    status := .pending
    lastError := some (String.ofList (error.toList.take 500))
    retryAt := some (now + retrySeconds) }

def afterSuccess (now : Time) (task : ScheduledChat) : ScheduledChat :=
  { task with status := .sent, sentAt := some now, retryAt := none, lastError := none }

def settle (retrySeconds : Time) (i : Nat) (c : Call) (id : TaskId) (failure : Option ErrorText) (now : Time)
    (saved : Bool) : State :=
  match s.tasks.get? id with
  | none => s.setCall i { c with phase := .next }
  | some task =>
      if task.status = .dispatching then
        match failure with
        | some error =>
            ((s.setTask id (afterFailure retrySeconds now error task)).saveLocked saved).setCall i
              { c with phase := if saved then .next else .raised }
        | none =>
            ((s.setTask id (afterSuccess now task)).saveLocked saved).setCall i
              { c with
                phase := if saved then .next else .raised
                dispatched := if saved then c.dispatched + 1 else c.dispatched }
      else s.setCall i { c with phase := .next }

end State

-- `create` draws a fresh id. The sections of a call come one after the other; other calls and requests run between them.
def State.next (retrySeconds : Time) (s : State) : Action → Option State
  | .create id sessionId text images scheduledFor attachments now probe saved =>
      if id ∈ s.tasks.keys then none
      else some (s.create id sessionId text images scheduledFor attachments now probe saved)
  | .cancel sessionId id now saved => some (s.cancel sessionId id now saved)
  | .start now => some (s.start now)
  | .take i saved =>
      s.calls[i]?.bind fun c =>
        match c.phase with
        | .next => some (s.take i c saved)
        | _ => none
  | .submit i probe b =>
      s.calls[i]?.bind fun c =>
        match c.phase with
        | .submitting id => (s.tasks.get? id).map fun task => s.submit i c id task probe b
        | _ => none
  | .settle i now saved =>
      s.calls[i]?.bind fun c =>
        match c.phase with
        | .settling id failure => some (s.settle retrySeconds i c id failure now saved)
        | _ => none

-- A row of the state file as `_load` takes it.
def recovered (retrySeconds now : Time) (task : ScheduledChat) : ScheduledChat :=
  if task.status = .dispatching then
    { task with status := .pending, retryAt := some (now + retrySeconds), lastError := some "服务重启后重新调度" }
  else task

-- Rows up to the first one that is no task; what was loaded before it stays.
def loadRows (retrySeconds now : Time) : Dict TaskId ScheduledChat → List (Option ScheduledChat) → Dict TaskId ScheduledChat
  | tasks, some row :: rows => loadRows retrySeconds now (tasks.set row.id (recovered retrySeconds now row)) rows
  | tasks, _ => tasks

-- `_load`. An absent or unreadable file has no rows.
def load (retrySeconds now : Time) (rows : List (Option ScheduledChat)) (saved : Bool) : State :=
  let s : State := { tasks := loadRows retrySeconds now .empty rows, file := rows.reduceOption }
  if rows.all Option.isSome ∧ rows.reduceOption.any fun row => row.status = .dispatching then s.saveLocked saved else s

def machine (retrySeconds now : Time) (rows : List (Option ScheduledChat)) (saved : Bool) : Machine State Action where
  start := load retrySeconds now rows saved
  next := State.next retrySeconds

end GaHub.Scheduled
