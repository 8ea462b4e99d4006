import GaHub.Lib.Dict
import GaHub.Lib.Machine
import Mathlib.Tactic.Common

namespace GaHub.Schedules

open Lib

inductive ScheduleType where
  | idle
  | cron
  | interval
  deriving DecidableEq

inductive Trigger where
  | cron (expr : String)
  | interval (minutes : Int)
  deriving DecidableEq

-- The triggers that the scheduler library can build.
structure Triggers where
  fromCrontab : String → Bool
  ofMinutes : Int → Bool

def Triggers.builds (t : Triggers) : Trigger → Bool
  | .cron expr => t.fromCrontab expr
  | .interval minutes => t.ofMinutes minutes

-- The naming, the rows and the hooks that a domain supplies: `σ` is its `schedule_cls`, `π` the
-- payload of its route. `row` is what `upsert` makes of the row that is there, the payload and the
-- id, `fired` the bookkeeping of an admitted fire, and `commitsCrash` whether `_on_watch_crash`
-- records the run.
structure SchedulerDomain (σ π : Type) where
  jobPrefix : String
  id : σ → String
  type : σ → ScheduleType
  enabled : σ → Bool
  cron : σ → String
  intervalMinutes : σ → Int
  payloadId : π → Option String
  row : Option σ → π → String → σ
  fired : σ → Nat → σ
  seedDefaults : Option σ
  commitsCrash : Bool
  id_row : ∀ e p sid, id (row e p sid) = sid
  id_fired : ∀ s now, id (fired s now) = id s
  type_fired : ∀ s now, type (fired s now) = type s
  enabled_fired : ∀ s now, enabled (fired s now) = enabled s
  cron_fired : ∀ s now, cron (fired s now) = cron s
  intervalMinutes_fired : ∀ s now, intervalMinutes (fired s now) = intervalMinutes s
  seed_disabled : ∀ s, seedDefaults = some s → enabled s = false

structure Schedule where
  id : String
  type : ScheduleType
  enabled : Bool
  prompt : String
  idleMinutes : Int
  cron : String
  intervalMinutes : Int
  lastFiredAt : Nat
  fireCount : Nat
  name : String
  deriving DecidableEq

structure ScheduleUpsert where
  id : Option String := none
  type : ScheduleType
  name : String := ""
  enabled : Bool := true
  prompt : Option String := none
  idleMinutes : Option Int := none
  cron : Option String := none
  intervalMinutes : Option Int := none

def DEFAULT_PROMPT : String :=
  "[AUTO]🤖 用户已经离开超过约定时间，作为自主智能体，请阅读自动化sop，执行自动任务。"

def autonomousScheduler : SchedulerDomain Schedule ScheduleUpsert where
  jobPrefix := "auto_"
  id := Schedule.id
  type := Schedule.type
  enabled := Schedule.enabled
  cron := Schedule.cron
  intervalMinutes := Schedule.intervalMinutes
  payloadId := ScheduleUpsert.id
  row existing p sid :=
    { id := sid
      type := p.type
      enabled := p.enabled
      prompt := p.prompt.getD (existing.elim DEFAULT_PROMPT Schedule.prompt)
      idleMinutes := p.idleMinutes.getD (existing.elim 30 Schedule.idleMinutes)
      cron := p.cron.getD (existing.elim "" Schedule.cron)
      intervalMinutes := p.intervalMinutes.getD (existing.elim 60 Schedule.intervalMinutes)
      lastFiredAt := existing.elim 0 Schedule.lastFiredAt
      fireCount := existing.elim 0 Schedule.fireCount
      name := p.name }
  fired s now := { s with lastFiredAt := now, fireCount := s.fireCount + 1 }
  seedDefaults := some
    { id := "default_idle_30m", type := .idle, enabled := false, prompt := DEFAULT_PROMPT, idleMinutes := 30, cron := "",
      intervalMinutes := 60, lastFiredAt := 0, fireCount := 0, name := "离线30分钟自主探索" }
  commitsCrash := false
  id_row _ _ _ := rfl
  id_fired _ _ := rfl
  type_fired _ _ := rfl
  enabled_fired _ _ := rfl
  cron_fired _ _ := rfl
  intervalMinutes_fired _ _ := rfl
  seed_disabled s hs := by
    cases hs
    rfl

structure TaskSchedule where
  id : String
  type : ScheduleType
  enabled : Bool
  prompt : String
  cron : String
  intervalMinutes : Int
  notifyEmail : Bool
  emailTo : String
  emailSubject : String
  lastFiredAt : Nat
  fireCount : Nat
  name : String
  deriving DecidableEq

structure TaskScheduleUpsert where
  id : Option String := none
  type : ScheduleType := .cron
  name : String := ""
  enabled : Bool := true
  prompt : String := ""
  cron : Option String := none
  intervalMinutes : Option Int := none
  notifyEmail : Bool := false
  emailTo : String := ""
  emailSubject : String := ""

def DEFAULT_CRON : String := "0 8 * * *"

def DEFAULT_SUBJECT : String := "GenericAgent 定时任务结果: \x7bname\x7d"

-- What `_apply_upsert_defaults` does to one field: a missing or empty text gets the default.
def backfill (text : Option String) (default : String) : String :=
  match text with
  | none => default
  | some text => if text == "" then default else text

def taskScheduler : SchedulerDomain TaskSchedule TaskScheduleUpsert where
  jobPrefix := "task_"
  id := TaskSchedule.id
  type := TaskSchedule.type
  enabled := TaskSchedule.enabled
  cron := TaskSchedule.cron
  intervalMinutes := TaskSchedule.intervalMinutes
  payloadId := TaskScheduleUpsert.id
  row existing p sid :=
    { id := sid
      type := p.type
      enabled := p.enabled
      prompt := p.prompt
      cron := backfill (p.cron.or (existing.map TaskSchedule.cron)) DEFAULT_CRON
      intervalMinutes := p.intervalMinutes.getD (existing.elim 60 TaskSchedule.intervalMinutes)
      notifyEmail := p.notifyEmail
      emailTo := p.emailTo
      emailSubject := backfill (some p.emailSubject) DEFAULT_SUBJECT
      lastFiredAt := existing.elim 0 TaskSchedule.lastFiredAt
      fireCount := existing.elim 0 TaskSchedule.fireCount
      name := p.name }
  fired s now := { s with lastFiredAt := now, fireCount := s.fireCount + 1 }
  seedDefaults := none
  commitsCrash := true
  id_row _ _ _ := rfl
  id_fired _ _ := rfl
  type_fired _ _ := rfl
  enabled_fired _ _ := rfl
  cron_fired _ _ := rfl
  intervalMinutes_fired _ _ := rfl
  seed_disabled s hs := by cases hs

inductive Outcome where
  | returned
  | raised
  deriving DecidableEq

-- An instance of the domain. `admitted` are the runs whose submit was admitted, `watchers` those that
-- have a watcher alive, `recorded` those in the run log, `stopped` those whose watcher left because
-- the stop event was set; `running` says that `start` has returned and no shutdown came since.
structure Service (σ : Type) where
  schedules : Dict String σ := .empty
  stopEvent : Bool := false
  accepting : Bool := true
  running : Bool := false
  admitted : List String := []
  watchers : List String := []
  recorded : List String := []
  stopped : List String := []
  deriving DecidableEq

-- The file of the domain, the jobs of the process by their ids, and the instance where there is one.
structure State (σ : Type) where
  file : Option (List σ) := none
  jobs : Dict String Trigger := .empty
  service : Option (Service σ) := none
  deriving DecidableEq

-- What `channel.submit` does; `failed` stands for every other exception up to it.
inductive Submit where
  | admitted
  | busy
  | failed
  deriving DecidableEq

-- How a watcher ends once it has not been told to stop: its run was written to the run log, its
-- finalization crashed, or the run log could not be written.
inductive Ending where
  | committed
  | crashed
  | unwritten
  deriving DecidableEq

inductive Call (π : Type) where
  | load (persistOk : Bool)
  | start (addOk : String → Bool) (vetoed : Bool)
  | shutdown (admissionStopped ownsSched : Bool)
  | upsert (payload : π) (fresh : String) (persistOk addOk : Bool)
  | delete (sid : String) (persistOk : Bool)
  | fire (sid : String) (now : Nat) (submit : Submit) (persistOk : Bool) (run : String)
  | watch (run : String) (ending : Ending)

namespace SchedulerDomain

variable {σ π : Type} (d : SchedulerDomain σ π) (t : Triggers)

def jobId (sid : String) : String := d.jobPrefix ++ sid

def loadRows (rows : List σ) : Dict String σ := rows.foldl (fun schedules s => schedules.set (d.id s) s) .empty

-- The constructor runs in a new process, whose runtime has no jobs; where the seed cannot be
-- persisted it raises and there is no instance.
def load (s : State σ) (persistOk : Bool) : State σ × Outcome :=
  match s.file with
  | some rows => ({ file := some rows, service := some { schedules := d.loadRows rows } }, .returned)
  | none =>
    match d.seedDefaults with
    | none => ({ service := some {} }, .returned)
    | some seed =>
      let schedules := d.loadRows [seed]
      if persistOk then ({ file := some schedules.values, service := some { schedules } }, .returned)
      else ({}, .raised)

def installJob (jobs : Dict String Trigger) (s : σ) (addOk : Bool) : Dict String Trigger × Outcome :=
  let jid := d.jobId (d.id s)
  let jobs := jobs.erase jid
  if !d.enabled s then (jobs, .returned)
  else match d.type s with
    | .cron =>
      if !t.fromCrontab (d.cron s) then (jobs, .returned)
      else if addOk then (jobs.set jid (.cron (d.cron s)), .returned)
      else (jobs, .raised)
    | .interval =>
      let minutes := max 1 (d.intervalMinutes s)
      if t.ofMinutes minutes && addOk then (jobs.set jid (.interval minutes), .returned)
      else (jobs, .raised)
    | .idle => (jobs, .returned)

def installAll (addOk : String → Bool) : Dict String Trigger → List σ → Dict String Trigger × Outcome
  | jobs, [] => (jobs, .returned)
  | jobs, s :: rest =>
    match d.installJob t jobs s (addOk (d.id s)) with
    | (jobs, .returned) => installAll addOk jobs rest
    | (jobs, .raised) => (jobs, .raised)

def start (s : State σ) (v : Service σ) (addOk : String → Bool) (vetoed : Bool) : State σ × Outcome :=
  if !v.accepting && (vetoed || !v.watchers.isEmpty) then (s, .raised)
  else
    let v := if v.accepting then v else { v with stopEvent := false, accepting := true }
    let installed := d.installAll t addOk s.jobs v.schedules.values
    ({ s with jobs := installed.1, service := some { v with running := installed.2 == .returned } }, installed.2)

-- A domain that owns its runtime shuts it down, which drops the jobs.
def shutdown (s : State σ) (v : Service σ) (admissionStopped ownsSched : Bool) : State σ × Outcome :=
  ({ s with
      jobs := if ownsSched then .empty else s.jobs
      service := some { v with
        stopEvent := true
        accepting := v.accepting && !admissionStopped
        running := false } }, .returned)

def upsertId (p : π) (fresh : String) : String :=
  match d.payloadId p with
  | none => fresh
  | some sid => if sid == "" then fresh else sid

def upsertRow (v : Service σ) (p : π) (fresh : String) : σ :=
  d.row (v.schedules.get? (d.upsertId p fresh)) p (d.upsertId p fresh)

-- The validation before the row is stored, which is of cron expressions alone.
def rejected (s : σ) : Bool := d.enabled s && d.type s == .cron && !t.fromCrontab (d.cron s)

def upsert (s : State σ) (v : Service σ) (p : π) (fresh : String) (persistOk addOk : Bool) : State σ × Outcome :=
  let sch := d.upsertRow v p fresh
  if d.rejected t sch then (s, .raised)
  else
    let v := { v with schedules := v.schedules.set (d.upsertId p fresh) sch }
    if !persistOk then ({ s with service := some v }, .raised)
    else
      let installed := d.installJob t s.jobs sch addOk
      ({ file := some v.schedules.values, jobs := installed.1, service := some v }, installed.2)

def delete (s : State σ) (v : Service σ) (sid : String) (persistOk : Bool) : State σ × Outcome :=
  if sid ∉ v.schedules.keys then (s, .returned)
  else
    let jobs := s.jobs.erase (d.jobId sid)
    let v := { v with schedules := v.schedules.erase sid }
    if persistOk then ({ file := some v.schedules.values, jobs, service := some v }, .returned)
    else ({ s with jobs, service := some v }, .raised)

def fire (s : State σ) (v : Service σ) (sid : String) (now : Nat) (submit : Submit) (persistOk : Bool) (run : String) :
    State σ × Outcome :=
  if v.stopEvent then (s, .returned)
  else match v.schedules.get? sid with
    | none => (s, .returned)
    | some row =>
      match submit with
      | .busy => (s, .returned)
      | .failed => (s, .raised)
      | .admitted =>
        let v := { v with schedules := v.schedules.set sid (d.fired row now), admitted := v.admitted ++ [run] }
        if !persistOk then ({ s with service := some v }, .raised)
        else
          let watchers := if v.accepting then v.watchers ++ [run] else v.watchers
          ({ s with file := some v.schedules.values, service := some { v with watchers } }, .returned)

def watch (s : State σ) (v : Service σ) (run : String) (ending : Ending) : State σ × Outcome :=
  let v := { v with watchers := v.watchers.erase run }
  if v.stopEvent then ({ s with service := some { v with stopped := v.stopped ++ [run] } }, .returned)
  else if ending == .committed || (ending == .crashed && d.commitsCrash) then
    ({ s with service := some { v with recorded := v.recorded ++ [run] } }, .returned)
  else ({ s with service := some v }, .returned)

def call (s : State σ) (c : Call π) : Option (State σ × Outcome) :=
  match c with
  | .load persistOk => some (d.load s persistOk)
  | .start addOk vetoed => s.service.map fun v => d.start t s v addOk vetoed
  | .shutdown admissionStopped ownsSched => s.service.map fun v => shutdown s v admissionStopped ownsSched
  | .upsert p fresh persistOk addOk => s.service.map fun v => d.upsert t s v p fresh persistOk addOk
  | .delete sid persistOk => s.service.map fun v => d.delete s v sid persistOk
  | .fire sid now submit persistOk run => s.service.map fun v => d.fire s v sid now submit persistOk run
  | .watch run ending =>
    s.service.bind fun v => if run ∈ v.watchers then some (d.watch s v run ending) else none

def machine : Machine (State σ) (Call π) where
  start := {}
  next s c := (d.call t s c).map Prod.fst

end SchedulerDomain

end GaHub.Schedules
