import GaHub.Conductor.Recovery.Records

namespace GaHub.Conductor

open Lib

-- The keys of the timeline that come of the tracker; those of a record end in its number.
def Activity.derived (key : String) : Bool :=
  "wf:".toList.isPrefixOf key.toList &&
    (":workflow_completed".toList.isSuffixOf key.toList || ":workflow_failed".toList.isSuffixOf key.toList)

-- What a record reads of the memory of the process that applies it.
structure Memory where
  boot : Option String := none
  owner : Option RequestId := none
  held : Bool := false
  answered : Bool := false
  deriving DecidableEq

def Process.reads (p : Process) (record : Record) : Memory :=
  match record.kind, record.payload with
  | .requestAdmitted, some e => { boot := p.boot e }
  | .chat, some e =>
      let admits := e.item.any fun item => item.request.any fun request =>
        decide (item.final ∨ item.role = some "user") && !p.tracker.hasRequest request
      { boot := if admits then p.boot e else none }
  | .subagent _, some e =>
      -- a record that names its request does without the index
      let owner := if e.requestId.isNone then p.tracker.requestForSubagent (e.id.getD "") else none
      { boot := p.boot e, owner, held := owner.any fun o => (p.tracker.workflows.get? o).isSome }
  | .requestOutcome, some e =>
      { answered := decide (e.status = some "ok") && p.chatMessages.any fun item =>
          decide (item.role = some "conductor" ∧ item.requestId = e.requestId) }
  | _, _ => {}

structure Applied where
  record : Record
  setting : Setting
  bootId : Option String
  memory : Memory

-- A process that follows a journal, and the records it has applied.
structure Replay where
  process : Process
  history : List Applied := []

-- Syncs, effects and restarts; the rest of the service stands still.
def ProcessAction.replays : ProcessAction → Bool
  | .tracker _ | .defer _ => false
  | _ => true

inductive ReplayAction where
  | step (a : ProcessAction)
  -- the checkpoint at the end of `_catch_up`, whose commit may fail
  | caughtUp (epoch : Option String) (fault : Bool)

def Process.caughtUp (p : Process) (epoch : Option String) (fault : Bool) : Process :=
  let cursor := p.tracker.db.cursor
  match p.tracker.begin.run (.store (.checkpoint epoch cursor.seq cursor.bootId)) with
  | (.error _, t) => { p with tracker := t.rollback }
  | (.ok _, t) => { p with tracker := if fault then t.rollback else t.commit }

namespace Replay

variable (x : Replay)

def seq : Int := x.process.tracker.db.cursor.seq

def step (journal : Int → Record) (a : ProcessAction) : Option Replay :=
  if !a.replays then none
  else
    match a with
    | .record s record fault =>
        if record ≠ journal record.seq then none
        else
          (x.process.next a).map fun p =>
            match (x.process.attempt s record fault).1 with
            | .error _ => { x with process := p }
            | .ok () =>
                { process := p
                  history := x.history ++ [⟨record, s, x.process.bootId, x.process.reads record⟩] }
    | a => (x.process.next a).map fun p => { x with process := p }

def next (journal : Int → Record) : ReplayAction → Option Replay
  | .step a => x.step journal a
  | .caughtUp epoch fault =>
      if x.process.tracker.closed then some { x with process := x.process.caughtUp epoch fault } else none

end Replay

-- A step that keeps the rows of the records: the timeline has room, and a backfill brings nothing new of them.
def Replay.roomy (x : Replay) : ReplayAction → Bool
  | .step (.record ..) | .step (.effect ..) => decide (x.process.tracker.db.activity.size < 4000)
  | .step (.backfillActivity rows _) => decide (x.process.tracker.db.activity.size + rows.length ≤ 4000) &&
      rows.all fun e => Activity.derived e.1 || decide (x.process.tracker.db.activity.get? e.1 = some e.2)
  | _ => true

def replayMachine (maxWorkflows : Nat) (journal : Int → Record) : Machine Replay ReplayAction where
  start := { process := (recoveryMachine maxWorkflows).start }
  next x a := x.next journal a

structure Alike (t q : Tracker) : Prop where
  find : ∀ r, t.find r = q.find r
  tombstones : t.tombstones = q.tombstones
  rows : ∀ r, t.rows.get? r = q.rows.get? r
  commands : t.db.commands = q.db.commands
  timeline : ∀ key, Activity.derived key = false → t.db.activity.get? key = q.db.activity.get? key
  holdsOpen : t.HoldsOpen ∧ q.HoldsOpen
  txn : t.txn.isSome = true ∧ q.txn.isSome = true

section Alike

variable {t q : Tracker} {r : RequestId} {w : WorkflowState}

theorem Alike.hold (h : Alike t q) (r : RequestId) (w : WorkflowState) : Alike (t.hold r w) (q.hold r w) where
  find r' := by rw [hold_find, hold_find, h.find]
  tombstones := h.tombstones
  rows := h.rows
  commands := h.commands
  timeline := h.timeline
  holdsOpen := ⟨HoldsOpen.hold h.holdsOpen.1 r w, HoldsOpen.hold h.holdsOpen.2 r w⟩
  txn := h.txn

theorem Alike.touch (h : Alike t q) (r : RequestId) : Alike (t.touch r) (q.touch r) where
  find r' := by rw [touch_find, touch_find, h.find]
  tombstones := h.tombstones
  rows r' := by rw [Tracker.touch_rows, Tracker.touch_rows, h.rows]
  commands := by rw [Tracker.touch_db, Tracker.touch_db, h.commands]
  timeline key hkey := by rw [Tracker.touch_db, Tracker.touch_db, h.timeline key hkey]
  holdsOpen := ⟨HoldsOpen.same h.holdsOpen.1 rfl (t.touch_rows r), HoldsOpen.same h.holdsOpen.2 rfl (q.touch_rows r)⟩
  txn := by simpa using h.txn

theorem Alike.owned (h : Alike t q) (owners owners' : Dict AgentId RequestId) :
    Alike { t with owners } { q with owners := owners' } :=
  ⟨h.find, h.tombstones, h.rows, h.commands, h.timeline, h.holdsOpen, h.txn⟩

theorem Alike.held (h : Alike t q) (hfind : t.find r = some w) (hopen : w.terminalEvent = none) :
    t.workflows.get? r = some w ∧ q.workflows.get? r = some w := by
  have hone : ∀ {u : Tracker}, u.HoldsOpen → u.find r = some w → u.workflows.get? r = some w := by
    intro u hu hfound
    cases hheld : u.workflows.get? r with
    | some v =>
        rw [Tracker.find_of_held hheld] at hfound
        exact hfound
    | none =>
        cases hrow : u.rows.get? r with
        | none => cases (Tracker.find_eq_none.mpr ⟨hheld, hrow⟩).symm.trans hfound
        | some row =>
            cases (Tracker.find_of_row hheld hrow).symm.trans hfound
            obtain ⟨v, hv⟩ := hu r row hrow hopen
            cases hheld.symm.trans hv
  exact ⟨hone h.holdsOpen.1 hfind, hone h.holdsOpen.2 (h.find r ▸ hfind)⟩

theorem find_of_isSome {u : Tracker} (h : (u.workflows.get? r).isSome = true) : u.workflows.get? r = u.find r := by
  obtain ⟨w, hw⟩ := Option.isSome_iff_exists.mp h
  rw [hw, Tracker.find_of_held hw]

end Alike

def Alikes (x y : Result) : Prop := x.1 = y.1 ∧ Alike x.2 y.2

section Operations

variable {t q : Tracker} {r : RequestId} {now : Time}

theorem Alike.hasRequest (h : Alike t q) (r : RequestId) : t.hasRequest r = q.hasRequest r := by
  unfold Tracker.hasRequest
  rw [h.find]

theorem Alike.pruneTerminal (h : Alike t q) : Alike t.pruneTerminal q.pruneTerminal := by
  have hstore : ∀ {u : Tracker}, u.txn.isSome = true → u.pruneTerminal = u := by
    intro u hu
    unfold Tracker.pruneTerminal
    rw [if_pos (store_of_txn hu)]
  rw [hstore h.txn.1, hstore h.txn.2]
  exact h

theorem setTitle_alike (h : Alike t q) (r : RequestId) (title : String) :
    Alikes (t.setTitle r title) (q.setTitle r title) := by
  unfold Tracker.setTitle Tracker.require
  rw [h.find]
  cases q.find r with
  | none => exact ⟨rfl, h⟩
  | some w => exact ⟨rfl, ((h.hold r w).touch r).hold r _⟩

theorem admitRequest_alike (h : Alike t q) (r : RequestId) (admissionState : AdmissionState) (bootId : Option String)
    (now : Time) : Alike (t.admitRequest r admissionState bootId now) (q.admitRequest r admissionState bootId now) := by
  unfold Tracker.admitRequest
  rw [h.tombstones, h.find]
  split
  · exact h
  · cases q.find r with
    | none => exact ((h.touch r).hold r _).pruneTerminal
    | some w => exact ((h.hold r w).touch r).pruneTerminal

theorem confirmAdmission_alike (h : Alike t q) (r : RequestId) (bootId : Option String) (now : Time) :
    Alikes (t.confirmAdmission r bootId now) (q.confirmAdmission r bootId now) := by
  have hadmitted := admitRequest_alike h r .admitted bootId now
  unfold Tracker.confirmAdmission Tracker.require
  rw [h.tombstones]
  split
  · exact ⟨rfl, h⟩
  · dsimp only
    rw [hadmitted.find]
    cases (q.admitRequest r .admitted bootId now).find r with
    | none => exact ⟨rfl, hadmitted⟩
    | some w => exact ⟨rfl, ((hadmitted.hold r w).touch r).hold r _⟩

theorem recordFinal_alike (h : Alike t q) (r : RequestId) (item : Item) (now : Time) :
    Alikes (t.recordFinal r item now) (q.recordFinal r item now) := by
  unfold Tracker.recordFinal Tracker.require
  rw [h.find]
  cases q.find r with
  | none => exact ⟨rfl, h⟩
  | some w =>
      have hloaded := (h.hold r w).touch r
      simp only [Option.map_some]
      split
      · exact ⟨rfl, hloaded⟩
      · split
        · exact ⟨rfl, hloaded⟩
        · split
          · exact ⟨rfl, hloaded.hold r _⟩
          · exact ⟨rfl, hloaded.hold r _⟩

theorem failSupervisor_alike (h : Alike t q) (r : RequestId) (phase error : String) (now : Time) :
    Alikes (t.failSupervisor r phase error now) (q.failSupervisor r phase error now) := by
  have hclosed : ∀ {u : Tracker}, (∀ w, u.find r = some w → w.terminalEvent.isSome = true) →
      u.failSupervisor r phase error now = (.ok (.transition none), u) := by
    intro u hu
    unfold Tracker.failSupervisor
    cases hw : u.workflows.get? r with
    | none => rfl
    | some w => simp [hu w (Tracker.find_of_held hw)]
  by_cases hall : ∀ w, t.find r = some w → w.terminalEvent.isSome = true
  · rw [hclosed hall, hclosed (h.find r ▸ hall)]
    exact ⟨rfl, h⟩
  · simp only [not_forall] at hall
    obtain ⟨w, hfind, hopen⟩ := hall
    have hnone : w.terminalEvent = none := by simpa using hopen
    obtain ⟨ht, hq⟩ := h.held hfind hnone
    unfold Tracker.failSupervisor
    simp only [ht, hq, hnone, Option.isSome_none, Bool.false_eq_true, if_false]
    exact ⟨rfl, (h.touch r).hold r _⟩

theorem observe_alike (h : Alike t q) {owner : RequestId}
    (hheld : (t.workflows.get? owner).isSome = (q.workflows.get? owner).isSome) (agent : AgentId) (event : WorkerEvent)
    (generation : Option Int) (error : String) (now : Time) :
    Alikes (t.observe owner agent event generation error now) (q.observe owner agent event generation error now) := by
  have hsame : t.workflows.get? owner = q.workflows.get? owner := by
    cases hq : (q.workflows.get? owner).isSome with
    | true => rw [find_of_isSome (hheld.trans hq), find_of_isSome hq, h.find]
    | false =>
        rw [Option.isSome_eq_false_iff, Option.isNone_iff_eq_none] at hq
        rw [hq, Option.isSome_none] at hheld
        rw [hq]
        simpa using hheld
  unfold Tracker.observe
  rw [hsame]
  cases q.workflows.get? owner with
  | none => exact ⟨rfl, h⟩
  | some w =>
      dsimp only
      split
      · exact ⟨rfl, h.touch owner⟩
      · split
        · exact ⟨rfl, (h.touch owner).hold owner _⟩
        · exact ⟨rfl, (h.touch owner).hold owner _⟩

theorem recordSubagentEvent_alike (h : Alike t q) (agent : AgentId) (event : WorkerEvent) (generation : Option Int)
    (request : Option RequestId) (error : String) (now : Time)
    (hindex : request = none → t.requestForSubagent agent = q.requestForSubagent agent ∧
      ∀ o, q.requestForSubagent agent = some o → (t.workflows.get? o).isSome = (q.workflows.get? o).isSome)
    {reply reply' : Reply} (ht : (t.recordSubagentEvent agent event generation request error now).1 = .ok reply)
    (hq : (q.recordSubagentEvent agent event generation request error now).1 = .ok reply') :
    Alikes (t.recordSubagentEvent agent event generation request error now)
      (q.recordSubagentEvent agent event generation request error now) := by
  cases request with
  | none =>
      obtain ⟨howner, hheld⟩ := hindex rfl
      simp only [Tracker.recordSubagentEvent, howner]
      cases ho : q.requestForSubagent agent with
      | none => exact ⟨rfl, h⟩
      | some owner => exact observe_alike h (hheld owner ho) ..
  | some r =>
      have hpass : ∀ {u : Tracker} {w : WorkflowState} {reply : Reply}, u.find r = some w →
          (u.recordSubagentEvent agent event generation (some r) error now).1 = .ok reply →
          u.recordSubagentEvent agent event generation (some r) error now =
            if w.terminalEvent.isSome then (.ok (.event (some r) none), (u.hold r w).touch r)
            else { (u.hold r w).touch r with owners := u.owners.set agent r }.observe r agent event generation
              error now := by
        intro u w reply hfind hok
        simp only [Tracker.recordSubagentEvent, Tracker.require, hfind, Option.map_some] at hok ⊢
        split at hok
        · cases hok
        · rfl
      cases hfind : q.find r with
      | none =>
          simp only [Tracker.recordSubagentEvent, Tracker.require, h.find, hfind, Option.map_none]
          exact ⟨rfl, h⟩
      | some w =>
          rw [hpass ((h.find r).trans hfind) ht, hpass hfind hq]
          have hloaded := (h.hold r w).touch r
          split
          · exact ⟨rfl, hloaded⟩
          · refine observe_alike (hloaded.owned _ _) ?_ ..
            simp

end Operations

section Tables

variable {t q : Tracker} {db : Db}

theorem keepNewest_all {ν : Type} {cap : Nat} (notOlder : ν → ν → Bool) {table : Dict String ν}
    (hroom : table.size ≤ cap) (key : String) : (keepNewest cap notOlder table).get? key = table.get? key := by
  unfold keepNewest
  dsimp only
  rw [Dict.get?_filter]
  cases hget : table.get? key with
  | none => rfl
  | some v =>
      have hperm := List.perm_insertionSort (fun x y : String × ν => notOlder x.2 y.2 = true) table.entries.reverse
      have hall := List.take_of_length_le (i := cap)
        (l := table.entries.reverse.insertionSort fun x y => notOlder x.2 y.2 = true)
        (by simpa [Dict.size] using hroom)
      rw [hall, Option.filter_some, if_pos]
      refine decide_eq_true (List.mem_map.mpr ⟨(key, v), hperm.mem_iff.mpr ?_, rfl⟩)
      exact List.mem_reverse.mpr (Dict.mem_entries_iff.mpr hget)

theorem saveActivity_get? (hroom : db.activity.size < 4000) (e : String × Activity) (key : String) :
    (db.saveActivity [e]).activity.get? key = if key = e.1 then some e.2 else db.activity.get? key := by
  have hsize := Dict.size_set_le db.activity e.1 e.2
  simp only [Db.saveActivity, List.foldl_cons, List.foldl_nil]
  rw [keepNewest_all _ (by omega), Dict.get?_set]

theorem Alike.withDb (h : Alike t q) {f g : Db → Db} (ht : (f t.db).workflows = t.db.workflows)
    (hq : (g q.db).workflows = q.db.workflows) (hcommands : (f t.db).commands = (g q.db).commands)
    (htimeline : ∀ key, Activity.derived key = false → (f t.db).activity.get? key = (g q.db).activity.get? key) :
    Alike (t.withDb f) (q.withDb g) := by
  obtain ⟨s, _, hs, _⟩ := open_store h.txn.1
  obtain ⟨s', _, hs', _⟩ := open_store h.txn.2
  have hrows : (t.withDb f).rows = t.rows := by
    unfold Tracker.rows
    rw [withDb_db hs, ht]
  have hrows' : (q.withDb g).rows = q.rows := by
    unfold Tracker.rows
    rw [withDb_db hs', hq]
  refine ⟨fun r => ?_, h.tombstones, fun r => ?_, ?_, fun key hkey => ?_,
    ⟨HoldsOpen.same h.holdsOpen.1 rfl hrows, HoldsOpen.same h.holdsOpen.2 rfl hrows'⟩, ?_⟩
  · rw [@Tracker.find_congr t (t.withDb f) rfl hrows, @Tracker.find_congr q (q.withDb g) rfl hrows', h.find]
  · rw [hrows, hrows', h.rows]
  · rw [withDb_db hs, withDb_db hs', hcommands]
  · rw [withDb_db hs, withDb_db hs', htimeline key hkey]
  · rw [withDb_txn, withDb_txn]
    exact h.txn

theorem saveChat_alike (h : Alike t q) (item : ChatItem) (ts : Time) :
    Alikes (t.run (.store (.saveChat item ts))) (q.run (.store (.saveChat item ts))) := by
  obtain ⟨s, _, hs, _⟩ := open_store h.txn.1
  obtain ⟨s', _, hs', _⟩ := open_store h.txn.2
  simp only [Tracker.run, hs, hs', Tracker.runStore]
  cases item.id with
  | none => exact ⟨rfl, h⟩
  | some id =>
      refine ⟨rfl, ?_⟩
      dsimp only
      split
      · exact h
      · exact h.withDb rfl rfl h.commands h.timeline

theorem saveActivity_alike (h : Alike t q) (ht : t.db.activity.size < 4000) (hq : q.db.activity.size < 4000)
    (row : Option (String × Activity)) :
    Alikes (t.run (.store (.saveActivity row.toList))) (q.run (.store (.saveActivity row.toList))) := by
  obtain ⟨s, _, hs, _⟩ := open_store h.txn.1
  obtain ⟨s', _, hs', _⟩ := open_store h.txn.2
  simp only [Tracker.run, hs, hs', Tracker.runStore]
  refine ⟨rfl, ?_⟩
  cases row with
  | none => exact h
  | some e =>
      by_cases hnamed : e.1 ≠ "" ∧ e.2.requestId ≠ ""
      · have hkept : (some e).toList.filter (fun e => decide (e.1 ≠ "" ∧ e.2.requestId ≠ "")) = [e] := by simp [hnamed]
        simp only [hkept, List.isEmpty_cons, Bool.false_eq_true, if_false]
        refine h.withDb rfl rfl h.commands fun key hkey => ?_
        rw [saveActivity_get? ht, saveActivity_get? hq, h.timeline key hkey]
      · have hkept : (some e).toList.filter (fun e => decide (e.1 ≠ "" ∧ e.2.requestId ≠ "")) = [] := by simp [hnamed]
        simp only [hkept, List.isEmpty_nil, if_true]
        exact h

theorem putCommand_alike (h : Alike t q) (operation : OperationId) (payload : CommandPayload) (now : Time) :
    Alikes (t.run (.store (.putCommand operation payload now))) (q.run (.store (.putCommand operation payload now))) := by
  obtain ⟨s, _, hs, _⟩ := open_store h.txn.1
  obtain ⟨s', _, hs', _⟩ := open_store h.txn.2
  have hdb : s.db = t.db := by simp [Tracker.db, hs]
  have hdb' : s'.db = q.db := by simp [Tracker.db, hs']
  simp only [Tracker.run, hs, hs', Tracker.runStore, Db.putCommand, hdb, hdb', h.commands]
  cases q.db.commands.get? operation with
  | none =>
      refine ⟨rfl, ?_⟩
      dsimp only
      exact h.withDb rfl rfl rfl h.timeline
  | some existing =>
      dsimp only
      by_cases hsame : existing.fingerprint ≠ commandFingerprint payload
      · rw [if_pos hsame, if_pos hsame]
        exact ⟨rfl, h⟩
      · rw [if_neg hsame, if_neg hsame]
        refine ⟨rfl, ?_⟩
        dsimp only
        exact h.withDb rfl rfl h.commands h.timeline

end Tables

-- Two bodies that both come to their end leave their trackers alike.
structure Deferring.Agree (d d' : Deferring) : Prop where
  alike : ∀ effects effects', d.1 = .ok effects → d'.1 = .ok effects' → Alike d.2 d'.2

section Bodies

variable {t q : Tracker} {op : Op}

theorem Alike.agree (h : Alike t q) (effects effects' : List Effect) :
    Deferring.Agree (.ok effects, t) (.ok effects', q) := ⟨fun _ _ _ _ => h⟩

theorem agree_error (e : RecoveryError) (d : Deferring) : Deferring.Agree (.error e, t) d := by
  refine ⟨fun effects effects' h => ?_⟩
  cases h

theorem step_agree {rest rest' : Reply → Tracker → Deferring}
    (hop : ∀ reply reply', (t.run op).1 = .ok reply → (q.run op).1 = .ok reply' → Alikes (t.run op) (q.run op))
    (hrest : ∀ reply, Alike (t.run op).2 (q.run op).2 →
      Deferring.Agree (rest reply (t.run op).2) (rest' reply (q.run op).2)) :
    Deferring.Agree (t.step op rest) (q.step op rest') := by
  refine ⟨fun effects effects' ht hq => ?_⟩
  cases hrun : (t.run op).1 with
  | error e =>
      rw [step_error hrun] at ht
      cases ht
  | ok reply =>
      cases hrun' : (q.run op).1 with
      | error e =>
          rw [step_error hrun'] at hq
          cases hq
      | ok reply' =>
          obtain ⟨hsame, halike⟩ := hop reply reply' hrun hrun'
          cases hrun.symm.trans (hsame.trans hrun')
          rw [step_eq hrun] at ht ⊢
          rw [step_eq hrun'] at hq ⊢
          exact (hrest reply halike).alike effects effects' ht hq

theorem onRemoteChat_agree (h : Alike t q) (item : ChatItem) (now : Time) :
    Deferring.Agree (t.onRemoteChat item now) (q.onRemoteChat item now) := by
  have hsave : ∀ {u v : Tracker} {effects effects' : List Effect}, Alike u v →
      Deferring.Agree (u.step (.store (.saveChat (item.hub now) ((item.hub now).ts.getD now)))
          fun _ t => (.ok (effects ++ [.mirror (item.hub now)]), t))
        (v.step (.store (.saveChat (item.hub now) ((item.hub now).ts.getD now)))
          fun _ t => (.ok (effects' ++ [.mirror (item.hub now)]), t)) := fun hu =>
    step_agree (fun _ _ _ _ => saveChat_alike hu ..) fun _ hsaved => hsaved.agree _ _
  unfold Tracker.onRemoteChat Tracker.noteChat
  dsimp only
  split
  · exact hsave h
  · rw [h.hasRequest]
    split
    · exact hsave h
    · split
      · exact step_agree (fun _ _ _ _ => setTitle_alike h ..) fun _ htitled => hsave htitled
      · split
        · exact step_agree (fun _ _ _ _ => recordFinal_alike h ..) fun _ hfinal => hsave hfinal
        · exact hsave h

theorem applyChat_agree (h : Alike t q) (s : Setting) {boot boot' : Option String} (item : Option ChatItem)
    (hboot : ∀ i request, item = some i → i.request = some request → (i.final = true ∨ i.role = some "user") →
      q.hasRequest request = false → boot = boot') :
    Deferring.Agree (t.applyChat s boot item) (q.applyChat s boot' item) := by
  unfold Tracker.applyChat
  cases item with
  | none => exact h.agree _ _
  | some item =>
      cases hrequest : item.request with
      | none =>
          simp only [hrequest]
          exact onRemoteChat_agree h ..
      | some request =>
          simp only [hrequest, h.hasRequest]
          split
          · rename_i hnewcomer
            simp only [Bool.not_eq_true'] at hnewcomer
            cases hboot item request rfl hrequest hnewcomer.1 hnewcomer.2
            exact step_agree (fun _ _ _ _ => ⟨rfl, admitRequest_alike h ..⟩) fun _ hadmitted =>
              onRemoteChat_agree hadmitted ..
          · exact onRemoteChat_agree h ..

theorem applyOutcome_agree (h : Alike t q) (s : Setting) {chat chat' : List ChatItem} (e : JournalEvent)
    (hanswered : e.status = some "ok" →
      (chat.any fun item => decide (item.role = some "conductor" ∧ item.requestId = e.requestId)) =
        chat'.any fun item => decide (item.role = some "conductor" ∧ item.requestId = e.requestId)) :
    Deferring.Agree (t.applyOutcome s chat e) (q.applyOutcome s chat' e) := by
  have hfail : ∀ request phase error, Deferring.Agree
      (t.step (.failSupervisor request phase error s.now) fun reply t =>
        (.ok (Tracker.published (Tracker.transitionOf reply)), t))
      (q.step (.failSupervisor request phase error s.now) fun reply t =>
        (.ok (Tracker.published (Tracker.transitionOf reply)), t)) := fun request phase error =>
    step_agree (fun _ _ _ _ => failSupervisor_alike h ..) fun _ hfailed => hfailed.agree _ _
  unfold Tracker.applyOutcome
  cases hrequest : e.requestId with
  | none => exact h.agree _ _
  | some request =>
      simp only [hrequest] at hanswered ⊢
      split
      · exact h.agree _ _
      · split
        · rename_i hok
          unfold Tracker.failUnhandledRequest Tracker.snapshot
          rw [h.find, hanswered hok]
          cases q.find request with
          | none => exact h.agree _ _
          | some w =>
              simp only [Option.map_some]
              split
              · exact h.agree _ _
              · exact hfail ..
        · rw [h.hasRequest]
          split
          · exact hfail ..
          · exact h.agree _ _

theorem enqueueAutoAccept_agree (h : Alike t q) (s : Setting) (bootId : Option String) (sid : AgentId)
    (request : RequestId) (generation : Int) (effects effects' : List Effect) :
    Deferring.Agree (t.enqueueAutoAccept s bootId sid request generation effects)
      (q.enqueueAutoAccept s bootId sid request generation effects') := by
  unfold Tracker.enqueueAutoAccept
  rw [h.commands]
  dsimp only
  split
  · exact h.agree _ _
  · exact step_agree (fun _ _ _ _ => putCommand_alike h ..) fun _ hput => hput.agree _ _

theorem recordWorkerEvent_agree (h : Alike t q) (s : Setting) (bootId boot : Option String) (event : WorkerEvent)
    (e : JournalEvent) (hindex : e.requestId = none →
      t.requestForSubagent (e.id.getD "") = q.requestForSubagent (e.id.getD "") ∧
      ∀ o, q.requestForSubagent (e.id.getD "") = some o →
        (t.workflows.get? o).isSome = (q.workflows.get? o).isSome) :
    Deferring.Agree (t.recordWorkerEvent s bootId boot event e) (q.recordWorkerEvent s bootId boot event e) := by
  refine step_agree (fun reply reply' ht hq => recordSubagentEvent_alike h _ _ _ _ _ _ hindex ht hq)
    fun reply hnoted => ?_
  dsimp only
  split
  · split
    · split
      · exact agree_error ..
      · exact enqueueAutoAccept_agree hnoted ..
    · exact hnoted.agree _ _
  · exact hnoted.agree _ _

theorem applyWorkerEvent_agree (h : Alike t q) (s : Setting) (bootId boot : Option String) (event : WorkerEvent)
    (e : JournalEvent) (hindex : e.requestId = none →
      t.requestForSubagent (e.id.getD "") = q.requestForSubagent (e.id.getD "") ∧
      ∀ o, q.requestForSubagent (e.id.getD "") = some o →
        (t.workflows.get? o).isSome = (q.workflows.get? o).isSome) :
    Deferring.Agree (t.applyWorkerEvent s bootId boot event e) (q.applyWorkerEvent s bootId boot event e) := by
  unfold Tracker.applyWorkerEvent
  cases hrequest : e.requestId with
  | none => exact recordWorkerEvent_agree h s bootId boot event e hindex
  | some request =>
      dsimp only
      split
      · exact recordWorkerEvent_agree h s bootId boot event e hindex
      · refine step_agree (fun _ _ _ _ => confirmAdmission_alike h ..) fun _ hconfirmed => ?_
        refine recordWorkerEvent_agree hconfirmed s bootId boot event e fun hnone => ?_
        cases hrequest.symm.trans hnone

end Bodies

section Records

variable {p p' : Process} {s : Setting} {record : Record}

theorem checkpoint_run {u : Tracker} {epoch : Option String} {seq : Int} {bootId : Option String} {reply : Reply}
    (hopen : u.txn.isSome = true) (hok : (u.run (.store (.checkpoint epoch seq bootId))).1 = .ok reply) :
    (u.run (.store (.checkpoint epoch seq bootId))).2 =
      u.withDb fun db => { db with consumerState := some { seq, epoch, bootId } } := by
  obtain ⟨s, x, hs, hx⟩ := open_store hopen
  simp only [Tracker.run, hs, Tracker.runStore, hx, Option.isNone_some, Bool.false_eq_true, if_false,
    Db.checkpoint] at hok ⊢
  split at hok
  · cases hok
  · rename_i db hcheck
    split at hcheck
    · cases hcheck
    · split at hcheck <;> cases hcheck
      simp only [Tracker.withDb, hs, Option.map_some]

theorem checkpoint_alike {t q : Tracker} (h : Alike t q) {epoch : Option String} {seq : Int}
    {bootId bootId' : Option String} {reply reply' : Reply}
    (ht : (t.run (.store (.checkpoint epoch seq bootId))).1 = .ok reply)
    (hq : (q.run (.store (.checkpoint epoch seq bootId'))).1 = .ok reply') :
    Alike (t.run (.store (.checkpoint epoch seq bootId))).2 (q.run (.store (.checkpoint epoch seq bootId'))).2 := by
  rw [checkpoint_run h.txn.1 ht, checkpoint_run h.txn.2 hq]
  exact h.withDb rfl rfl h.commands h.timeline

theorem saved_index {t : Tracker} (hclosed : t.closed = true) (rows : List (String × Activity)) :
    (t.begin.run (.store (.saveActivity rows))).2.workflows = t.workflows ∧
      (∀ a, (t.begin.run (.store (.saveActivity rows))).2.requestForSubagent a = t.requestForSubagent a) ∧
      ∀ r, (t.begin.run (.store (.saveActivity rows))).2.hasRequest r = t.hasRequest r := by
  obtain ⟨s, x, hs, hx⟩ := open_store (begin_txn hclosed)
  have haside : Aside t.begin (t.begin.run (.store (.saveActivity rows))).2 := by
    simp only [Tracker.run, hs]
    exact runStore_aside hs (by simp [hx])
  have hrows : (t.begin.run (.store (.saveActivity rows))).2.rows = t.rows :=
    haside.rows.trans (congrArg Db.workflows (like_begin t).db)
  have hworkflows : (t.begin.run (.store (.saveActivity rows))).2.db.workflows = t.db.workflows := hrows
  refine ⟨haside.workflows, fun a => ?_, fun r => ?_⟩
  · unfold Tracker.requestForSubagent Db.workerOwner
    rw [haside.owners, hworkflows]
    rfl
  · unfold Tracker.hasRequest
    rw [@Tracker.find_congr t _ haside.workflows hrows]

theorem applyRecord_agree (h : Alike p.tracker.begin p'.tracker.begin) (hclosed : p.tracker.closed = true)
    (hclosed' : p'.tracker.closed = true) (hp : p.tracker.db.activity.size < 4000)
    (hp' : p'.tracker.db.activity.size < 4000) (hboot : p.bootId = p'.bootId) (hreads : p.reads record = p'.reads record) :
    Deferring.Agree (p.applyRecord p.tracker.begin s record) (p'.applyRecord p'.tracker.begin s record) := by
  unfold Process.applyRecord
  split
  · exact h.agree _ _
  · cases hpayload : record.payload with
    | none => exact agree_error ..
    | some e =>
        dsimp only
        split
        · exact agree_error ..
        · have hroom : ∀ {p : Process}, p.tracker.db.activity.size < 4000 → p.tracker.begin.db.activity.size < 4000 := by
            intro p hp
            rw [(like_begin p.tracker).db]
            exact hp
          refine step_agree (fun _ _ _ _ => saveActivity_alike h (hroom hp) (hroom hp') _) fun _ hsaved => ?_
          simp only [Process.reads, hpayload] at hreads
          cases hkind : record.kind with
          | engineStarted | observation => exact hsaved.agree _ _
          | requestAdmitted =>
              simp only [hkind, Memory.mk.injEq] at hreads
              dsimp only
              split
              · exact agree_error ..
              · split
                · exact agree_error ..
                · rw [hreads.1]
                  exact step_agree (fun _ _ _ _ => confirmAdmission_alike hsaved ..) fun _ hdone => hdone.agree _ _
          | chat =>
              refine applyChat_agree hsaved s e.item fun item request hitem hrequest hadmits hnone => ?_
              have hnone' : p'.tracker.hasRequest request = false := by
                rw [← hnone, (saved_index hclosed' _).2.2]
              have hsame : p.tracker.hasRequest request = false := by
                rw [← hnone, ← hsaved.hasRequest, (saved_index hclosed _).2.2]
              simp only [hkind, hitem, hrequest, Option.any_some, hnone', hsame, hadmits, decide_true, Bool.not_false,
                Bool.and_self, if_true, Memory.mk.injEq, and_true] at hreads
              exact hreads
          | subagent event =>
              simp only [hkind, Memory.mk.injEq] at hreads
              obtain ⟨hsame, howner, hheld, _⟩ := hreads
              dsimp only
              rw [hsame, hboot]
              refine applyWorkerEvent_agree hsaved s _ _ event e fun hnone => ?_
              simp only [hnone, Option.isNone_none, if_true] at howner hheld
              rw [(saved_index hclosed _).2.1, (saved_index hclosed' _).2.1, (saved_index hclosed _).1,
                (saved_index hclosed' _).1]
              refine ⟨howner, fun o ho => ?_⟩
              rw [howner, ho] at hheld
              simpa using hheld
          | requestOutcome =>
              simp only [hkind, Memory.mk.injEq, true_and] at hreads
              refine applyOutcome_agree hsaved s e fun hok => ?_
              simpa only [hok, decide_true, Bool.true_and] using hreads
          | unsupported => exact agree_error ..

theorem body_ok {effects : List Effect} (hok : (p.body s record).1 = .ok effects) :
    ∃ u reply, p.applyRecord p.tracker.begin s record = (.ok effects, u) ∧
      (u.run (.store (.checkpoint s.epoch record.seq u.db.cursor.bootId))).1 = .ok reply ∧
      (p.body s record).2 = (u.run (.store (.checkpoint s.epoch record.seq u.db.cursor.bootId))).2 := by
  unfold Process.body at hok ⊢
  rcases hpair : p.applyRecord p.tracker.begin s record with ⟨result, u⟩
  rw [hpair] at hok
  cases result with
  | error e => cases hok
  | ok applied =>
      dsimp only at hok ⊢
      cases hrun : (u.run (.store (.checkpoint s.epoch record.seq u.db.cursor.bootId))).1 with
      | error e =>
          rw [step_error hrun] at hok
          cases hok
      | ok reply =>
          rw [step_eq hrun] at hok ⊢
          cases hok
          exact ⟨u, reply, rfl, hrun, rfl⟩

theorem body_agree (h : Alike p.tracker.begin p'.tracker.begin) (hclosed : p.tracker.closed = true)
    (hclosed' : p'.tracker.closed = true) (hp : p.tracker.db.activity.size < 4000)
    (hp' : p'.tracker.db.activity.size < 4000) (hboot : p.bootId = p'.bootId)
    (hreads : p.reads record = p'.reads record) : Deferring.Agree (p.body s record) (p'.body s record) := by
  have happly := applyRecord_agree (s := s) h hclosed hclosed' hp hp' hboot hreads
  refine ⟨fun effects effects' ht hq => ?_⟩
  obtain ⟨u, reply, hpair, hrun, heq⟩ := body_ok ht
  obtain ⟨u', reply', hpair', hrun', heq'⟩ := body_ok hq
  rw [hpair, hpair'] at happly
  rw [heq, heq']
  exact checkpoint_alike (happly.alike effects effects' rfl rfl) hrun hrun'

end Records

end GaHub.Conductor
