import GaHub.Conductor.Commands.Rows

namespace GaHub.Conductor

open Lib

def Note.operation : Note → OperationId
  | .queried operation _ _ | .sent operation _ _ | .suspended operation | .uncertain operation
  | .stored operation _ _ => operation

-- What there is of one command.
structure View where
  row : Option Command
  job : Option Job
  notes : List Note

-- `finish_command` and `prepare_command`, on the row they find.
def Command.finished (state : CommandState) (result : Option CommandResult) (now : Time) (c : Command) : Command :=
  { c with state, result, updatedAt := now }

def Command.holding (payload : CommandPayload) (c : Command) : Command :=
  { c with payload, fingerprint := commandFingerprint payload }

namespace View

variable (v : View)

def moved (job : Job) (progress : Progress) : View := { v with job := some { job with progress } }

def noted (n : Note) : View := { v with notes := n :: v.notes }

def stored (o : OperationId) (state : CommandState) (result : Option CommandResult) (answered : Bool)
    (now : Time) : View :=
  { v with row := v.row.map (Command.finished state result now), notes := .stored o state answered :: v.notes }

def holding (payload : CommandPayload) : View := { v with row := v.row.map (Command.holding payload) }

end View

namespace Hub

variable (h : Hub)

def notes (o : OperationId) : List Note := h.log.filter fun n => decide (n.operation = o)

def view (o : OperationId) : View := ⟨h.row o, h.jobs.get? o, h.notes o⟩

end Hub

section Views

variable {h : Hub} {o q : OperationId}

theorem note_own (n : Note) (o : OperationId) (hn : n.operation = o) : (h.note n).view o = (h.view o).noted n := by
  simp [Hub.view, Hub.note, Hub.notes, Hub.row, View.noted, hn]

theorem note_other {n : Note} (hn : n.operation ≠ o) : (h.note n).view o = h.view o := by
  simp [Hub.view, Hub.note, Hub.notes, Hub.row, hn]

theorem move_view (h : Hub) (q : OperationId) (job : Job) (progress : Progress) (o : OperationId) :
    (h.move q job progress).view o =
      if o = q then (h.view o).moved job progress else h.view o := by
  by_cases ho : o = q
  · simp [Hub.view, Hub.move, Hub.notes, Hub.row, View.moved, ho]
  · simp [Hub.view, Hub.move, Hub.notes, Hub.row, Dict.get?_set, ho]

theorem Inside.committed {p : Process} {u v : Tracker} (h : Inside u v) (hp : p.tracker = v.commit) :
    Settled p ∧ p.tracker.closed = true ∧ p.tracker.db.commands = v.db.commands := by
  have hclosed : p.tracker.closed = true := by
    rw [hp]
    exact commit_closed h.txn
  have hstored : p.tracker.store.isSome = true := (Bool.and_eq_true_iff.mp hclosed).1
  refine ⟨.of_closed ⟨?_, hstored⟩ hclosed, hclosed, ?_⟩
  · rw [hp]
    exact h.sync.commit h.txn
  · rw [hp, commit_db h.txn]

theorem Inside.rolledBack {p : Process} {u v : Tracker} (h : Inside u v) (hp : p.tracker = v.rollback) :
    Settled p ∧ p.tracker.closed = true ∧ p.tracker.db.commands = v.saved.commands := by
  have hclosed : p.tracker.closed = true := by
    rw [hp]
    exact rollback_closed h.txn
  have hstored : p.tracker.store.isSome = true := (Bool.and_eq_true_iff.mp hclosed).1
  refine ⟨.of_closed ⟨?_, hstored⟩ hclosed, hclosed, ?_⟩
  · rw [hp]
    exact h.sync.rollback h.txn
  · rw [hp, rollback_db h.txn]

theorem save_spec {p : Process} (hp : Settled p) (hclosed : p.tracker.closed = true) (op : StoreOp)
    (hopens : Op.opens p.tracker (.store op) = true) (hok : ∀ t s, (Tracker.runStore t s op).1 = .ok .nothing) :
    Settled (p.save op) ∧ (p.save op).tracker.closed = true ∧
      (p.save op).tracker.db.commands = (op.apply p.tracker.db).commands := by
  have hopen := begin_txn hclosed
  have hinside := run_inside (hp.sync.begin hclosed) hopen (.store op)
  obtain ⟨s, x, hs, hx⟩ := open_store hopen
  have hrun : p.tracker.begin.run (.store op) = p.tracker.begin.runStore s op := by simp only [Tracker.run, hs]
  have hreply : (p.tracker.begin.run (.store op)).1 = .ok .nothing := by rw [hrun, hok]
  have htracker : (p.save op).tracker = (p.tracker.begin.run (.store op)).2.commit := by
    simp only [Process.save, call_ok hclosed hopens hreply]
  obtain ⟨hsettled, hclosed', hcommands⟩ := hinside.committed htracker
  refine ⟨hsettled, hclosed', hcommands.trans ?_⟩
  rcases runStore_db hs op with ⟨_, e, herror⟩ | ⟨hdb, _⟩
  · rw [hok] at herror
    cases herror
  · rw [hrun, hdb, (like_begin p.tracker).db]

structure Quiet (h : Hub) : Prop where
  settled : Settled h.process
  closed : h.process.tracker.closed = true

theorem Quiet.move (hq : Quiet h) (q : OperationId) (job : Job) (progress : Progress) :
    Quiet (h.move q job progress) := ⟨hq.settled, hq.closed⟩

theorem Quiet.note (hq : Quiet h) (n : Note) : Quiet (h.note n) := ⟨hq.settled, hq.closed⟩

theorem finish_quiet (hq : Quiet h) (q : OperationId) (state : CommandState) (result : Option CommandResult)
    (answered : Bool) (now : Time) : Quiet (h.finish q state result answered now) := by
  obtain ⟨hsettled, hclosed, _⟩ := save_spec hq.settled hq.closed
    (.finishCommand q (some state) result now) rfl fun _ _ => rfl
  exact ⟨hsettled, hclosed⟩

theorem finish_view (hq : Quiet h) (q : OperationId) (state : CommandState) (result : Option CommandResult)
    (answered : Bool) (now : Time) (o : OperationId) : (h.finish q state result answered now).view o =
      if o = q then (h.view o).stored q state result answered now else h.view o := by
  obtain ⟨_, _, hcommands⟩ := save_spec hq.settled hq.closed
    (.finishCommand q (some state) result now) rfl fun _ _ => rfl
  have hrow : (h.write (.finishCommand q (some state) result now)).row o =
      if o = q then (h.row q).map (Command.finished state result now) else h.row o := by
    simp only [Hub.row, Hub.write, hcommands, StoreOp.apply, updateCommand_get?]
    rfl
  unfold Hub.finish
  by_cases ho : o = q
  · subst ho
    rw [if_pos rfl] at hrow ⊢
    rw [note_own (.stored o state answered) o rfl]
    simp only [Hub.view, View.noted, View.stored, hrow]
    rfl
  · rw [if_neg ho] at hrow ⊢
    rw [note_other (Ne.symm ho)]
    simp only [Hub.view, hrow]
    rfl

theorem prepareCommand_quiet (hq : Quiet h) (q : OperationId) (payload : CommandPayload) :
    Quiet (h.write (.prepareCommand q payload)) := by
  obtain ⟨hsettled, hclosed, _⟩ := save_spec hq.settled hq.closed
    (.prepareCommand q payload) rfl fun _ _ => rfl
  exact ⟨hsettled, hclosed⟩

theorem prepareCommand_view (hq : Quiet h) (q : OperationId) (payload : CommandPayload) (o : OperationId) :
    (h.write (.prepareCommand q payload)).view o =
      if o = q then (h.view o).holding payload else h.view o := by
  obtain ⟨_, _, hcommands⟩ := save_spec hq.settled hq.closed
    (.prepareCommand q payload) rfl fun _ _ => rfl
  simp only [Hub.view, Hub.row, Hub.write, Hub.notes, hcommands, StoreOp.apply, updateCommand_get?]
  by_cases ho : o = q
  · subst ho
    simp only [if_true]
    rfl
  · simp [ho]

end Views

def Hub.Leads (h : Hub) (state : CommandState) (payload : CommandPayload) : Point → Point → Prop
  | .fetched, .admitted => True
  | .admitted, .recovered => h.ready = true
  | .recovered, .compared => payload.bootId.all (· = "") = true ∨ payload.bootId = h.process.bootId
  | .assigned, .saved => payload.prepared.isSome = true
  | .marked, .cleared => state ≠ .sending ∧ state ≠ .unknown
  | .sent, .raised _ known => known = false
  | .sent, .replied _ => True
  | _, _ => False

-- `_prepare` keeps what it does not add.
structure CommandPayload.Prepares (payload payload' : CommandPayload) : Prop where
  intent : payload'.intent = payload.intent
  bootId : payload'.bootId = payload.bootId
  suspended : payload'.suspended = payload.suspended
  prepared : payload'.prepared.isSome = true

inductive Shift (o : OperationId) (h : Hub) (a : CommandAction) : View → Prop where
  | still : Shift o h a (h.view o)
  | created {c : Command} (hnone : h.row o = none) (hstate : c.state = .pending)
      (hnew : c.payload.untouched none = true ∨ c.payload.untouched h.process.bootId = true) :
      Shift o h a { h.view o with row := some c }
  | entered {job : Job} (hnone : h.jobs.get? o = none) (hprogress : job.progress = .entered)
      (hlisted : job.listed.isSome = true → ∃ c, (o, c) ∈ h.listed) :
      Shift o h a { h.view o with job := some job }
  | fetched {job : Job} {c : Command} (hjob : h.jobs.get? o = some job) (hprogress : job.progress = .entered)
      (hrow : h.row o = some c) (hopen : c.state ≠ .succeeded ∧ c.state ≠ .rejected)
      (hfree : c.payload.suspended = false) :
      Shift o h a ((h.view o).moved job (.running .fetched c.state c.payload))
  | ended {job : Job} {outcome : Option Raised} (hjob : h.jobs.get? o = some job) :
      Shift o h a ((h.view o).moved job (.ended outcome))
  | went {job : Job} {point point' : Point} {state : CommandState} {payload : CommandPayload}
      (hjob : h.jobs.get? o = some job) (hprogress : job.progress = .running point state payload)
      (hleads : h.Leads state payload point point') :
      Shift o h a ((h.view o).moved job (.running point' state payload))
  | assigned {job : Job} {state : CommandState} {payload : CommandPayload} {answers : Answers}
      (haction : a = .step o answers) (hjob : h.jobs.get? o = some job)
      (hprogress : job.progress = .running .compared state payload) :
      Shift o h a ((h.view o).moved job (.running .assigned state { payload with bootId := h.process.bootId }))
  | prepared {job : Job} {state : CommandState} {payload payload' : CommandPayload}
      (hjob : h.jobs.get? o = some job) (hprogress : job.progress = .running .assigned state payload)
      (hfirst : payload.prepared = none) (hprepares : payload.Prepares payload') :
      Shift o h a ((h.view o).moved job (.running .prepared state payload'))
  | saved {job : Job} {state : CommandState} {payload : CommandPayload} (hjob : h.jobs.get? o = some job)
      (hprogress : job.progress = .running .prepared state payload) :
      Shift o h a (((h.view o).holding payload).moved job (.running .saved state payload))
  | marked {job : Job} {state : CommandState} {payload : CommandPayload} {now : Time}
      (hjob : h.jobs.get? o = some job) (hprogress : job.progress = .running .saved state payload) :
      Shift o h a (((h.view o).stored o .sending none false now).moved job (.running .marked state payload))
  | queried {job : Job} {state : CommandState} {payload : CommandPayload} {receipt : Receipt} {point : Point}
      (hjob : h.jobs.get? o = some job) (hprogress : job.progress = .running .marked state payload)
      (hpoint : point = .cleared ∧ receipt.bootId = payload.bootId ∧ receipt.known = false ∨
        (∃ reply, point = .replied reply) ∨
        ∃ error known, point = .raised error known ∧
          (receipt.known = true ∨ error = Hub.conflict "engine_boot_changed")) :
      Shift o h a (((h.view o).noted (.queried o receipt.bootId receipt.known)).moved job
        (.running point state payload))
  -- the query itself failed
  | unanswered {job : Job} {state : CommandState} {payload : CommandPayload} {answers : Answers} {error : Raised}
      (haction : a = .step o answers) (hreceipt : answers.receipt = .error error) (hjob : h.jobs.get? o = some job)
      (hprogress : job.progress = .running .marked state payload) (hstate : state = .sending ∨ state = .unknown) :
      Shift o h a ((h.view o).moved job (.running (.raised error false) state payload))
  | sent {job : Job} {state : CommandState} {payload : CommandPayload} (hjob : h.jobs.get? o = some job)
      (hprogress : job.progress = .running .cleared state payload) :
      Shift o h a (((h.view o).noted (.sent o payload.bootId (h.row o))).moved job (.running .sent state payload))
  -- before anything was sent
  | rejected {job : Job} {point : Point} {state : CommandState} {payload : CommandPayload} {result : CommandResult}
      {now : Time} {outcome : Option Raised} (hjob : h.jobs.get? o = some job)
      (hprogress : job.progress = .running point state payload)
      (hearly : point = .fetched ∧ state = .pending ∨ point = .assigned ∧ payload.prepared = none) :
      Shift o h a (((h.view o).stored o .rejected (some result) false now).moved job (.ended outcome))
  | outdated {job : Job} {state : CommandState} {payload : CommandPayload} {result : CommandResult} {now : Time}
      {outcome : Option Raised} (hjob : h.jobs.get? o = some job)
      (hprogress : job.progress = .running .recovered state payload)
      (hboot : payload.bootId.all (· = "") = false ∧ payload.bootId ≠ h.process.bootId) :
      Shift o h a ((((h.view o).stored o .unknown (some result) false now).noted (.uncertain o)).moved job
        (.ended outcome))
  | uncertain {job : Job} {error : Raised} {known answered : Bool} {state : CommandState} {payload : CommandPayload}
      {result : Option CommandResult} {now : Time} {outcome : Option Raised} (hjob : h.jobs.get? o = some job)
      (hprogress : job.progress = .running (.raised error known) state payload) :
      Shift o h a ((((h.view o).stored o .unknown result answered now).noted (.uncertain o)).moved job
        (.ended outcome))
  | refused {job : Job} {f : Failure} {known : Bool} {state : CommandState} {payload : CommandPayload}
      {result : Option CommandResult} {now : Time} {outcome : Option Raised} (hjob : h.jobs.get? o = some job)
      (hprogress : job.progress = .running (.raised (.process f) known) state payload)
      (hsure : f.uncertain known = false) :
      Shift o h a (((h.view o).stored o .rejected result true now).moved job (.ended outcome))
  | delivered {job : Job} {reply : EngineReply} {state : CommandState} {payload : CommandPayload}
      {result : CommandResult} {now : Time} (hjob : h.jobs.get? o = some job)
      (hprogress : job.progress = .running (.replied reply) state payload) :
      Shift o h a (((h.view o).stored o .succeeded (some result) true now).moved job (.ended none))
  | left {job : Job} {outcome : Option Raised} (hjob : h.jobs.get? o = some job)
      (hprogress : job.progress = .ended outcome) : Shift o h a { h.view o with job := none }
  | handled {f : Failure} {result : CommandResult} {now : Time} (haction : a = .handle now)
      (hcaught : h.caught = some (o, .pending, f)) (hdefinite : f.definite = true) :
      Shift o h a ((h.view o).stored o .rejected (some result) false now)
  | suspended {c : Command} {result : CommandResult} {now : Time} (haction : a = .suspend now)
      (hrow : h.row o = some c) (hopen : c.state ≠ .succeeded ∧ c.state ≠ .rejected) :
      Shift o h a ((((h.view o).holding { c.payload with suspended := true }).stored o .unknown (some result)
        false now).noted (.suspended o))
  | crashed : Shift o h a { h.view o with job := none }

theorem Shift.row_isSome {o : OperationId} {h : Hub} {a : CommandAction} {v : View} (hshift : Shift o h a v)
    (hrow : (h.row o).isSome = true) : v.row.isSome = true := by
  cases hshift with
  | created _ _ _ => rfl
  | saved _ _ | marked _ _ | rejected _ _ _ | outdated _ _ _ | uncertain _ _ | refused _ _ _ | delivered _ _
  | handled _ _ _ | suspended _ _ _ =>
      simpa [View.moved, View.noted, View.stored, View.holding, Hub.view] using hrow
  | _ => exact hrow

section Steps

variable {h : Hub} {o q : OperationId} {job : Job}

theorem checkWorker_prepares {payload payload' : CommandPayload} {intent : Intent} {bootId : Option String}
    {worker : WorkerView} (h : Hub.checkWorker payload intent bootId worker = .ok payload') :
    payload'.intent = payload.intent ∧ payload'.bootId = payload.bootId ∧
      payload'.suspended = payload.suspended := by
  unfold Hub.checkWorker at h
  repeat' split at h
  all_goals cases h
  exact ⟨rfl, rfl, rfl⟩

theorem assertReady_quiet (hq : Quiet h) (r : RequestId) :
    Quiet { h with process := { h.process with
      tracker := (h.process.tracker.call (.assertReadyForFinal r) false).2 } } ∧
      (h.process.tracker.call (.assertReadyForFinal r) false).2.db.commands =
        h.process.tracker.db.commands := by
  have hnext : h.process.next (.tracker (.call (.assertReadyForFinal r) false)) = some { h.process with
      tracker := (h.process.tracker.call (.assertReadyForFinal r) false).2 } := by
    simp [Process.next, Action.apart, Tracker.next, Op.onStore]
  obtain ⟨hsettled, hcommands⟩ := aside_commands hq.settled rfl (fun _ _ _ heq => by cases heq) hnext
  refine ⟨⟨hsettled, ?_⟩, hcommands⟩
  have hidle : Op.opens h.process.tracker (.assertReadyForFinal r) = false := rfl
  have hcall : h.process.tracker.call (.assertReadyForFinal r) false =
      h.process.tracker.run (.assertReadyForFinal r) := by
    simp [Tracker.call, hidle]
  simp only [hcall]
  rcases run_idle hq.closed hidle with haside | ⟨_, _, harr⟩
  · exact haside.within.closed.trans hq.closed
  · exact harr.within.closed.trans hq.closed

theorem checkAction_spec (hq : Quiet h) (payload : CommandPayload) (a : Answers) :
    Quiet (h.checkAction payload a).2 ∧ (∀ o, (h.checkAction payload a).2.view o = h.view o) ∧
      ∀ payload', (h.checkAction payload a).1 = .ok payload' → payload'.intent = payload.intent ∧
        payload'.bootId = payload.bootId ∧ payload'.suspended = payload.suspended := by
  unfold Hub.checkAction
  split
  · split
    · refine ⟨hq, fun _ => rfl, fun payload' heq => ?_⟩
      cases heq
    · exact ⟨⟨hq.settled, hq.closed⟩, fun _ => rfl, fun _ heq => checkWorker_prepares heq⟩
  · refine ⟨hq, fun _ => rfl, fun payload' heq => ?_⟩
    cases heq
    exact ⟨rfl, rfl, rfl⟩

theorem sendable_prepares (payload : CommandPayload) (rid : Option RequestId) (intent : Intent) :
    payload.Prepares (Hub.sendable payload rid intent) := ⟨rfl, rfl, rfl, rfl⟩

theorem admitAction_spec (hq : Quiet h) (payload : CommandPayload) (rid : Option RequestId) (a : Answers) :
    Quiet (h.admitAction payload rid a).2 ∧ (∀ o, (h.admitAction payload rid a).2.view o = h.view o) ∧
      ∀ payload', (h.admitAction payload rid a).1 = .ok payload' → payload.Prepares payload' := by
  have hfails : ∀ (e : Raised) payload', (Except.error e : Except Raised CommandPayload) = .ok payload' →
      payload.Prepares payload' := by
    intro e payload' heq
    cases heq
  have hsends : ∀ payload', (Except.ok (Hub.sendable payload rid payload.intent) : Except Raised CommandPayload) =
      .ok payload' → payload.Prepares payload' := by
    intro payload' heq
    cases heq
    exact sendable_prepares ..
  unfold Hub.admitAction
  dsimp only
  split
  · split
    · exact ⟨hq, fun _ => rfl, hfails _⟩
    · refine ⟨hq, fun _ => rfl, fun payload' heq => ?_⟩
      cases heq
      exact ⟨rfl, rfl, rfl, rfl⟩
  · split
    · obtain ⟨hasked, hcommands⟩ := assertReady_quiet hq (rid.getD "")
      have hview : ∀ o, Hub.view { h with process := { h.process with
          tracker := (h.process.tracker.call (.assertReadyForFinal (rid.getD "")) false).2 } } o = h.view o := by
        intro o
        simp only [Hub.view, Hub.row, Hub.notes, hcommands]
      split
      · exact ⟨hasked, hview, hfails _⟩
      · exact ⟨hasked, hview, hsends⟩
    · split
      · split
        · exact ⟨hq, fun _ => rfl, hfails _⟩
        · exact ⟨hq, fun _ => rfl, hsends⟩
      · exact ⟨hq, fun _ => rfl, hsends⟩

theorem prepare_spec (hq : Quiet h) (payload : CommandPayload) (a : Answers) :
    Quiet (h.prepare payload a).2 ∧ (∀ o, (h.prepare payload a).2.view o = h.view o) ∧
      ∀ payload', (h.prepare payload a).1 = .ok payload' → payload.Prepares payload' := by
  obtain ⟨hquiet, hview, hsame⟩ := checkAction_spec hq payload a
  unfold Hub.prepare
  rcases hpair : h.checkAction payload a with ⟨result, g⟩
  rw [hpair] at hquiet hview hsame
  cases result with
  | error e =>
      refine ⟨hquiet, hview, fun payload' heq => ?_⟩
      cases heq
  | ok payload₁ =>
      obtain ⟨hintent, hboot, hsuspended⟩ := hsame payload₁ rfl
      obtain ⟨hquiet', hview', hprepares⟩ := admitAction_spec hquiet payload₁ (h.requestOf payload₁) a
      refine ⟨hquiet', fun o => (hview' o).trans (hview o), fun payload' heq => ?_⟩
      have hp := hprepares payload' heq
      exact ⟨hp.intent.trans hintent, hp.bootId.trans hboot, hp.suspended.trans hsuspended, hp.prepared⟩

variable {a : CommandAction}

theorem move_shifts {g : Hub} {progress : Progress} (hother : ∀ o, o ≠ q → g.view o = h.view o)
    (hown : Shift q h a ((g.view q).moved job progress)) : ∀ o, Shift o h a ((g.move q job progress).view o) := by
  intro o
  rw [move_view]
  by_cases ho : o = q
  · subst ho
    rw [if_pos rfl]
    exact hown
  · rw [if_neg ho, hother o ho]
    exact .still

theorem reject_shifts {point : Point} {state : CommandState} {payload : CommandPayload}
    (hjob : h.jobs.get? q = some job) (hprogress : job.progress = .running point state payload)
    (hearly : point = .fetched ∧ state = .pending ∨ point = .assigned ∧ payload.prepared = none)
    {g : Hub} (hg : Quiet g) (hsame : ∀ o, g.view o = h.view o) (f : Failure) (now : Time) :
    Quiet (g.reject q job f now) ∧ ∀ o, Shift o h a ((g.reject q job f now).view o) := by
  unfold Hub.reject Hub.recordRejection
  split
  · refine ⟨(finish_quiet hg ..).move .., move_shifts (fun o ho => ?_) ?_⟩
    · rw [finish_view hg, if_neg ho, hsame]
    · rw [finish_view hg, if_pos rfl, hsame]
      exact .rejected hjob hprogress hearly
  · refine ⟨hg.move .., move_shifts (fun o _ => hsame o) ?_⟩
    rw [hsame]
    exact .ended hjob

theorem conclude_shifts (hq : Quiet h) {error : Raised} {known : Bool} {state : CommandState}
    {payload : CommandPayload} (hjob : h.jobs.get? q = some job)
    (hprogress : job.progress = .running (.raised error known) state payload) (now : Time) :
    Quiet (h.conclude q job error known now) ∧ ∀ o, Shift o h a ((h.conclude q job error known now).view o) := by
  have hunsure : ∀ (g : Hub) (result : Option CommandResult) (answered : Bool) (outcome : Option Raised), Quiet g →
      (∀ o, g.view o = h.view o) →
      Quiet (((g.finish q .unknown result answered now).note (.uncertain q)).move q job (.ended outcome)) ∧
        ∀ o, Shift o h a ((((g.finish q .unknown result answered now).note (.uncertain q)).move q job
          (.ended outcome)).view o) := by
    intro g result answered outcome hg hsame
    refine ⟨((finish_quiet hg ..).note _).move .., move_shifts (fun o ho => ?_) ?_⟩
    · rw [note_other (Ne.symm ho), finish_view hg, if_neg ho, hsame]
    · rw [note_own (.uncertain q) q rfl, finish_view hg, if_pos rfl, hsame]
      exact .uncertain hjob hprogress
  unfold Hub.conclude
  cases error with
  | process f =>
      dsimp only
      have hg : Quiet { h with ready := h.ready && decide (f.detail.detail.error ≠ some "engine_boot_changed") } :=
        ⟨hq.settled, hq.closed⟩
      split
      · exact hunsure _ _ _ _ hg fun _ => rfl
      · rename_i hsure
        refine ⟨(finish_quiet hg ..).move .., move_shifts (fun o ho => ?_) ?_⟩
        · rw [finish_view hg, if_neg ho]
          rfl
        · rw [finish_view hg, if_pos rfl]
          exact .refused hjob hprogress (by simpa using hsure)
  | value _ | notRunning _ | body _ | other => exact hunsure h _ _ _ hq fun _ => rfl

theorem advance_shifts (hs : Settled h.process) {point : Point} {state : CommandState} {payload : CommandPayload}
    (hjob : h.jobs.get? q = some job) (hprogress : job.progress = .running point state payload)
    (hguard : Hub.Point.onStore point = true → h.process.tracker.closed = true) (a : Answers) :
    Settled (h.advance q job point state payload a).process ∧
      ∀ o, Shift o h (.step q a) ((h.advance q job point state payload a).view o) := by
  have hgo : ∀ point', h.Leads state payload point point' →
      Settled (h.move q job (.running point' state payload)).process ∧
        ∀ o, Shift o h (.step q a) ((h.move q job (.running point' state payload)).view o) :=
    fun point' hleads => ⟨hs, move_shifts (fun _ _ => rfl) (.went hjob hprogress hleads)⟩
  have hstop : ∀ outcome, Settled (h.move q job (.ended outcome)).process ∧
      ∀ o, Shift o h (.step q a) ((h.move q job (.ended outcome)).view o) :=
    fun outcome => ⟨hs, move_shifts (fun _ _ => rfl) (.ended hjob)⟩
  cases point with
  | fetched =>
      have hq : Quiet h := ⟨hs, hguard rfl⟩
      simp only [Hub.advance]
      split
      · rename_i hstart
        simp only [Bool.and_eq_true, decide_eq_true_eq] at hstart
        split
        · obtain ⟨hquiet, hshifts⟩ := reject_shifts (a := .step q a) hjob hprogress (Or.inl ⟨rfl, hstart.2⟩) hq
            (fun _ => rfl) ⟨some 422, .text _⟩ a.now
          exact ⟨hquiet.settled, hshifts⟩
        · exact hstop _
        · exact hgo _ trivial
      · exact hgo _ trivial
  | admitted =>
      simp only [Hub.advance]
      split
      · exact hstop _
      · split
        · exact hstop _
        · rename_i hready
          simp only [Bool.or_eq_true, Bool.not_eq_true', not_or, Bool.not_eq_false] at hready
          exact hgo _ hready.1
  | recovered =>
      have hq : Quiet h := ⟨hs, hguard rfl⟩
      simp only [Hub.advance]
      split
      · rename_i hboot
        simp only [Bool.and_eq_true, Bool.not_eq_true', decide_eq_true_eq] at hboot
        refine ⟨(((finish_quiet hq ..).note _).move ..).settled, move_shifts (fun o ho => ?_) ?_⟩
        · rw [note_other (Ne.symm ho), finish_view hq, if_neg ho]
        · rw [note_own (.uncertain q) q rfl, finish_view hq, if_pos rfl]
          exact .outdated hjob hprogress hboot
      · rename_i hboot
        refine hgo _ ?_
        simp only [Bool.and_eq_true, Bool.not_eq_true', decide_eq_true_eq, not_and, not_not] at hboot
        exact or_iff_not_imp_left.mpr fun hset => hboot (by simpa using hset)
  | compared =>
      exact ⟨hs, move_shifts (fun _ _ => rfl) (.assigned rfl hjob hprogress)⟩
  | assigned =>
      have hq : Quiet h := ⟨hs, hguard rfl⟩
      simp only [Hub.advance]
      split
      · exact hgo _ ‹_›
      · rename_i hnone
        have hfirst : payload.prepared = none := by simpa using hnone
        obtain ⟨hquiet, hview, hprepares⟩ := prepare_spec hq payload a
        rcases hpair : h.prepare payload a with ⟨result, g⟩
        rw [hpair] at hquiet hview hprepares
        have hreject : ∀ f, Settled (g.reject q job f a.now).process ∧
            ∀ o, Shift o h (.step q a) ((g.reject q job f a.now).view o) := fun f => by
          obtain ⟨hquiet', hshifts⟩ := reject_shifts (a := .step q a) hjob hprogress (Or.inr ⟨rfl, hfirst⟩) hquiet
            hview f a.now
          exact ⟨hquiet'.settled, hshifts⟩
        have hleave : ∀ outcome, Settled (g.move q job (.ended outcome)).process ∧
            ∀ o, Shift o h (.step q a) ((g.move q job (.ended outcome)).view o) := by
          intro outcome
          refine ⟨hquiet.settled, move_shifts (fun o _ => hview o) ?_⟩
          rw [hview]
          exact .ended hjob
        cases result with
        | ok payload' =>
            refine ⟨hquiet.settled, move_shifts (fun o _ => hview o) ?_⟩
            rw [hview]
            exact .prepared hjob hprogress hfirst (hprepares payload' rfl)
        | error e =>
            cases e with
            | process f => exact hreject f
            | value message | notRunning message => exact hreject _
            | body _ | other => exact hleave _
  | prepared =>
      have hq : Quiet h := ⟨hs, hguard rfl⟩
      refine ⟨((prepareCommand_quiet hq q payload).move ..).settled, move_shifts (fun o ho => ?_) ?_⟩
      · rw [prepareCommand_view hq, if_neg ho]
      · rw [prepareCommand_view hq, if_pos rfl]
        exact .saved hjob hprogress
  | saved =>
      have hq : Quiet h := ⟨hs, hguard rfl⟩
      refine ⟨((finish_quiet hq ..).move ..).settled, move_shifts (fun o ho => ?_) ?_⟩
      · rw [finish_view hq, if_neg ho]
      · rw [finish_view hq, if_pos rfl]
        exact .marked hjob hprogress
  | marked =>
      have hasked : ∀ (receipt : Receipt) point', (point' = .cleared ∧ receipt.bootId = payload.bootId ∧
          receipt.known = false ∨ (∃ reply, point' = .replied reply) ∨
          ∃ error known, point' = .raised error known ∧
            (receipt.known = true ∨ error = Hub.conflict "engine_boot_changed")) →
          Settled ((h.note (.queried q receipt.bootId receipt.known)).move q job
            (.running point' state payload)).process ∧
          ∀ o, Shift o h (.step q a) (((h.note (.queried q receipt.bootId receipt.known)).move q job
            (.running point' state payload)).view o) := by
        intro receipt point' hpoint
        refine ⟨hs, move_shifts (fun o ho => note_other (Ne.symm ho)) ?_⟩
        rw [note_own (.queried q receipt.bootId receipt.known) q rfl]
        exact .queried hjob hprogress hpoint
      simp only [Hub.advance]
      split
      · rename_i hstate
        split
        · rename_i hreceipt
          exact ⟨hs, move_shifts (fun _ _ => rfl) (.unanswered rfl hreceipt hjob hprogress hstate)⟩
        · rename_i receipt _
          split
          · exact hasked receipt _ (Or.inr (Or.inr ⟨_, _, rfl, Or.inr rfl⟩))
          · rename_i hboot
            split
            · rename_i hunknown
              exact hasked receipt _ (Or.inl ⟨rfl, by simpa using hboot, by simp [Receipt.known, hunknown]⟩)
            · exact hasked receipt _ (Or.inr (Or.inl ⟨_, rfl⟩))
            · rename_i hrefused
              exact hasked receipt _ (Or.inr (Or.inr ⟨_, _, rfl, Or.inl (by simp [Receipt.known, hrefused])⟩))
      · rename_i hstate
        exact hgo _ (not_or.mp hstate)
  | cleared =>
      refine ⟨hs, move_shifts (fun o ho => note_other (Ne.symm ho)) ?_⟩
      rw [note_own (.sent q payload.bootId (h.row q)) q rfl]
      exact .sent hjob hprogress
  | sent =>
      simp only [Hub.advance]
      split
      · exact hgo _ rfl
      · exact hgo _ trivial
  | raised error known =>
      obtain ⟨hquiet, hshifts⟩ := conclude_shifts (a := .step q a) ⟨hs, hguard rfl⟩ hjob hprogress a.now
      exact ⟨hquiet.settled, hshifts⟩
  | replied reply =>
      have hclosed := hguard rfl
      have hbody := deliver_yields (Amid.begin hs.sync hclosed) q payload reply a.now
      simp only [Hub.advance]
      rcases hpair : h.process.tracker.begin.deliver q payload reply a.now with ⟨result, u⟩
      rw [hpair] at hbody
      have hundone : ∀ outcome, Settled (Hub.move { h with process := { h.process with tracker := u.rollback } }
          q job (.ended outcome)).process ∧ ∀ o, Shift o h (.step q a) ((Hub.move { h with
            process := { h.process with tracker := u.rollback } } q job (.ended outcome)).view o) := by
        intro outcome
        obtain ⟨hsettled, _, hcommands⟩ :=
          hbody.inside.rolledBack (p := { h.process with tracker := u.rollback }) rfl
        have hrow : u.rollback.db.commands = h.process.tracker.db.commands := by
          rw [hcommands, hbody.saved]
        refine ⟨hsettled, move_shifts (fun o _ => ?_) ?_⟩
        · simp only [Hub.view, Hub.row, Hub.notes, hrow]
        · simp only [Hub.view, Hub.row, Hub.notes, hrow]
          exact .ended hjob
      cases result with
      | error e => exact hundone _
      | ok effects =>
          dsimp only
          split
          · exact hundone _
          · obtain ⟨hsettled, _, hcommands⟩ := hbody.inside.committed
              (p := { h.process with tracker := u.commit, pending := h.process.pending ++ effects }) rfl
            have hrows := hbody.post effects rfl
            refine ⟨hsettled, move_shifts (fun o ho => ?_) ?_⟩
            · rw [note_other (Ne.symm ho)]
              simp only [Hub.view, Hub.row, Hub.notes, hcommands, hrows, if_neg ho]
            · rw [note_own (.stored q .succeeded true) q rfl]
              have hdone : Shift q h (.step q a) (((h.view q).stored q .succeeded (some (.reply reply.body)) true
                  a.now).moved job (.ended none)) := .delivered hjob hprogress
              simp only [Hub.view, Hub.row, Hub.notes, hcommands, hrows, if_true]
              exact hdone

theorem fetch_shifts (hs : Settled h.process) (hjob : h.jobs.get? q = some job) (hprogress : job.progress = .entered) :
    Settled (h.fetch q job).process ∧ ∀ o, Shift o h a ((h.fetch q job).view o) := by
  have hstop : ∀ outcome, Settled (h.move q job (.ended outcome)).process ∧
      ∀ o, Shift o h a ((h.move q job (.ended outcome)).view o) :=
    fun outcome => ⟨hs, move_shifts (fun _ _ => rfl) (.ended hjob)⟩
  unfold Hub.fetch
  cases hrow : h.row q with
  | none => exact hstop _
  | some c =>
      dsimp only
      split
      · exact hstop _
      · split
        · exact hstop _
        · split
          · exact hstop _
          · rename_i hsucceeded hrejected hsuspended
            exact ⟨hs, move_shifts (fun _ _ => rfl)
              (.fetched hjob hprogress hrow ⟨hsucceeded, hrejected⟩ (by simpa using hsuspended))⟩

theorem leave_view (outcome : Option Raised) (o : OperationId) : (h.leave q job outcome).view o =
    if o = q then { h.view o with job := none } else h.view o := by
  have hjobs : (h.leave q job outcome).jobs = h.jobs.erase q := by
    unfold Hub.leave
    split <;> rfl
  have hprocess : (h.leave q job outcome).process = h.process := by
    unfold Hub.leave
    split <;> rfl
  have hlog : (h.leave q job outcome).log = h.log := by
    unfold Hub.leave
    split <;> rfl
  simp only [Hub.view, Hub.row, Hub.notes, hjobs, hprocess, hlog, Dict.get?_erase]
  by_cases ho : o = q
  · simp [ho]
  · simp [ho]

theorem recordRejection_shifts (hq : Quiet h) {g : Hub} (hg : g.process = h.process) (hlog : g.log = h.log)
    (hjobs : g.jobs = h.jobs) {f : Failure} {now : Time} (haction : a = .handle now)
    (hcaught : h.caught = some (q, .pending, f)) :
    Quiet (g.recordRejection q f now) ∧ ∀ o, Shift o h a ((g.recordRejection q f now).view o) := by
  have hquiet : Quiet g := ⟨hg ▸ hq.settled, hg ▸ hq.closed⟩
  have hsame : ∀ o, g.view o = h.view o := fun o => by
    simp only [Hub.view, Hub.row, Hub.notes, hg, hlog, hjobs]
  unfold Hub.recordRejection
  split
  · refine ⟨finish_quiet hquiet .., fun o => ?_⟩
    rw [finish_view hquiet]
    by_cases ho : o = q
    · subst ho
      rw [if_pos rfl, hsame]
      exact .handled haction hcaught ‹_›
    · rw [if_neg ho, hsame]
      exact .still
  · refine ⟨hquiet, fun o => ?_⟩
    rw [hsame]
    exact .still

theorem suspend_fold (now : Time) (es : List (OperationId × Command)) (hnd : (es.map Prod.fst).Nodup) {g : Hub}
    (hg : Quiet g) : Quiet (es.foldl (Hub.suspendOne now) g) ∧
      (∀ o, o ∉ es.map Prod.fst → (es.foldl (Hub.suspendOne now) g).view o = g.view o) ∧
      ∀ e ∈ es, (es.foldl (Hub.suspendOne now) g).view e.1 =
        (((g.view e.1).holding { e.2.payload with suspended := true }).stored e.1 .unknown
          (some (.note "manual_stop")) false now).noted (.suspended e.1) := by
  induction es generalizing g with
  | nil => exact ⟨hg, fun _ _ => rfl, fun e he => by cases he⟩
  | cons e es ih =>
      rw [List.map_cons, List.nodup_cons] at hnd
      have hone : Quiet (Hub.suspendOne now g e) := (finish_quiet (prepareCommand_quiet hg ..) ..).note _
      have hother : ∀ o, o ≠ e.1 → (Hub.suspendOne now g e).view o = g.view o := by
        intro o ho
        unfold Hub.suspendOne
        rw [note_other (Ne.symm ho), finish_view (prepareCommand_quiet hg ..), if_neg ho, prepareCommand_view hg,
          if_neg ho]
      have hown : (Hub.suspendOne now g e).view e.1 =
          (((g.view e.1).holding { e.2.payload with suspended := true }).stored e.1 .unknown
            (some (.note "manual_stop")) false now).noted (.suspended e.1) := by
        unfold Hub.suspendOne
        rw [note_own (.suspended e.1) e.1 rfl, finish_view (prepareCommand_quiet hg ..), if_pos rfl,
          prepareCommand_view hg, if_pos rfl]
      obtain ⟨hquiet, hrest, hlisted⟩ := ih hnd.2 hone
      rw [List.foldl_cons]
      refine ⟨hquiet, fun o ho => ?_, fun d hd => ?_⟩
      · rw [List.map_cons, List.mem_cons, not_or] at ho
        rw [hrest o ho.2, hother o ho.1]
      · rcases List.mem_cons.mp hd with rfl | hd
        · rw [hrest d.1 hnd.1, hown]
        · have hne : d.1 ≠ e.1 := by
            intro heq
            exact hnd.1 (heq ▸ List.mem_map_of_mem hd)
          rw [hlisted d hd, hother d.1 hne]

theorem suspend_shifts (hq : Quiet h) (now : Time) :
    Quiet (h.suspend now) ∧ ∀ o, Shift o h (.suspend now) ((h.suspend now).view o) := by
  have hperm := List.perm_insertionSort (fun x y : OperationId × Command => x.2.updatedAt ≤ y.2.updatedAt)
    (h.process.tracker.db.commands.entries.filter fun e =>
      decide (e.2.state = .pending ∨ e.2.state = .sending ∨ e.2.state = .unknown))
  have hnd : (h.pendingCommands.map Prod.fst).Nodup := by
    refine ((hperm.map Prod.fst).nodup_iff).mpr ?_
    exact (List.filter_sublist.map Prod.fst).nodup h.process.tracker.db.commands.nodup_keys
  obtain ⟨hquiet, hother, hlisted⟩ := suspend_fold now h.pendingCommands hnd hq
  refine ⟨hquiet, fun o => ?_⟩
  by_cases ho : o ∈ h.pendingCommands.map Prod.fst
  · obtain ⟨e, he, rfl⟩ := List.mem_map.mp ho
    obtain ⟨hentry, hstate⟩ := List.mem_filter.mp (hperm.mem_iff.mp he)
    have hrow : h.row e.1 = some e.2 := Dict.mem_entries_iff.mp hentry
    have hopen : e.2.state ≠ .succeeded ∧ e.2.state ≠ .rejected := by
      constructor <;> intro hclosed <;> simp [hclosed] at hstate
    unfold Hub.suspend
    rw [hlisted e he]
    exact .suspended rfl hrow hopen
  · unfold Hub.suspend
    rw [hother o ho]
    exact .still

theorem submit_shifts (hs : Settled h.process) (hclosed : h.process.tracker.closed = true) (intent : Intent)
    (fresh : RequestId) (now : Time) (fault : Bool) :
    Settled (h.submit q intent fresh now fault).2.process ∧
      ∀ o, Shift o h a ((h.submit q intent fresh now fault).2.view o) := by
  have hbody := submit_yields (Amid.begin hs.sync hclosed) q intent fresh now
  simp only [Hub.submit]
  rcases hpair : h.process.tracker.begin.submit q intent fresh now with ⟨result, u⟩
  rw [hpair] at hbody
  obtain ⟨hundone, _, hback⟩ := hbody.inside.rolledBack (p := { h.process with tracker := u.rollback }) rfl
  have hrow : u.rollback.db.commands = h.process.tracker.db.commands := hback.trans (by rw [hbody.saved])
  have hstill : ∀ o, Shift o h a (Hub.view { h with process := { h.process with tracker := u.rollback } } o) := by
    intro o
    simp only [Hub.view, Hub.row, Hub.notes, hrow]
    exact .still
  cases result with
  | error e => exact ⟨hundone, hstill⟩
  | ok effects =>
      dsimp only
      split
      · exact ⟨hundone, hstill⟩
      · obtain ⟨hsettled, _, hcommands⟩ := hbody.inside.committed
          (p := { h.process with tracker := u.commit, pending := h.process.pending ++ effects }) rfl
        refine ⟨hsettled, fun o => ?_⟩
        simp only [Hub.view, Hub.row, Hub.notes, hcommands]
        cases hbody.post effects rfl with
        | known _ _ heq =>
            rw [heq]
            exact .still
        | @created c hnone hfirst heq =>
            rw [heq, Dict.get?_set]
            by_cases ho : o = q
            · subst ho
              rw [if_pos rfl]
              exact .created hnone hfirst.state (Or.inl hfirst.untouched)
            · rw [if_neg ho]
              exact .still

theorem set_job_shifts {g : Hub} (hprocess : g.process = h.process) (hlog : g.log = h.log)
    (hjobs : g.jobs = h.jobs.set q job) (hnone : h.jobs.get? q = none) (hprogress : job.progress = .entered)
    (hlisted : job.listed.isSome = true → ∃ c, (q, c) ∈ h.listed) :
    ∀ o, Shift o h a (g.view o) := by
  intro o
  simp only [Hub.view, Hub.row, Hub.notes, hprocess, hlog, hjobs, Dict.get?_set]
  by_cases ho : o = q
  · subst ho
    rw [if_pos rfl]
    exact .entered hnone hprogress hlisted
  · rw [if_neg ho]
    exact .still

theorem next_shifts {h' : Hub} (hs : Settled h.process) (hnext : h.next a = some h') :
    Settled h'.process ∧ ∀ o, Shift o h a (h'.view o) := by
  have hstill : ∀ g : Hub, g.process.tracker = h.process.tracker → g.log = h.log → g.jobs = h.jobs →
      Settled g.process ∧ ∀ o, Shift o h a (g.view o) := by
    intro g hprocess hlog hjobs
    refine ⟨⟨hprocess ▸ hs.sync, hprocess ▸ hs.stored, hprocess ▸ hs.saved⟩, fun o => ?_⟩
    simp only [Hub.view, Hub.row, Hub.notes, hprocess, hlog, hjobs]
    exact .still
  cases a with
  | submit operation intent fresh now fault =>
      simp only [Hub.next] at hnext
      split at hnext <;> cases hnext
      exact submit_shifts hs ‹_› intent fresh now fault
  | enter operation =>
      simp only [Hub.next] at hnext
      split at hnext
      · cases hnext
      · rename_i hbusy
        cases hnext
        exact ⟨hs, set_job_shifts rfl rfl rfl (by simpa using hbusy) rfl fun hlisted => by cases hlisted⟩
  | step operation answers =>
      simp only [Hub.next] at hnext
      split at hnext
      · cases hnext
      · rename_i job hjob
        split at hnext
        · split at hnext <;> cases hnext
          exact fetch_shifts hs hjob ‹_›
        · rename_i point state payload hprogress
          split at hnext
          · rename_i hguard
            cases hnext
            refine advance_shifts hs hjob hprogress (fun honstore => ?_) answers
            simpa [honstore] using hguard
          · cases hnext
        · rename_i outcome hprogress
          cases hnext
          refine ⟨?_, fun o => ?_⟩
          · have hprocess : (h.leave operation job outcome).process = h.process := by
              unfold Hub.leave
              split <;> rfl
            rw [hprocess]
            exact hs
          · rw [leave_view]
            by_cases ho : o = operation
            · subst ho
              rw [if_pos rfl]
              exact .left hjob hprogress
            · rw [if_neg ho]
              exact .still
  | list =>
      simp only [Hub.next] at hnext
      split at hnext <;> cases hnext
      exact hstill _ rfl rfl rfl
  | pick autoAccept =>
      simp only [Hub.next, Hub.pick] at hnext
      split at hnext
      · cases hnext
      · rename_i operation command rest hlisted
        split at hnext
        · cases hnext
        · split at hnext
          · cases hnext
            exact hstill _ rfl rfl rfl
          · split at hnext
            · cases hnext
              exact hstill _ rfl rfl rfl
            · split at hnext
              · cases hnext
                exact hstill _ rfl rfl rfl
              · split at hnext
                · cases hnext
                  exact hstill _ rfl rfl rfl
                · split at hnext
                  · cases hnext
                    exact hstill _ rfl rfl rfl
                  · rename_i hbusy
                    cases hnext
                    exact ⟨hs, set_job_shifts rfl rfl rfl (by simpa using hbusy) rfl fun _ => ⟨command, by simp [hlisted]⟩⟩
  | handle now =>
      simp only [Hub.next] at hnext
      split at hnext
      · rename_i hclosed
        obtain ⟨e, hcaught, rfl⟩ := Option.map_eq_some_iff.mp hnext
        obtain ⟨operation, state, f⟩ := e
        dsimp only
        split
        · rename_i hpending
          cases hpending
          obtain ⟨hquiet, hshifts⟩ := recordRejection_shifts (a := .handle now) (g := { h with caught := none })
            ⟨hs, hclosed⟩ rfl rfl rfl rfl hcaught
          exact ⟨hquiet.settled, hshifts⟩
        · exact hstill _ rfl rfl rfl
      · cases hnext
  | suspend now =>
      simp only [Hub.next] at hnext
      split at hnext <;> cases hnext
      obtain ⟨hquiet, hshifts⟩ := suspend_shifts ⟨hs, ‹_›⟩ now
      exact ⟨hquiet.settled, hshifts⟩
  | process action =>
      simp only [Hub.next] at hnext
      split at hnext
      · rename_i haside
        obtain ⟨p, hp, rfl⟩ := Option.map_eq_some_iff.mp hnext
        obtain ⟨hsettled, hgrown⟩ := next_commands hs haside hp
        refine ⟨hsettled, fun o => ?_⟩
        simp only [Hub.view, Hub.row, Hub.notes]
        cases hrow : h.process.tracker.db.commands.get? o with
        | some c =>
            rw [hgrown.kept o c hrow, ← hrow]
            exact .still
        | none =>
            cases hnew : p.tracker.db.commands.get? o with
            | none =>
                rw [← hrow]
                exact .still
            | some c =>
                obtain ⟨hstate, huntouched⟩ := hgrown.fresh o c hrow hnew
                exact .created hrow hstate (Or.inr huntouched)
      · cases hnext
  | ready ready =>
      simp only [Hub.next] at hnext
      split at hnext <;> cases hnext
      exact hstill _ rfl rfl rfl
  | stop =>
      cases hnext
      exact hstill _ rfl rfl rfl
  | reboot bootId =>
      simp only [Hub.next] at hnext
      split at hnext <;> cases hnext
      exact hstill _ rfl rfl rfl
  | learn index =>
      simp only [Hub.next] at hnext
      split at hnext
      · cases hnext
      · split at hnext <;> cases hnext
        exact hstill _ rfl rfl rfl
  | crash active recent =>
      simp only [Hub.next] at hnext
      obtain ⟨p, hp, rfl⟩ := Option.map_eq_some_iff.mp hnext
      have hstored := next_stored ⟨hs.sync, hs.stored⟩ hp
      have htabled : Tabled (fun db => db.commands = h.process.tracker.db.commands) h.process.tracker := ⟨rfl, hs.saved⟩
      have hperforms : h.process.Performs (fun op => op.onCommands = false) (.restart active recent) := trivial
      have hafter := htabled.next (commands_stable _) ⟨hs.sync, hs.stored⟩ hperforms hp
      refine ⟨⟨hstored.1, hstored.2, hafter.saved.trans hafter.db.symm⟩, fun o => ?_⟩
      simp only [Hub.view, Hub.row, Hub.notes, hafter.db]
      exact .crashed

theorem settled_start (maxWorkflows : Nat) : Settled (commandMachine maxWorkflows).start.process :=
  ⟨.start maxWorkflows true, rfl, rfl⟩

end Steps

theorem commands_invariant {maxWorkflows : Nat} {P : Hub → Prop} {h : Hub}
    (h₀ : P (commandMachine maxWorkflows).start)
    (hstep : ∀ h a h', Settled h.process → P h → h.next a = some h' → (∀ o, Shift o h a (h'.view o)) → P h')
    (hreach : (commandMachine maxWorkflows).Reachable h) : Settled h.process ∧ P h := by
  refine hreach.invariant (P := fun h => Settled h.process ∧ P h) ⟨settled_start maxWorkflows, h₀⟩
    fun h a h' hboth hnext => ?_
  obtain ⟨hsettled, hshifts⟩ := next_shifts hboth.1 hnext
  exact ⟨hsettled, hstep h a h' hboth.1 hboth.2 hnext hshifts⟩

end GaHub.Conductor
