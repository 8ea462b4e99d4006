import GaHub.Conductor.Completion
import GaHub.Conductor.Frozen

namespace GaHub.Conductor

open Lib

def Op.onWorker : Op → Bool
  | .bindSubagent .. | .recordSubagentEvent .. => true
  | _ => false

-- The call carries an older generation of the worker than the recorded one.
def Op.stale (r : RequestId) (a : AgentId) (recorded : Int) : Op → Bool
  | .bindSubagent q b g _ => decide (q = r ∧ b = a ∧ g < recorded)
  | .recordSubagentEvent b _ (some g) .. => decide (b = a ∧ g < recorded)
  | _ => false

def WorkerEvent.status : WorkerEvent → Option WorkerStatus
  | .spawned | .started | .running | .reworked => some .running
  | .completed | .pendingReview => some .pending
  | .accepted => some .accepted
  | .rejected => some .rejected
  | .timeoutTotal => some .timeout
  | .failed => some .failed
  | .cancelled => some .cancelled
  | .killed => some .killed
  | .other _ => none

namespace WorkflowState

variable (w : WorkflowState)

def bound (a : AgentId) (g : Int) (now : Time) : WorkflowState :=
  if w.terminalEvent.isSome then w
  else ((w.bindWorker a g).completeIfReady now).getD (w.bindWorker a g)

def receive (a : AgentId) (ev : WorkerEvent) (error : String) (now : Time) : WorkflowState :=
  if w.terminalEvent.isSome then w else (w.applyEvent a ev error now).1

def told (a : AgentId) (ev : WorkerEvent) (g : Option Int) (error : String) (now : Time) : WorkflowState :=
  ((w.noteWorker a g).map fun noted => noted.receive a ev error now).getD w

-- The worker in a new generation, before anything is known of it.
def started (a : AgentId) (g : Int) : WorkflowState := { w with workers := w.workers.set a { generation := g } }

end WorkflowState

namespace Tracker

variable (t : Tracker)

def addressee (a : AgentId) (request : Option RequestId) : Option RequestId :=
  match request with
  | none => (t.requestForSubagent a).filter fun o => (t.workflows.get? o).isSome
  | some r =>
      if (t.find r).any (fun w => w.terminalEvent.isNone) && (t.foreignOwner (t.requestForSubagent a) r).isNone
      then some r else none

def moved (op : Op) (r : RequestId) (w : WorkflowState) : WorkflowState :=
  match op with
  | .bindSubagent q a g now => if q = r then w.bound a g now else w
  | .recordSubagentEvent a ev g request error now =>
      if t.addressee a request = some r then w.told a ev g error now else w
  | _ => w

def calls (cs : List (Op × Bool)) : Tracker := cs.foldl (fun t c => (t.call c.1 c.2).2) t

end Tracker

-- One call: no recorded generation goes back, a stale call leaves the workflow as
-- it is, and the event of a newer generation has its effect on a running worker.
structure Ordered (t : Tracker) (op : Op) (fault : Bool) : Prop where
  grows : ∀ r w a worker, t.find r = some w → w.workers.get? a = some worker →
    ∃ w' worker', (t.call op fault).2.find r = some w' ∧ w'.workers.get? a = some worker' ∧
      worker.generation ≤ worker'.generation
  inert : ∀ r w a worker, t.find r = some w → w.workers.get? a = some worker →
    op.stale r a worker.generation = true → (t.call op fault).2.find r = some w
  fresh : ∀ r w a worker ev g request error now, t.find r = some w → w.workers.get? a = some worker →
    op = .recordSubagentEvent a ev (some g) request error now → worker.generation < g →
    (t.call op fault).2.find r = some
      (if (t.closed && fault) = true ∨ t.addressee a request ≠ some r then w
       else (w.started a g).receive a ev error now)
  earned : ∀ r w a worker w' worker', t.find r = some w → w.workers.get? a = some worker →
    (t.call op fault).2.find r = some w' → w'.workers.get? a = some worker' →
    worker.generation < worker'.generation → worker'.state = .accepted →
    ∃ request error now, op = .recordSubagentEvent a .accepted (some worker'.generation) request error now

-- A bind of an older generation finds the worker running and the workflow in
-- another state than supervising.
def Tracker.unsettles (t : Tracker) (op : Op) (fault : Bool) : Prop :=
  ∃ r a g now w worker, op = .bindSubagent r a g now ∧ t.find r = some w ∧ w.workers.get? a = some worker ∧
    g < worker.generation ∧ worker.state = .running ∧ w.terminalEvent = none ∧ w.state ≠ .supervising ∧
    (t.closed && fault) = false

section Workers

variable {w : WorkflowState} {a b : AgentId} {g : Int} {now : Time}

theorem completeIfReady_workers (w : WorkflowState) (now : Time) :
    ((w.completeIfReady now).getD w).workers = w.workers := by
  cases h : w.completeIfReady now with
  | none => rfl
  | some w' =>
      obtain ⟨_, _, _, _, rfl⟩ := completeIfReady_some h
      rfl

theorem setWorker_workers (w : WorkflowState) (a : AgentId) (status : WorkerStatus) (b : AgentId) :
    (w.setWorker a status).workers.get? b =
      if b = a then (w.workers.get? a).map fun worker => { worker with state := status }
      else w.workers.get? b := by
  unfold WorkflowState.setWorker
  split
  · rename_i h
    by_cases hb : b = a
    · rw [if_pos hb, hb, h]
      rfl
    · rw [if_neg hb]
  · rename_i worker h
    dsimp only
    rw [Dict.get?_set, h]
    rfl

theorem observe_workers (w : WorkflowState) (a : AgentId) (ev : WorkerEvent) (error : String) (now : Time) :
    (w.observe a ev error now).1.workers =
      (ev.status.elim w fun status => w.setWorker a status).workers := by
  cases ev <;> rfl

theorem applyEvent_workers (w : WorkflowState) (a : AgentId) (ev : WorkerEvent) (error : String)
    (now : Time) : (w.applyEvent a ev error now).1.workers = (w.observe a ev error now).1.workers := by
  rcases applyEvent_eq w a ev error now with heq | hc
  · rw [heq]
  · have hsame := completeIfReady_workers (w.observe a ev error now).1 now
    rw [hc] at hsame
    exact hsame

theorem receive_workers (w : WorkflowState) (a : AgentId) (ev : WorkerEvent) (error : String) (now : Time)
    (b : AgentId) : (w.receive a ev error now).workers.get? b = w.workers.get? b ∨
      b = a ∧ ∃ status, ev.status = some status ∧ (w.receive a ev error now).workers.get? b =
        (w.workers.get? a).map fun worker => { worker with state := status } := by
  unfold WorkflowState.receive
  split
  · exact Or.inl rfl
  · rw [applyEvent_workers, observe_workers]
    cases hstatus : ev.status with
    | none => exact Or.inl rfl
    | some status =>
        simp only [Option.elim_some, setWorker_workers]
        by_cases hb : b = a
        · exact Or.inr ⟨hb, status, rfl, if_pos hb⟩
        · exact Or.inl (if_neg hb)

theorem bindWorker_workers (w : WorkflowState) (a : AgentId) (g : Int) (b : AgentId) :
    (w.bindWorker a g).workers.get? b = w.workers.get? b ∨
      b = a ∧ (∀ worker, w.workers.get? a = some worker → worker.generation < g) ∧
        (w.bindWorker a g).workers.get? b = some { generation := g } := by
  have hset : b ≠ a → (w.workers.set a { generation := g }).get? b = w.workers.get? b := fun hb =>
    Dict.get?_set_ne _ _ hb
  unfold WorkflowState.bindWorker
  split
  · rename_i h
    by_cases hb : b = a
    · exact Or.inr ⟨hb, by simp [h], by simp [hb]⟩
    · exact Or.inl (hset hb)
  · rename_i worker h
    split
    · rename_i hnewer
      by_cases hb : b = a
      · refine Or.inr ⟨hb, fun v hv => ?_, by simp [hb]⟩
        cases h.symm.trans hv
        exact hnewer
      · exact Or.inl (hset hb)
    · refine Or.inl ?_
      split <;> rfl

theorem bound_workers (w : WorkflowState) (a : AgentId) (g : Int) (now : Time) (b : AgentId) :
    (w.bound a g now).workers.get? b = w.workers.get? b ∨
      b = a ∧ (∀ worker, w.workers.get? a = some worker → worker.generation < g) ∧
        (w.bound a g now).workers.get? b = some { generation := g } := by
  unfold WorkflowState.bound
  split
  · exact Or.inl rfl
  · rw [completeIfReady_workers]
    exact bindWorker_workers w a g b

theorem noteWorker_recorded {worker : WorkerState} (h : w.workers.get? a = some worker) (g : Option Int) :
    w.noteWorker a g = if g.any (fun g => decide (g < worker.generation)) then none
      else some (g.elim w fun g => if worker.generation < g then w.started a g else w) := by
  unfold WorkflowState.noteWorker
  rw [h]
  cases g with
  | none => rfl
  | some g =>
      by_cases hstale : g < worker.generation
      · simp [hstale]
      · by_cases hnewer : worker.generation < g <;> simp [hstale, hnewer, WorkflowState.started]

-- A worker in the hands of one call: its generation grows or stays, and a
-- greater one is accepted only by the event that brings it.
structure Advance (op : Op) (a : AgentId) (worker worker' : WorkerState) : Prop where
  grows : worker.generation ≤ worker'.generation
  earned : worker.generation < worker'.generation → worker'.state = .accepted →
    ∃ request error now, op = .recordSubagentEvent a .accepted (some worker'.generation) request error now

theorem Advance.refl (op : Op) (a : AgentId) (worker : WorkerState) : Advance op a worker worker :=
  ⟨le_refl _, fun h => absurd h (lt_irrefl _)⟩

theorem receive_advance {op : Op} {worker : WorkerState} {ev : WorkerEvent} {error : String} {now : Time}
    (h : w.workers.get? b = some worker) : ∃ worker',
      (w.receive a ev error now).workers.get? b = some worker' ∧ Advance op b worker worker' := by
  rcases receive_workers w a ev error now b with hsame | ⟨rfl, status, _, hset⟩
  · exact ⟨worker, hsame.trans h, .refl op b worker⟩
  · rw [h] at hset
    exact ⟨_, hset, le_refl _, fun hlt => absurd hlt (lt_irrefl _)⟩

theorem started_advance {worker : WorkerState} {ev : WorkerEvent} {g : Int} {request : Option RequestId}
    {error : String} {now : Time} (h : w.workers.get? b = some worker) (hnewer : b = a → worker.generation < g) :
    ∃ worker', ((w.started a g).receive a ev error now).workers.get? b = some worker' ∧
      Advance (.recordSubagentEvent a ev (some g) request error now) b worker worker' := by
  by_cases hb : b = a
  · subst hb
    have hstarted : (w.started b g).workers.get? b = some { generation := g } := by
      simp [WorkflowState.started]
    rcases receive_workers (w.started b g) b ev error now b with hsame | ⟨_, status, hstatus, hset⟩
    · refine ⟨_, hsame.trans hstarted, le_of_lt (hnewer rfl), fun _ haccepted => ?_⟩
      cases haccepted
    · rw [hstarted] at hset
      refine ⟨_, hset, le_of_lt (hnewer rfl), fun _ haccepted => ⟨request, error, now, ?_⟩⟩
      have hev : ev = .accepted := by
        have hstatus' : ev.status = some .accepted := hstatus.trans (congrArg some haccepted)
        cases ev <;> first | rfl | cases hstatus'
      rw [hev]
  · have hother : (w.started a g).workers.get? b = some worker := by
      rw [← h]
      exact Dict.get?_set_ne _ _ hb
    exact receive_advance hother

theorem told_advance {worker : WorkerState} {ev : WorkerEvent} {g : Option Int} {request : Option RequestId}
    {error : String} {now : Time} (h : w.workers.get? b = some worker) :
    ∃ worker', (w.told a ev g error now).workers.get? b = some worker' ∧
      Advance (.recordSubagentEvent a ev g request error now) b worker worker' := by
  unfold WorkflowState.told
  cases hrecorded : w.workers.get? a with
  | none =>
      have hb : b ≠ a := by
        rintro rfl
        cases hrecorded.symm.trans h
      have hnote : w.noteWorker a g = some (w.started a (g.getD 0)) := by
        simp [WorkflowState.noteWorker, hrecorded, WorkflowState.started]
      have hother : (w.started a (g.getD 0)).workers.get? b = some worker := by
        rw [← h]
        exact Dict.get?_set_ne _ _ hb
      rw [hnote]
      exact receive_advance hother
  | some recorded =>
      rw [noteWorker_recorded hrecorded]
      split
      · exact ⟨worker, h, .refl _ b worker⟩
      · cases g with
        | none => exact receive_advance h
        | some g =>
            simp only [Option.map_some, Option.getD_some, Option.elim_some]
            split
            · rename_i hnewer
              refine started_advance h fun hb => ?_
              subst hb
              cases hrecorded.symm.trans h
              exact hnewer
            · exact receive_advance h

theorem moved_advance (t : Tracker) (op : Op) (r : RequestId) {worker : WorkerState}
    (h : w.workers.get? b = some worker) :
    ∃ worker', (t.moved op r w).workers.get? b = some worker' ∧ Advance op b worker worker' := by
  unfold Tracker.moved
  split
  · rename_i q a g now
    split
    · rcases bound_workers w a g now b with hsame | ⟨rfl, hnewer, hset⟩
      · exact ⟨worker, hsame.trans h, .refl _ b worker⟩
      · refine ⟨_, hset, le_of_lt (hnewer worker h), fun _ haccepted => ?_⟩
        cases haccepted
    · exact ⟨worker, h, .refl _ b worker⟩
  · split
    · exact told_advance h
    · exact ⟨worker, h, .refl _ b worker⟩
  · exact ⟨worker, h, .refl _ b worker⟩

end Workers

section Calls

variable {t u : Tracker} {op : Op} {r : RequestId} {w : WorkflowState}

theorem moved_same (op : Op) (h : ∀ w, u.moved op r w = w) : (u.find r).map (u.moved op r) = u.find r := by
  rw [show u.moved op r = id from funext h, Option.map_id]
  rfl

theorem bindSubagent_find (u : Tracker) (q : RequestId) (a : AgentId) (g : Int) (now : Time) (r : RequestId) :
    (u.bindSubagent q a g now).2.find r =
      (u.find r).map (u.moved (.bindSubagent q a g now) r) := by
  unfold Tracker.bindSubagent
  split
  · rename_i hnone
    have hfind : u.find q = none := by simpa [Tracker.require] using hnone
    by_cases hr : q = r
    · subst hr
      rw [hfind]
      rfl
    · exact (moved_same (.bindSubagent q a g now) fun w => if_neg hr).symm
  · rename_i w u₁ hsome
    obtain ⟨hfind, rfl⟩ := require_eq hsome
    by_cases hr : q = r
    · subst hr
      rw [hfind, Option.map_some, Tracker.moved, if_pos rfl, WorkflowState.bound]
      split
      · rw [touch_find, hold_find, if_pos rfl]
      · dsimp only
        cases (w.bindWorker a g).completeIfReady now <;> exact (hold_find ..).trans (if_pos rfl)
    · rw [moved_same (.bindSubagent q a g now) fun w => if_neg hr]
      have hloaded : ((u.hold q w).touch q).find r = u.find r := by
        rw [touch_find, hold_find, if_neg (Ne.symm hr)]
      have hother : ∀ v, (((u.hold q w).touch q).hold q v).find r = u.find r := fun v => by
        rw [hold_find, if_neg (Ne.symm hr), hloaded]
      split
      · exact hloaded
      · dsimp only
        cases (w.bindWorker a g).completeIfReady now <;> exact hother _

theorem observe_told {o : RequestId} (hheld : u.workflows.get? o = some w) (a : AgentId) (ev : WorkerEvent)
    (g : Option Int) (error : String) (now : Time) :
    (u.observe o a ev g error now).2.find o = some (w.told a ev g error now) := by
  simp only [Tracker.observe, hheld, WorkflowState.told]
  cases w.noteWorker a g with
  | none =>
      rw [touch_find, Tracker.find_of_held hheld]
      rfl
  | some noted =>
      simp only [Option.map_some, Option.getD_some, WorkflowState.receive]
      split
      · exact (hold_find ..).trans (if_pos rfl)
      · exact (hold_find ..).trans (if_pos rfl)

theorem event_find (u : Tracker) (a : AgentId) (ev : WorkerEvent) (g : Option Int)
    (request : Option RequestId) (error : String) (now : Time) (r : RequestId) :
    (u.recordSubagentEvent a ev g request error now).2.find r =
      (u.find r).map (u.moved (.recordSubagentEvent a ev g request error now) r) := by
  have hunmoved : u.addressee a request ≠ some r →
      (u.find r).map (u.moved (.recordSubagentEvent a ev g request error now) r) = u.find r := fun h =>
    moved_same _ fun w => if_neg h
  unfold Tracker.recordSubagentEvent
  cases request with
  | none =>
      dsimp only
      cases howner : u.requestForSubagent a with
      | none => exact (hunmoved (by simp [Tracker.addressee, howner])).symm
      | some o =>
          dsimp only
          cases hheld : u.workflows.get? o with
          | none =>
              rw [hunmoved fun h => by simp [Tracker.addressee, howner, hheld, Option.filter] at h]
              simp [Tracker.observe, hheld]
          | some w =>
              have haddressee : u.addressee a none = some o := by simp [Tracker.addressee, howner, hheld]
              by_cases hr : r = o
              · subst hr
                rw [observe_told hheld, Tracker.find_of_held hheld, Option.map_some, Tracker.moved,
                  if_pos haddressee]
              · rw [observe_find hr, hunmoved]
                rw [haddressee]
                simpa using Ne.symm hr
  | some q =>
      dsimp only
      split
      · rename_i hnone
        have hfind : u.find q = none := by simpa [Tracker.require] using hnone
        exact (hunmoved (by simp [Tracker.addressee, hfind])).symm
      · rename_i w u₁ hsome
        obtain ⟨hfind, rfl⟩ := require_eq hsome
        have hloaded := loaded_find hfind
        have hforeign : ((u.hold q w).touch q).foreignOwner (u.requestForSubagent a) q =
            u.foreignOwner (u.requestForSubagent a) q := by
          simp only [Tracker.foreignOwner, hloaded]
        rw [hforeign]
        split
        · rename_i hother
          rw [hloaded, hunmoved]
          simp [Tracker.addressee, hother]
        · rename_i hown
          split
          · rename_i hterm
            have hclosed : w.terminalEvent.isNone = false := by simpa using hterm
            rw [hloaded, hunmoved]
            simp [Tracker.addressee, hfind, hclosed]
          · rename_i hterm
            have hopen : w.terminalEvent = none := by simpa using hterm
            have haddressee : u.addressee a (some q) = some q := by
              simp [Tracker.addressee, hfind, hopen, hown]
            by_cases hr : r = q
            · subst hr
              rw [observe_told (w := w) (by simp), hfind, Option.map_some, Tracker.moved, if_pos haddressee]
            · rw [observe_find hr, hunmoved]
              · exact hloaded r
              · rw [haddressee]
                simpa using Ne.symm hr

theorem run_find (hop : op.onWorker = true) (r : RequestId) :
    (u.run op).2.find r = (u.find r).map (u.moved op r) := by
  cases op with
  | bindSubagent q a g now => exact bindSubagent_find u q a g now r
  | recordSubagentEvent a ev g request error now => exact event_find u a ev g request error now r
  | _ => cases hop

theorem refused_find {e : ConductorError} (hop : op.onWorker = true) (h : (u.run op).1 = .error e)
    (r : RequestId) : (u.run op).2.find r = u.find r := by
  cases op with
  | bindSubagent q a g now =>
      simp only [Tracker.run, Tracker.bindSubagent] at h ⊢
      split at h
      · rfl
      · rename_i w u₁ hsome
        obtain ⟨hfind, rfl⟩ := require_eq hsome
        split at h
        · rename_i hterm
          simp only [if_pos hterm]
          exact loaded_find hfind r
        · split at h <;> cases h
  | recordSubagentEvent a ev g request error now =>
      have hobserve : ∀ (v : Tracker) o, (v.observe o a ev g error now).1 ≠ .error e := fun v o herr => by
        unfold Tracker.observe at herr
        split at herr
        · cases herr
        · dsimp only at herr
          split at herr
          · cases herr
          · split at herr <;> cases herr
      simp only [Tracker.run, Tracker.recordSubagentEvent] at h ⊢
      cases request with
      | none =>
          dsimp only at h
          split at h
          · cases h
          · exact absurd h (hobserve _ _)
      | some q =>
          dsimp only at h ⊢
          split at h
          · rfl
          · rename_i w u₁ hsome
            obtain ⟨hfind, rfl⟩ := require_eq hsome
            split at h
            · exact loaded_find hfind r
            · split at h
              · cases h
              · exact absurd h (hobserve _ _)
  | _ => cases hop

theorem moved_like (h : Like t u) (op : Op) (r : RequestId) : u.moved op r = t.moved op r := by
  have haddressee : ∀ a request, u.addressee a request = t.addressee a request := fun a request => by
    unfold Tracker.addressee
    rw [h.requestForSubagent, h.workflows]
    simp only [Tracker.foreignOwner, h.find]
    cases request <;> rfl
  funext w
  unfold Tracker.moved
  split
  · rfl
  · rw [haddressee]
  · rfl

theorem call_find (hsync : Synced t) (hop : op.onWorker = true) (fault : Bool) (r : RequestId) :
    (t.call op fault).2.find r = if (t.closed && fault) = true then t.find r
      else (t.find r).map (t.moved op r) := by
  have hopens : op.opens t = true := by cases op <;> first | rfl | cases hop
  cases hclosed : t.closed with
  | false =>
      have hcall : t.call op fault = t.run op := by simp [Tracker.call, hclosed]
      rw [hcall, Bool.false_and, if_neg Bool.false_ne_true, run_find hop]
  | true =>
      have hbegin := hsync.begin hclosed
      have hready := ready_begin t
      have hsync' : Synced (t.begin.run op).2 := run_synced hbegin hready
      have hwithin : Within t.begin (t.begin.run op).2 := run_within hready hbegin.named
      obtain ⟨s, hs, _⟩ := closed_store hclosed
      have hopen : (t.begin.run op).2.txn.isSome = true := by
        rw [hwithin.txn]
        simp [Tracker.begin, Tracker.txn, hs]
      have hundo : (t.begin.run op).2.rollback.find r = t.find r := rollback_find hsync hclosed hsync' hwithin r
      have hbody : (t.begin.run op).2.find r = (t.find r).map (t.moved op r) := by
        rw [run_find hop, moved_like (like_begin t), (like_begin t).find]
      simp only [Tracker.call, hclosed, hopens, Bool.and_self, if_true, Bool.true_and]
      cases hrun : t.begin.run op with
      | mk result v =>
          rw [hrun] at hundo hbody hsync' hopen
          cases result with
          | error e =>
              have hkept : v.find r = t.find r := by
                have hrefused := @refused_find t.begin op e hop (by rw [hrun]) r
                rw [hrun] at hrefused
                exact hrefused.trans ((like_begin t).find r)
              rw [← hbody, hkept]
              simpa using hundo
          | ok reply =>
              cases fault with
              | true => exact hundo
              | false => exact (commit_find hsync' hopen r).trans hbody

theorem call_advance (hsync : Synced t) (hop : op.onWorker = true) (fault : Bool) {a : AgentId}
    {worker : WorkerState} (hfind : t.find r = some w) (hworker : w.workers.get? a = some worker) :
    ∃ w' worker', (t.call op fault).2.find r = some w' ∧ w'.workers.get? a = some worker' ∧
      Advance op a worker worker' := by
  rw [call_find hsync hop, hfind]
  split
  · exact ⟨w, worker, rfl, hworker, .refl op a worker⟩
  · obtain ⟨worker', hget, hadvance⟩ := moved_advance t op r hworker
    exact ⟨_, worker', rfl, hget, hadvance⟩

theorem stale_bind {a : AgentId} {g : Int} {now : Time} {worker : WorkerState} (hsettled : w.Settled)
    (hworker : w.workers.get? a = some worker) (hstale : g < worker.generation) :
    w.bound a g now = if w.terminalEvent = none ∧ worker.state = .running
      then { w with state := .supervising } else w := by
  unfold WorkflowState.bound
  by_cases hopen : w.terminalEvent = none
  · have hitem : (w.bindWorker a g).finalItem = none := by
      obtain ⟨workers, state, heq⟩ := bindWorker_eq w a g
      rw [heq]
      exact Settled.unfinished hsettled hopen
    rw [if_neg (by simp [hopen]), completeIfReady_unfinished hitem, Option.getD_none]
    simp only [WorkflowState.bindWorker, hworker, if_neg (not_lt_of_gt hstale), hopen, true_and]
  · rw [if_pos (Option.isSome_iff_ne_none.mpr hopen), if_neg (fun h => hopen h.1)]

theorem stale_event {a : AgentId} {ev : WorkerEvent} {g : Int} {error : String} {now : Time}
    {worker : WorkerState} (hworker : w.workers.get? a = some worker) (hstale : g < worker.generation) :
    w.told a ev (some g) error now = w := by
  simp [WorkflowState.told, noteWorker_recorded hworker, hstale]

theorem fresh_event {a : AgentId} {ev : WorkerEvent} {g : Int} {error : String} {now : Time}
    {worker : WorkerState} (hworker : w.workers.get? a = some worker) (hnewer : worker.generation < g) :
    w.told a ev (some g) error now = (w.started a g).receive a ev error now := by
  simp [WorkflowState.told, noteWorker_recorded hworker, hnewer, not_lt_of_gt hnewer]

theorem ordered_iff (hsync : Synced t) (hsettled : t.FindsSettled) (hop : op.onWorker = true) (fault : Bool) :
    Ordered t op fault ↔ ¬ t.unsettles op fault := by
  constructor
  · rintro hordered ⟨r, a, g, now, w, worker, rfl, hfind, hworker, hstale, hrunning, hopen, hstate, hcommits⟩
    have hkept := hordered.inert r w a worker hfind hworker (by simpa [Op.stale] using hstale)
    rw [call_find hsync hop, hcommits, if_neg Bool.false_ne_true, hfind, Option.map_some, Tracker.moved,
      if_pos rfl, stale_bind (hsettled r w hfind) hworker hstale, if_pos ⟨hopen, hrunning⟩] at hkept
    exact hstate (congrArg WorkflowState.state (Option.some.inj hkept)).symm
  · intro hsettles
    refine ⟨?_, ?_, ?_, ?_⟩
    · intro r w a worker hfind hworker
      obtain ⟨w', worker', hfind', hworker', hadvance⟩ := call_advance hsync hop fault hfind hworker
      exact ⟨w', worker', hfind', hworker', hadvance.grows⟩
    · intro r w a worker hfind hworker hstale
      rw [call_find hsync hop, hfind]
      split
      · rfl
      · rename_i hcommits
        refine congrArg some ?_
        unfold Op.stale at hstale
        split at hstale
        · obtain ⟨rfl, rfl, hlt⟩ := of_decide_eq_true hstale
          rw [Tracker.moved, if_pos rfl, stale_bind (hsettled _ w hfind) hworker hlt]
          split
          · rename_i hrunning
            by_cases hstate : w.state = .supervising
            · rw [← hstate]
            · exact absurd ⟨_, _, _, _, w, worker, rfl, hfind, hworker, hlt, hrunning.2, hrunning.1, hstate,
                by simpa using hcommits⟩ hsettles
          · rfl
        · obtain ⟨rfl, hlt⟩ := of_decide_eq_true hstale
          simp only [Tracker.moved]
          split
          · exact stale_event hworker hlt
          · rfl
        · cases hstale
    · rintro r w a worker ev g request error now hfind hworker rfl hnewer
      rw [call_find hsync hop, hfind]
      by_cases hcommits : (t.closed && fault) = true
      · rw [if_pos hcommits, if_pos (Or.inl hcommits)]
      · rw [if_neg hcommits, Option.map_some, Tracker.moved]
        by_cases haddressee : t.addressee a request = some r
        · rw [if_pos haddressee, if_neg (not_or.mpr ⟨hcommits, not_not.mpr haddressee⟩),
            fresh_event hworker hnewer]
        · rw [if_neg haddressee, if_pos (Or.inr haddressee)]
    · intro r w a worker w' worker' hfind hworker hfind' hworker' hnewer haccepted
      obtain ⟨w₁, worker₁, hfind₁, hworker₁, hadvance⟩ := call_advance hsync hop fault hfind hworker
      cases hfind₁.symm.trans hfind'
      cases hworker₁.symm.trans hworker'
      exact hadvance.earned hnewer haccepted

end Calls

section Runs

variable {maxWorkflows : Nat} {stored : Bool} {t : Tracker} {calls : List (Op × Bool)}

theorem calls_reachable (h : (conductorMachine maxWorkflows stored).Reachable t)
    (hcalls : ∀ c ∈ calls, c.1.onWorker = true) : (conductorMachine maxWorkflows stored).Reachable (t.calls calls) := by
  induction calls generalizing t with
  | nil => exact h
  | cons c cs ih =>
      refine ih (Machine.Reachable.next (a := .call c.1 c.2) h ?_) fun d hd => hcalls d (List.mem_cons_of_mem _ hd)
      have hstore : c.1.onStore = false := by
        have honWorker := hcalls c List.mem_cons_self
        cases hc : c.1 <;> first | rfl | (rw [hc] at honWorker; cases honWorker)
      simp [conductorMachine, Tracker.next, hstore]

theorem reachable_settled (h : (conductorMachine maxWorkflows stored).Reachable t) :
    Synced t ∧ t.FindsSettled := by
  obtain ⟨hsync, hsealed⟩ := conductor_pieces (P := Sealed) (.start maxWorkflows stored)
    (fun t t' hsync hsealed hpiece => hsealed.piece hsync hpiece) h
  exact ⟨hsync, fun r w hfind => hsealed.find hsync hfind⟩

theorem calls_grow (h : (conductorMachine maxWorkflows stored).Reachable t)
    (hcalls : ∀ c ∈ calls, c.1.onWorker = true) {r : RequestId} {w : WorkflowState} {a : AgentId}
    {worker : WorkerState} (hfind : t.find r = some w) (hworker : w.workers.get? a = some worker) :
    ∃ w' worker', (t.calls calls).find r = some w' ∧ w'.workers.get? a = some worker' ∧
      worker.generation ≤ worker'.generation := by
  induction calls generalizing t w worker with
  | nil => exact ⟨w, worker, hfind, hworker, le_refl _⟩
  | cons c cs ih =>
      have hop := hcalls c List.mem_cons_self
      have hrest : ∀ d ∈ cs, d.1.onWorker = true := fun d hd => hcalls d (List.mem_cons_of_mem _ hd)
      obtain ⟨w₁, worker₁, hfind₁, hworker₁, hadvance⟩ :=
        call_advance (reachable_settled h).1 hop c.2 hfind hworker
      have hreach : (conductorMachine maxWorkflows stored).Reachable (t.calls [c]) :=
        calls_reachable h fun d hd => List.mem_singleton.mp hd ▸ hop
      obtain ⟨w', worker', hfind', hworker', hle⟩ := ih hreach hrest hfind₁ hworker₁
      exact ⟨w', worker', hfind', hworker', hadvance.grows.trans hle⟩

end Runs

-- Along binds and worker events no recorded generation goes back. The calls are
-- all in order exactly when no bind of an older generation meets its worker
-- running in a workflow that is reworking, awaiting review or failed.
theorem worker_calls_ordered_iff {maxWorkflows : Nat} {stored : Bool} {t : Tracker} {calls : List (Op × Bool)}
    (h : (conductorMachine maxWorkflows stored).Reachable t) (hcalls : ∀ c ∈ calls, c.1.onWorker = true) :
    (∀ r w a worker, t.find r = some w → w.workers.get? a = some worker →
      ∃ w' worker', (t.calls calls).find r = some w' ∧ w'.workers.get? a = some worker' ∧
        worker.generation ≤ worker'.generation) ∧
    ((∀ pre c post, calls = pre ++ c :: post → Ordered (t.calls pre) c.1 c.2) ↔
      ∀ pre c post, calls = pre ++ c :: post → ¬ (t.calls pre).unsettles c.1 c.2) := by
  refine ⟨fun r w a worker => calls_grow h hcalls, ?_⟩
  have hstep : ∀ pre c post, calls = pre ++ c :: post →
      (Ordered (t.calls pre) c.1 c.2 ↔ ¬ (t.calls pre).unsettles c.1 c.2) := by
    rintro pre c post rfl
    have hreach : (conductorMachine maxWorkflows stored).Reachable (t.calls pre) :=
      calls_reachable h fun d hd => hcalls d (List.mem_append_left _ hd)
    obtain ⟨hsync, hsettled⟩ := reachable_settled hreach
    exact ordered_iff hsync hsettled (hcalls c (by simp)) c.2
  constructor
  · intro hordered pre c post hsplit
    exact (hstep pre c post hsplit).mp (hordered pre c post hsplit)
  · intro hsettles pre c post hsplit
    exact (hstep pre c post hsplit).mpr (hsettles pre c post hsplit)

def reworkedRun : List Action :=
  [.call (.admitRequest "a" .admitted none 1) false, .call (.bindSubagent "a" "x" 1 2) false,
   .call (.bindSubagent "a" "x" 2 3) false,
   .call (.recordSubagentEvent "x" .reworked (some 2) none "" 4) false]

-- Events of both generations, then a bind the worker has answered already.
def lateCalls : List (Op × Bool) :=
  [(.recordSubagentEvent "x" .accepted (some 1) none "" 5, false),
   (.recordSubagentEvent "x" .started (some 3) none "" 6, false), (.bindSubagent "a" "x" 2 7, false)]

theorem worker_calls_ordered_reworkedRun : ∃ t w,
    (conductorMachine 3 true).run (conductorMachine 3 true).start reworkedRun = some t ∧
      (∀ pre c post, lateCalls = pre ++ c :: post → Ordered (t.calls pre) c.1 c.2) ∧
      (t.calls lateCalls).find "a" = some w ∧ w.workers.get? "x" = some ⟨3, .running⟩ := by
  refine ⟨_, _, rfl, ?_, rfl, rfl⟩
  refine ((@worker_calls_ordered_iff 3 true _ lateCalls ⟨reworkedRun, rfl⟩ (by decide)).2).mpr ?_
  rintro pre c post hsplit ⟨r, a, g, now, w, worker, hop, hfind, _, _, _, _, hstate, _⟩
  obtain _ | ⟨d, _ | ⟨e, _ | ⟨f, pre⟩⟩⟩ := pre
  · cases hsplit
    cases hop
  · cases hsplit
    cases hop
  · cases hsplit
    cases hop
    cases hfind
    exact hstate rfl
  · cases pre <;> cases hsplit

-- A bind of the first generation that returns late puts a reworking workflow back.
theorem worker_calls_not_ordered : ∃ t,
    (conductorMachine 3 true).run (conductorMachine 3 true).start reworkedRun = some t ∧
      ¬ Ordered t (.bindSubagent "a" "x" 1 5) false := by
  refine ⟨_, rfl, fun hordered => ?_⟩
  have hkept := hordered.inert "a" _ "x" ⟨2, .running⟩ rfl rfl rfl
  exact absurd (congrArg (Option.map WorkflowState.state) hkept) (by decide)

end GaHub.Conductor
