import GaHub.Conductor.Calls

namespace GaHub.Conductor

open Lib

def WorkflowState.completed (w : WorkflowState) : Bool :=
  decide (w.terminalEvent = some .workflowCompleted)

def WorkflowState.Settled (w : WorkflowState) : Prop := w.finalItem.isSome = w.completed

-- The completed workflows an answer reports. `bind_subagent` returns the payload alone.
def Reply.completions : Reply → List Payload
  | .completion payload => payload.toList
  | .event _ emitted | .transition emitted =>
      emitted.toList.filterMap fun e => if e.1 = .workflowCompleted then some e.2 else none
  | .transitions emitted =>
      emitted.filterMap fun e => if e.1 = .workflowCompleted then some e.2 else none
  | _ => []

def completions : Except ConductorError Reply → List Payload
  | .ok reply => reply.completions
  | .error _ => []

def Closes (t t' : Tracker) (r : RequestId) : Bool :=
  (t'.find r).any WorkflowState.completed && !(t.find r).any WorkflowState.completed

section Workflows

variable {w w' noted : WorkflowState} {op : Op} {now : Time}

theorem Settled.unfinished (h : w.Settled) (hopen : w.terminalEvent = none) : w.finalItem = none := by
  have hitem : w.finalItem.isSome = false := by
    rw [h]
    simp [WorkflowState.completed, hopen]
  simpa using hitem

theorem completeIfReady_unfinished (h : w.finalItem = none) (now : Time) : w.completeIfReady now = none := by
  simp [WorkflowState.completeIfReady, h]

theorem completeIfReady_final (h : w.assertReadyForFinal = .ok ()) (item : Item) (now : Time) :
    { w with finalItem := some item }.completeIfReady now = some { w with
      finalItem := some item
      state := .completed
      completedAt := some now
      terminalEvent := some .workflowCompleted } := by
  obtain ⟨hopen, hclosed, haccepted⟩ := assertReadyForFinal_ok h
  have hworkers : (!w.workers.values.isEmpty && !w.closed) = false := by simp [hclosed]
  have hsome : (!w.workers.values.isEmpty && !w.someAccepted) = false := by
    by_cases hempty : w.workers.values = []
    · simp [hempty]
    · simp [haccepted hempty]
  unfold WorkflowState.completeIfReady
  rw [if_neg (by simp [hopen])]
  exact (if_neg (ne_true_of_eq_false hworkers)).trans (if_neg (ne_true_of_eq_false hsome))

theorem observe_fields (w : WorkflowState) (a : AgentId) (ev : WorkerEvent) (error : String) (now : Time) :
    (w.observe a ev error now).1.finalItem = w.finalItem ∧
      ((w.observe a ev error now).1.terminalEvent = w.terminalEvent ∨
        (w.observe a ev error now).1.terminalEvent = some .workflowFailed) ∧
      ∀ tr, (w.observe a ev error now).2 = some tr → tr.1 ≠ .workflowCompleted := by
  have hset : ∀ status, (w.setWorker a status).finalItem = w.finalItem ∧
      (w.setWorker a status).terminalEvent = w.terminalEvent := fun status => by
    obtain ⟨workers, heq⟩ := setWorker_eq w a status
    rw [heq]
    exact ⟨rfl, rfl⟩
  cases ev <;>
    simp [WorkflowState.observe, WorkflowState.closeFailed, (hset _).1, (hset _).2]

theorem applyEvent_unfinished (hitem : w.finalItem = none) (hopen : w.terminalEvent = none) (a : AgentId)
    (ev : WorkerEvent) (error : String) :
    (w.applyEvent a ev error now).1.finalItem = none ∧
      (w.applyEvent a ev error now).1.completed = false ∧
      ∀ tr, (w.applyEvent a ev error now).2 = some tr → tr.1 ≠ .workflowCompleted := by
  obtain ⟨hfinal, hterm, htopic⟩ := observe_fields w a ev error now
  have hnone : (w.observe a ev error now).1.completeIfReady now = none :=
    completeIfReady_unfinished (hfinal.trans hitem) now
  have happly : w.applyEvent a ev error now = w.observe a ev error now := by
    unfold WorkflowState.applyEvent
    rcases hobs : w.observe a ev error now with ⟨observed, transition⟩
    rw [hobs] at hnone
    cases transition with
    | some tr => rfl
    | none => simp only [hnone]
  rw [happly]
  refine ⟨hfinal.trans hitem, ?_, htopic⟩
  rw [hopen] at hterm
  rcases hterm with hterm | hterm <;> simp [WorkflowState.completed, hterm]

theorem change_settled (h : w.Settled) (hchange : Change op w w') :
    w'.Settled ∧ (w'.completed = true → w.completed = true ∨ ∃ r item now, op = .recordFinal r item now) := by
  -- most changes leave both fields alone
  have hsame : ∀ v : WorkflowState, v.finalItem = w.finalItem → v.terminalEvent = w.terminalEvent →
      v.Settled ∧ (v.completed = true → w.completed = true ∨ ∃ r item now, op = .recordFinal r item now) := by
    intro v hitem hterm
    have hcompleted : v.completed = w.completed := by rw [WorkflowState.completed, hterm]; rfl
    rw [WorkflowState.Settled, hitem, hcompleted]
    exact ⟨h, Or.inl⟩
  have hopenly : ∀ v : WorkflowState, v.finalItem = none → v.completed = false →
      v.Settled ∧ (v.completed = true → w.completed = true ∨ ∃ r item now, op = .recordFinal r item now) := by
    intro v hitem hopen
    rw [WorkflowState.Settled, hitem, hopen]
    exact ⟨rfl, fun hfalse => by cases hfalse⟩
  cases hchange with
  | titled =>
      unfold WorkflowState.setTitle
      split <;> exact hsame _ rfl rfl
  | confirmed => exact hsame _ rfl rfl
  | reopened _ => exact hopenly _ rfl rfl
  | @bound _ a g now _ _ hopen hw =>
      obtain ⟨workers, state, heq⟩ := bindWorker_eq w a g
      have hitem : (w.bindWorker a g).finalItem = none := by
        rw [heq]
        exact Settled.unfinished h hopen
      rw [hw, completeIfReady_unfinished hitem, Option.getD_none, heq]
      exact hsame _ rfl rfl
  | @observed a ev g request error now _ noted hopen hnote =>
      obtain ⟨workers, rfl⟩ := noteWorker_eq hnote
      obtain ⟨hitem, hcompleted, _⟩ := @applyEvent_unfinished { w with workers } now
        (Settled.unfinished h hopen) hopen a ev error
      exact hopenly _ hitem hcompleted
  | disturbed _ hnote =>
      obtain ⟨workers, rfl⟩ := noteWorker_eq hnote
      exact hsame _ rfl rfl
  | final hready hw =>
      rw [hw, completeIfReady_final hready]
      exact ⟨rfl, fun _ => Or.inr ⟨_, _, _, rfl⟩⟩
  | failed hopen =>
      have hitem := Settled.unfinished h hopen
      exact hopenly _ hitem rfl
  | abandoned hstranded =>
      simp only [WorkflowState.stranded, Bool.and_eq_true, Option.isNone_iff_eq_none] at hstranded
      have hitem := Settled.unfinished h hstranded.1.1
      exact hopenly _ hitem rfl

end Workflows

-- Everything a lookup, a rollback or a restart can bring back is settled.
structure Sealed (t : Tracker) : Prop where
  held : ∀ r w, t.workflows.get? r = some w → w.Settled
  saved : ∀ r row, t.saved.workflows.get? r = some row → (WorkflowState.decodeState row).Settled

section Sealed

variable {t t' : Tracker} {op : Op} {r : RequestId} {w : WorkflowState}

theorem Sealed.row (h : Sealed t) (hsync : Synced t) {row : Row} (hrow : t.rows.get? r = some row) :
    (WorkflowState.decodeState row).Settled := h.saved r row (hsync.shrunk r row hrow)

theorem Sealed.find (h : Sealed t) (hsync : Synced t) (hfind : t.find r = some w) : w.Settled := by
  cases hheld : t.workflows.get? r with
  | some v =>
      cases (Tracker.find_of_held hheld).symm.trans hfind
      exact h.held r w hheld
  | none =>
      cases hrow : t.rows.get? r with
      | none => cases (Tracker.find_eq_none.mpr ⟨hheld, hrow⟩).symm.trans hfind
      | some row =>
          cases (Tracker.find_of_row hheld hrow).symm.trans hfind
          exact h.row hsync hrow

theorem Sealed.hold (h : Sealed t) (hw : w.Settled) : Sealed (t.hold r w) := by
  refine ⟨fun q v hv => ?_, h.saved⟩
  rw [Tracker.hold_workflows, Dict.get?_set] at hv
  split at hv
  · cases hv
    exact hw
  · exact h.held q v hv

theorem Sealed.touch (h : Sealed t) (r : RequestId) : Sealed (t.touch r) :=
  ⟨h.held, by rw [Tracker.touch_saved]; exact h.saved⟩

theorem Sealed.of_closed (hsync : Synced t') (hclosed : t'.closed = true)
    (hrows : ∀ r row, t'.rows.get? r = some row → (WorkflowState.decodeState row).Settled) : Sealed t' := by
  obtain ⟨s, hs, hx⟩ := closed_store hclosed
  have hsaved : t'.saved.workflows = t'.rows := by
    simp [Tracker.saved, Tracker.txn, Tracker.rows, hs, hx]
  refine ⟨fun r w hw => ?_, hsaved ▸ hrows⟩
  have hsettled := hrows r _ (hsync.row_of_held hclosed hw)
  rwa [WorkflowState.decodeState_asdict] at hsettled

theorem Sealed.arrive (h : Sealed t) (hsync : Synced t)
    (hready : t.Ready ∨ ∃ r, op = .assertReadyForFinal r) (harr : Arrival op t t') : Sealed t' := by
  cases harr with
  | stayed _ _ _ => exact h
  | held _ _ | probed _ _ _ => exact h.touch _
  | loaded _ _ hrow => exact (h.hold (h.row hsync hrow)).touch _
  | created _ _ _ _ hopen hitem _ =>
      refine (h.touch _).hold ?_
      simp [WorkflowState.Settled, WorkflowState.completed, hopen, hitem]
  | @forgotten q allow hop _ =>
      have hedit : t.Ready := hready.resolve_right fun ⟨r, hr⟩ => by
        rw [hr] at hop
        cases hop
      refine ⟨fun r w hw => ?_, fun r row hrow => ?_⟩
      · rw [forget_workflows] at hw
        split at hw
        · cases hw
        · exact h.held r w hw
      · cases hs : t.store with
        | none =>
            rw [forgetWorkflow_eq] at hrow
            simp [Tracker.saved, Tracker.txn, Tracker.db, Tracker.withDb, hs] at hrow
        | some s =>
            rw [forget_saved hedit (by simp [hs])] at hrow
            exact h.saved r row hrow

theorem Sealed.edit (h : Sealed t) (hedit : Edit op t t') : Sealed t' := by
  cases hedit with
  | touched _ => exact h.touch _
  | changed hheld _ hchange => exact h.hold (change_settled (h.held _ _ hheld) hchange).1
  | owned => exact ⟨h.held, h.saved⟩
  | pruned _ => exact ⟨fun r w hw => h.held r w (prune_held hw), h.saved⟩

theorem Sealed.piece (h : Sealed t) (hsync : Synced t) (hpiece : Piece (fun _ => True) t t') :
    Sealed t' := by
  have hsync' := hsync.piece hpiece
  cases hpiece with
  | arrived hready harr => exact h.arrive hsync hready harr
  | edited hedit => exact h.edit hedit
  | aside ha => exact ⟨ha.workflows ▸ h.held, ha.saved ▸ h.saved⟩
  | begun hclosed =>
      obtain ⟨s, hs, hx⟩ := closed_store hclosed
      have hsaved : t.begin.saved = t.saved := by
        simp [Tracker.saved, Tracker.txn, Tracker.begin, Tracker.db, hs, hx]
      exact ⟨h.held, hsaved ▸ h.saved⟩
  | committed hopen =>
      refine .of_closed hsync' (commit_closed hopen) fun r row hrow => ?_
      rw [commit_rows hsync hopen] at hrow
      cases hheld : t.workflows.get? r with
      | none =>
          rw [hheld] at hrow
          exact h.row hsync hrow
      | some w =>
          rw [hheld] at hrow
          cases hrow
          rw [WorkflowState.decodeState_asdict]
          exact h.held r w hheld
  | rolledBack hopen _ =>
      refine .of_closed hsync' (rollback_closed hopen) ?_
      rw [show t.rollback.rows = t.saved.workflows from congrArg Db.workflows (rollback_db hopen)]
      exact h.saved
  | restarted hs _ =>
      refine .of_closed hsync' rfl ?_
      rw [restart_rows hs]
      exact h.saved

end Sealed

def Tracker.FindsSettled (t : Tracker) : Prop := ∀ r w, t.find r = some w → w.Settled

section Runs

variable {t u : Tracker} {op : Op} {r : RequestId} {w : WorkflowState}

theorem run_not_closing (hready : u.Ready) (hsync : Synced u) (hsettled : u.FindsSettled)
    (hop : ∀ r item now, op ≠ .recordFinal r item now) (r : RequestId) :
    Closes u (u.run op).2 r = false := by
  suffices h : ∀ w', (u.run op).2.find r = some w' → w'.completed = true →
      (u.find r).any WorkflowState.completed = true by
    cases hfind : (u.run op).2.find r with
    | none => simp [Closes, hfind]
    | some w' =>
        cases hw : w'.completed with
        | false => simp [Closes, hfind, hw]
        | true => simp [Closes, h w' hfind hw]
  cases hstore : op.onStore with
  | false =>
      obtain ⟨u₁, harr, hedits⟩ := run_edits hstore hready hsync.named
      -- along the edits every workflow found is settled, and completed only if it was
      have hfirst : ∀ r w', u₁.find r = some w' → w'.Settled ∧
          (w'.completed = true → (u.find r).any WorkflowState.completed = true) := by
        intro r w' hfind
        rcases arrive_find harr r with hsame | ⟨_, _, w, hw, hopen, hitem⟩ | ⟨_, hnone⟩
        · rw [hsame] at hfind
          exact ⟨hsettled r w' hfind, fun hc => by simpa [hfind] using hc⟩
        · cases hfind.symm.trans hw
          simp [WorkflowState.Settled, WorkflowState.completed, hopen, hitem]
        · cases hnone.symm.trans hfind
      have hlast : ∀ r w', (u.run op).2.find r = some w' → w'.Settled ∧
          (w'.completed = true → (u.find r).any WorkflowState.completed = true) := by
        generalize (u.run op).2 = u' at hedits
        induction hedits with
        | refl => exact hfirst
        | tail _ hedit ih =>
            intro r w' hfind
            rcases edit_find hedit hfind with hsame | ⟨w, hheld, hchange⟩
            · exact ih r w' hsame
            · obtain ⟨hw, hback⟩ := ih r w (Tracker.find_of_held hheld)
              obtain ⟨hw', hnew⟩ := change_settled hw hchange
              refine ⟨hw', fun hc => hback ((hnew hc).resolve_right ?_)⟩
              rintro ⟨q, item, now, heq⟩
              exact hop q item now heq
      exact fun w' hfind => (hlast r w' hfind).2
  | true =>
      cases op with
      | store op =>
          have hsame : (u.run (.store op)).2.find r = u.find r := by
            simp only [Tracker.run]
            split
            · rfl
            · rename_i s hs
              have htxn : s.txn.isSome = true := by simpa [Tracker.txn, hs] using hready (by simp [hs])
              have haside : Aside u (u.runStore s op).2 := runStore_aside hs htxn
              exact Tracker.find_congr haside.workflows haside.rows r
          intro w' hfind hc
          rw [← hsame, hfind]
          exact hc
      | _ => cases hstore

theorem observe_completions {o : RequestId} {a : AgentId} {ev : WorkerEvent} {g : Option Int}
    {error : String} {now : Time} (hsettled : ∀ w, u.workflows.get? o = some w → w.Settled) :
    completions (u.observe o a ev g error now).1 = [] := by
  unfold Tracker.observe
  split
  · rfl
  · rename_i w hheld
    dsimp only
    split
    · rfl
    · rename_i noted hnote
      obtain ⟨workers, rfl⟩ := noteWorker_eq hnote
      split
      · rfl
      · rename_i hopen
        have hopen' : w.terminalEvent = none := by simpa using hopen
        obtain ⟨_, _, htopic⟩ := @applyEvent_unfinished { w with workers } now
          (Settled.unfinished (hsettled w hheld) hopen') hopen' a ev error
        cases htr : (WorkflowState.applyEvent { w with workers } a ev error now).2 with
        | none => simp [completions, Reply.completions]
        | some tr => simp [completions, Reply.completions, htopic tr htr]

theorem abandon_topics {reason : String} {now : Time} (ws : List WorkflowState)
    (acc : List Transition × Tracker) (h : ∀ e ∈ acc.1, e.1 = .workflowFailed) :
    ∀ e ∈ (ws.foldl (Tracker.abandon reason now) acc).1, e.1 = .workflowFailed := by
  induction ws generalizing acc with
  | nil => exact h
  | cons w ws ih =>
      refine ih _ fun e he => ?_
      unfold Tracker.abandon at he
      split at he
      · rcases List.mem_append.mp he with hold | hnew
        · exact h e hold
        · rw [List.mem_singleton] at hnew
          rw [hnew]
      · exact h e he

theorem require_eq {u₁ : Tracker} (h : u.require r = some (w, u₁)) :
    u.find r = some w ∧ u₁ = (u.hold r w).touch r := by
  obtain ⟨w', hfind, heq⟩ := Option.map_eq_some_iff.mp h
  cases heq
  exact ⟨hfind, rfl⟩

theorem run_completions (hsettled : u.FindsSettled) (hop : ∀ r item now, op ≠ .recordFinal r item now) :
    completions (u.run op).1 = [] := by
  cases op with
  | setTitle r title =>
      simp only [Tracker.run, Tracker.setTitle]
      split <;> rfl
  | admitRequest r admissionState bootId now => rfl
  | forgetWorkflow r allow =>
      simp only [Tracker.run, Tracker.forgetWorkflow]
      split <;> rfl
  | confirmAdmission r bootId now =>
      simp only [Tracker.run, Tracker.confirmAdmission]
      split
      · rfl
      · split <;> rfl
  | reopen r =>
      simp only [Tracker.run, Tracker.reopen]
      repeat' split
      all_goals rfl
  | bindSubagent r a g now =>
      simp only [Tracker.run, Tracker.bindSubagent]
      split
      · rfl
      · rename_i w u₁ hsome
        split
        · rfl
        · rename_i hopen
          have hitem : (w.bindWorker a g).finalItem = none := by
            obtain ⟨workers, state, heq⟩ := bindWorker_eq w a g
            rw [heq]
            exact Settled.unfinished (hsettled r w (require_eq hsome).1) (by simpa using hopen)
          simp only [completeIfReady_unfinished hitem]
          rfl
  | recordSubagentEvent a ev g request error now =>
      simp only [Tracker.run, Tracker.recordSubagentEvent]
      cases request with
      | none =>
          dsimp only
          split
          · rfl
          · exact observe_completions fun w hw => hsettled _ w (Tracker.find_of_held hw)
      | some q =>
          dsimp only
          split
          · rfl
          · rename_i w u₁ hsome
            obtain ⟨hfind, rfl⟩ := require_eq hsome
            split
            · rfl
            · split
              · rfl
              · refine observe_completions fun v hv => ?_
                have hheld : v = w := by simpa using hv.symm
                exact hheld ▸ hsettled q w hfind
  | recordFinal r item now => exact absurd rfl (hop r item now)
  | assertReadyForFinal r =>
      simp only [Tracker.run, Tracker.assertReadyForFinal]
      repeat' split
      all_goals rfl
  | failSupervisor r phase error now =>
      simp only [Tracker.run, Tracker.failSupervisor]
      repeat' split
      all_goals rfl
  | abandonStranded reason now =>
      have htopics := @abandon_topics reason now u.workflows.values ([], u) (by simp)
      simp only [Tracker.run, Tracker.abandonStranded, completions, Reply.completions]
      refine List.filterMap_eq_nil_iff.mpr fun e he => ?_
      simp [htopics e he]
  | store op =>
      simp only [Tracker.run]
      split
      · rfl
      · cases op <;> simp only [Tracker.runStore] <;> (repeat' split) <;> rfl

end Runs

-- How a completed workflow stands right after the operation that completed it:
-- its final item is the one of that operation.
structure CompletedBy (op : Op) (r : RequestId) (w : WorkflowState) : Prop where
  recorded : ∃ item now, op = .recordFinal r item now ∧ w.finalItem = some item
  closed : ∀ worker ∈ w.workers.values, worker.state = .accepted ∨ worker.state = .rejected
  accepted : w.workers.values ≠ [] → ∃ worker ∈ w.workers.values, worker.state = .accepted

-- An operation reports one completion for each request it closes, and no other.
structure Reports (t : Tracker) (op : Op) (result : Result) (r : RequestId) : Prop where
  once : ((completions result.1).countP fun payload => decide (payload.requestId = r)) =
    if Closes t result.2 r then 1 else 0
  sound : Closes t result.2 r = true → ∃ w, result.2.find r = some w ∧ CompletedBy op r w

section Reports

variable {t u : Tracker} {op : Op} {r : RequestId}

theorem Reports.of_quiet {result : Result} (hnone : completions result.1 = [])
    (hclosing : Closes t result.2 r = false) : Reports t op result r := by
  refine ⟨?_, fun hyes => absurd (hclosing.symm.trans hyes) Bool.false_ne_true⟩
  rw [hnone, hclosing]
  rfl

theorem closes_of_find {t' : Tracker} (h : t'.find r = t.find r) : Closes t t' r = false := by
  simp [Closes, h]

theorem final_completedBy {w : WorkflowState} (h : w.assertReadyForFinal = .ok ()) (item : Item)
    (now : Time) : CompletedBy (.recordFinal r item now) r { w with
      finalItem := some item
      state := .completed
      completedAt := some now
      terminalEvent := some .workflowCompleted } := by
  obtain ⟨_, hclosed, haccepted⟩ := assertReadyForFinal_ok h
  refine ⟨⟨item, now, rfl, rfl⟩, fun worker hworker => ?_, fun hne => ?_⟩
  · have hstate := List.all_eq_true.mp hclosed worker hworker
    cases hs : worker.state <;> simp [hs, WorkerStatus.closed] at hstate ⊢
  · obtain ⟨worker, hworker, hstate⟩ := List.any_eq_true.mp (haccepted hne)
    exact ⟨worker, hworker, of_decide_eq_true hstate⟩

theorem recordFinal_reports (hsync : Synced u) (q : RequestId) (item : Item) (now : Time)
    (r : RequestId) : Reports u (.recordFinal q item now) (u.recordFinal q item now) r := by
  unfold Tracker.recordFinal
  split
  · exact .of_quiet rfl (closes_of_find rfl)
  · rename_i w u₁ hsome
    obtain ⟨hfind, rfl⟩ := require_eq hsome
    have hsame := loaded_find hfind r
    split
    · exact .of_quiet rfl (closes_of_find hsame)
    · split
      · exact .of_quiet rfl (closes_of_find hsame)
      · rename_i hready
        simp only [completeIfReady_final hready]
        by_cases hr : r = q
        · subst hr
          have hopen := (assertReadyForFinal_ok hready).1
          have hname := hsync.find_named hfind
          refine ⟨?_, fun _ => ⟨_, (hold_find ..).trans (if_pos rfl), final_completedBy hready item now⟩⟩
          simp [completions, Reply.completions, WorkflowState.payload, hname, Closes, hold_find, hfind,
            WorkflowState.completed, hopen]
        · have hclosing : Closes u (((u.hold q w).touch q).hold q { w with
              finalItem := some item
              state := .completed
              completedAt := some now
              terminalEvent := some .workflowCompleted }) r = false :=
            closes_of_find (((hold_find ..).trans (if_neg hr)).trans hsame)
          refine ⟨?_, fun hyes => absurd (hclosing.symm.trans hyes) Bool.false_ne_true⟩
          have hname := hsync.find_named hfind
          rw [hclosing]
          simp [completions, Reply.completions, WorkflowState.payload, hname, Ne.symm hr]

theorem call_reports (hsync : Synced t) (hsettled : t.FindsSettled) (op : Op) (fault : Bool)
    (r : RequestId) : Reports t op (t.call op fault) r := by
  have hcourse := call_course hsync op fault
  generalize t.call op fault = result at hcourse
  cases hcourse with
  | failed hfind => exact .of_quiet rfl (closes_of_find (hfind r))
  | idle hidle hfind =>
      refine .of_quiet (run_completions hsettled fun q item now heq => ?_) (closes_of_find (hfind r))
      rw [heq] at hidle
      cases hidle
  | @ran u t' hlike hready hsync' hfind =>
      have hsettled' : u.FindsSettled := fun q w hw => hsettled q w ((hlike.find q).symm.trans hw)
      have hcloses : Closes t t' r = Closes u (u.run op).2 r := by
        simp only [Closes, hfind, hlike.find]
      by_cases hop : ∃ q item now, op = .recordFinal q item now
      · obtain ⟨q, item, now, rfl⟩ := hop
        have hreports := recordFinal_reports hsync' q item now r
        refine ⟨?_, fun hyes => ?_⟩
        · rw [hcloses]
          exact hreports.once
        · rw [hcloses] at hyes
          rw [hfind]
          exact hreports.sound hyes
      · have hnot : ∀ q item now, op ≠ .recordFinal q item now := fun q item now heq =>
          hop ⟨q, item, now, heq⟩
        exact .of_quiet (run_completions hsettled' hnot)
          (hcloses.trans (run_not_closing hready hsync' hsettled' hnot r))

end Reports

theorem Sealed.start (maxWorkflows : Nat) (stored : Bool) :
    Sealed (conductorMachine maxWorkflows stored).start := by
  cases stored <;> constructor <;>
    simp [conductorMachine, Tracker.saved, Tracker.txn, Tracker.db]

-- A workflow completes only by the final item it is given, with its workers
-- closed and one of them accepted, and every completion is reported once.
theorem completion_sound {maxWorkflows : Nat} {stored : Bool} {t : Tracker}
    (h : (conductorMachine maxWorkflows stored).Reachable t) :
    (∀ r w, t.find r = some w →
      (w.finalItem.isSome = true ↔ w.terminalEvent = some .workflowCompleted)) ∧
    ∀ op fault r, Reports t op (t.call op fault) r := by
  obtain ⟨hsync, hsealed⟩ := conductor_pieces (P := Sealed) (.start maxWorkflows stored)
    (fun t t' hsync hsealed hpiece => hsealed.piece hsync hpiece) h
  have hsettled : t.FindsSettled := fun r w hfind => hsealed.find hsync hfind
  refine ⟨fun r w hfind => ?_, call_reports hsync hsettled⟩
  rw [hsettled r w hfind]
  exact decide_eq_true_iff

-- "a" is delivered, reopened, and has a second worker rejected.
def reopenedRun : List Action :=
  [.call (.admitRequest "a" .admitted none 1) false, .call (.bindSubagent "a" "x" 1 2) false,
   .call (.recordSubagentEvent "x" .accepted (some 1) none "" 3) false,
   .call (.recordFinal "a" ⟨some "f", "first"⟩ 4) false, .call (.reopen "a") false,
   .begin, .call (.bindSubagent "a" "y" 1 5) false,
   .call (.recordSubagentEvent "y" .rejected (some 1) none "" 6) false]

theorem completion_sound_reopenedRun :
    ∃ t, (conductorMachine 3 true).run (conductorMachine 3 true).start reopenedRun = some t ∧
      (completions (t.call (.recordFinal "a" ⟨some "g", "second"⟩ 7) false).1).length = 1 ∧
      ∃ w, (t.call (.recordFinal "a" ⟨some "g", "second"⟩ 7) false).2.find "a" = some w ∧
        CompletedBy (.recordFinal "a" ⟨some "g", "second"⟩ 7) "a" w ∧ w.workers.keys = ["x", "y"] := by
  refine ⟨_, rfl, by decide, ?_⟩
  have hsound := (@completion_sound 3 true _ ⟨reopenedRun, rfl⟩).2
    (.recordFinal "a" ⟨some "g", "second"⟩ 7) false "a"
  obtain ⟨w, hfind, hby⟩ := hsound.sound (by decide)
  refine ⟨w, hfind, hby, ?_⟩
  cases hfind
  rfl

end GaHub.Conductor
