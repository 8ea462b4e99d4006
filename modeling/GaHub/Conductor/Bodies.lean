import GaHub.Conductor.Owners
import GaHub.Conductor.Calls

namespace GaHub.Conductor

open Lib

-- A body that leaves one workflow under its request and every other one as it was.
structure Wrote (u u' : Tracker) (r : RequestId) (w : WorkflowState) : Prop where
  here : u'.find r = some w
  apart : ∀ q, q ≠ r → u'.find q = u.find q

section Wrote

variable {u u' : Tracker} {r : RequestId} {w v : WorkflowState}

theorem Wrote.hold (h : Wrote u u' r w) (v : WorkflowState) : Wrote u (u'.hold r v) r v := by
  refine ⟨by rw [hold_find, if_pos rfl], fun q hq => ?_⟩
  rw [hold_find, if_neg hq]
  exact h.apart q hq

theorem Wrote.touch (h : Wrote u u' r w) (q : RequestId) : Wrote u (u'.touch q) r w :=
  ⟨(touch_find u' q r).trans h.here, fun p hp => (touch_find u' q p).trans (h.apart p hp)⟩

theorem Wrote.owned (h : Wrote u u' r w) (owners : Dict AgentId RequestId) :
    Wrote u { u' with owners } r w := ⟨h.here, h.apart⟩

theorem Wrote.same (hfind : u.find r = some w) : Wrote u u r w := ⟨hfind, fun _ _ => rfl⟩

theorem Wrote.trans {u'' : Tracker} (h : Wrote u u' r w) (h' : Wrote u' u'' r v) : Wrote u u'' r v :=
  ⟨h'.here, fun q hq => (h'.apart q hq).trans (h.apart q hq)⟩

end Wrote

section Bodies

variable {u : Tracker} {r : RequestId} {w : WorkflowState}

theorem require_found (hfind : u.find r = some w) :
    u.require r = some (w, (u.hold r w).touch r) := by
  simp [Tracker.require, hfind]

theorem required_wrote (hfind : u.find r = some w) : Wrote u ((u.hold r w).touch r) r w :=
  ((Wrote.same hfind).hold w).touch r

theorem required_held (u : Tracker) (r : RequestId) (w : WorkflowState) :
    ((u.hold r w).touch r).workflows.get? r = some w := Dict.get?_set_self ..

theorem admitRequest_wrote (hstore : u.store.isSome = true) (hfind : u.find r = some w)
    (admissionState : AdmissionState) (bootId : Option String) (now : Time) :
    Wrote u (u.admitRequest r admissionState bootId now) r w ∧
      (u.admitRequest r admissionState bootId now).owners = u.owners := by
  unfold Tracker.admitRequest
  split
  · exact ⟨.same hfind, rfl⟩
  · have hstays : ((u.hold r w).touch r).pruneTerminal = (u.hold r w).touch r := by
      simp [Tracker.pruneTerminal, hstore]
    simp only [hfind, hstays]
    exact ⟨required_wrote hfind, rfl⟩

theorem admitRequest_apart {q : RequestId} (hstore : u.store.isSome = true) (hne : r ≠ q)
    (admissionState : AdmissionState) (bootId : Option String) (now : Time) :
    (u.admitRequest q admissionState bootId now).find r = u.find r := by
  have hstays : ∀ v : Tracker, v.store.isSome = true → v.pruneTerminal = v := fun v hv => by
    simp [Tracker.pruneTerminal, hv]
  unfold Tracker.admitRequest
  split
  · rfl
  · split
    · rw [hstays _ (by simpa using hstore), touch_find, hold_find, if_neg hne]
    · dsimp only
      rw [hstays _ (by simpa using hstore), hold_find, if_neg hne, touch_find]

theorem confirmAdmission_wrote (hstore : u.store.isSome = true) (hfind : u.find r = some w)
    (bootId : Option String) (now : Time) :
    (u.confirmAdmission r bootId now).1 = .ok .nothing ∧
      Wrote u (u.confirmAdmission r bootId now).2 r
        (if r ∈ u.tombstones then w else w.confirmAdmission bootId) ∧
      (u.confirmAdmission r bootId now).2.owners = u.owners := by
  unfold Tracker.confirmAdmission
  split
  · exact ⟨rfl, .same hfind, rfl⟩
  · obtain ⟨hwrote, howners⟩ := admitRequest_wrote hstore hfind .admitted bootId now
    dsimp only
    rw [require_found hwrote.here]
    exact ⟨rfl, (hwrote.trans (required_wrote hwrote.here)).hold _, howners⟩

theorem bindSubagent_wrote (hfind : u.find r = some w) (hopen : w.terminalEvent = none)
    (hitem : w.finalItem = none) (a : AgentId) (g : Int) (now : Time) :
    (u.bindSubagent r a g now).1 = .ok (.completion none) ∧
      Wrote u (u.bindSubagent r a g now).2 r (w.bindWorker a g) ∧
      (u.bindSubagent r a g now).2.owners = u.owners.set a r := by
  have hnone : (w.bindWorker a g).completeIfReady now = none := by
    obtain ⟨workers, state, hbound⟩ := bindWorker_eq w a g
    simp [WorkflowState.completeIfReady, hbound, hitem]
  unfold Tracker.bindSubagent
  rw [require_found hfind]
  simp only [hopen, Option.isSome_none, Bool.false_eq_true, if_false, hnone, true_and]
  exact ⟨((required_wrote hfind).owned _).hold _, rfl⟩

theorem recordSubagentEvent_wrote (hfind : u.find r = some w) (hopen : w.terminalEvent = none)
    {a : AgentId} {g : Option Int} {noted : WorkflowState} (hnote : w.noteWorker a g = some noted)
    (hown : ∀ o, u.requestForSubagent a = some o → o ≠ r →
      ∃ v, u.find o = some v ∧ v.terminalEvent.isSome = true)
    (ev : WorkerEvent) (error : String) (now : Time) :
    (u.recordSubagentEvent a ev g (some r) error now).1 =
        .ok (.event (some r) (noted.applyEvent a ev error now).2) ∧
      Wrote u (u.recordSubagentEvent a ev g (some r) error now).2 r
        (noted.applyEvent a ev error now).1 := by
  have hforeign : ((u.hold r w).touch r).foreignOwner (u.requestForSubagent a) r = none := by
    unfold Tracker.foreignOwner
    rw [Option.filter_eq_none_iff]
    intro o ho hkeep
    obtain ⟨hne, hopen'⟩ := Bool.and_eq_true_iff.mp hkeep
    have hne' : o ≠ r := by simpa using hne
    obtain ⟨v, hv, hterm⟩ := hown o ho hne'
    rw [(required_wrote hfind).apart o hne', hv] at hopen'
    simp only [Option.all_some, Option.isNone_iff_eq_none] at hopen'
    rw [hopen'] at hterm
    cases hterm
  have hopen' : noted.terminalEvent = none := by
    obtain ⟨workers, hnoted⟩ := noteWorker_eq hnote
    rw [hnoted]
    exact hopen
  unfold Tracker.recordSubagentEvent
  simp only [require_found hfind, hforeign, hopen, Option.isSome_none, Bool.false_eq_true, if_false]
  unfold Tracker.observe
  have hheld := required_held u r w
  simp only [hheld, hnote, hopen', Option.isSome_none, Bool.false_eq_true, if_false, true_and]
  exact (((required_wrote hfind).owned _).touch r).hold _

theorem assertReadyForFinal_iff (hopen : w.terminalEvent = none) (haccepted : w.someAccepted = true) :
    w.assertReadyForFinal = .ok () ↔ w.closed = true := by
  refine ⟨fun h => (assertReadyForFinal_ok h).2.1, fun hclosed => ?_⟩
  have hnone : w.workers.entries.filter (fun e => !e.2.state.closed) = [] := by
    refine List.filter_eq_nil_iff.mpr fun e he => ?_
    have hworker := List.all_eq_true.mp hclosed e.2 (List.mem_map_of_mem he)
    simpa using hworker
  unfold WorkflowState.assertReadyForFinal
  simp only [hopen, Option.isSome_none, Bool.false_eq_true, if_false, hnone, List.isEmpty_nil,
    Bool.not_true, haccepted]
  split <;> rfl

theorem recordFinal_wrote (hfind : u.find r = some w) (hitem : w.finalItem = none)
    (hready : w.assertReadyForFinal = .ok ()) (item : Item) (now : Time) :
    ∃ transition w', (u.recordFinal r item now).1 = .ok (.transition transition) ∧
      Wrote u (u.recordFinal r item now).2 r w' ∧ w'.terminalEvent = some .workflowCompleted := by
  obtain ⟨hopen, hclosed, haccepted⟩ := assertReadyForFinal_ok hready
  have hcomplete : ({ w with finalItem := some item } : WorkflowState).completeIfReady now =
      some { w with
        finalItem := some item
        state := .completed
        completedAt := some now
        terminalEvent := some .workflowCompleted } := by
    have hall : (!w.workers.values.isEmpty && !w.closed) = false := by simp [hclosed]
    have hsome : (!w.workers.values.isEmpty && !w.someAccepted) = false := by
      cases hv : w.workers.values with
      | nil => rfl
      | cons v vs => simp [haccepted (by simp [hv])]
    unfold WorkflowState.completeIfReady
    rw [if_neg (by simp [hopen])]
    change (if (!w.workers.values.isEmpty && !w.closed) = true then none
      else if (!w.workers.values.isEmpty && !w.someAccepted) = true then none else some _) = _
    rw [hall, hsome]
    rfl
  unfold Tracker.recordFinal
  simp only [require_found hfind, hitem, Option.any_none, Bool.false_eq_true, if_false, hready, hcomplete]
  exact ⟨_, _, rfl, (required_wrote hfind).hold _, rfl⟩

theorem recordFinal_refused (hfind : u.find r = some w) (hitem : w.finalItem = none)
    {e : ConductorError} (hready : w.assertReadyForFinal = .error e) (item : Item) (now : Time) :
    (u.recordFinal r item now).1 = .error e := by
  unfold Tracker.recordFinal
  simp only [require_found hfind, hitem, Option.any_none, Bool.false_eq_true, if_false, hready]

end Bodies

section Calls

variable {t : Tracker} {op : Op}

theorem begin_txn (hclosed : t.closed = true) : t.begin.txn.isSome = true := by
  obtain ⟨s, hs, _⟩ := closed_store hclosed
  simp [Tracker.begin, Tracker.txn, hs]

theorem not_closed_of_txn (hopen : t.txn.isSome = true) : t.closed = false := by
  cases htxn : t.txn with
  | none => simp [htxn] at hopen
  | some x => simp [Tracker.closed, htxn]

theorem call_inside (hopen : t.txn.isSome = true) (fault : Bool) : t.call op fault = t.run op := by
  simp [Tracker.call, not_closed_of_txn hopen]

theorem call_opened (h : Synced t) (hclosed : t.closed = true) (op : Op) :
    Synced t.begin ∧ Synced (t.begin.run op).2 ∧ (t.begin.run op).2.txn.isSome = true := by
  have hbegin := h.begin hclosed
  have hready := ready_begin t
  have hwithin : Within t.begin (t.begin.run op).2 := run_within hready hbegin.named
  exact ⟨hbegin, run_synced hbegin hready, hwithin.txn.trans (begin_txn hclosed)⟩

theorem call_ok (hclosed : t.closed = true) (hopens : op.opens t = true) {reply : Reply}
    (hrun : (t.begin.run op).1 = .ok reply) : t.call op false = (.ok reply, (t.begin.run op).2.commit) := by
  unfold Tracker.call
  rw [hclosed, hopens]
  rcases hbody : t.begin.run op with ⟨result, u⟩
  rw [hbody] at hrun
  cases hrun
  rfl

theorem call_failed (h : Synced t) (hclosed : t.closed = true) (hopens : op.opens t = true)
    {e : ConductorError} (hrun : (t.begin.run op).1 = .error e) (r : RequestId) :
    (t.call op false).2.find r = t.find r := by
  have hwithin : Within t.begin (t.begin.run op).2 := run_within (ready_begin t) (h.begin hclosed).named
  have hundo := rollback_find h hclosed (call_opened h hclosed op).2.1 hwithin r
  unfold Tracker.call
  rw [hclosed, hopens]
  rcases hbody : t.begin.run op with ⟨result, u⟩
  rw [hbody] at hrun hundo
  cases hrun
  exact hundo

theorem store_of_txn (hopen : t.txn.isSome = true) : t.store.isSome = true := by
  obtain ⟨s, x, hs, _⟩ := open_store hopen
  simp [hs]

theorem piece_store {ok : Tracker → Prop} {t' : Tracker} (h : Piece ok t t')
    (hstore : t.store.isSome = true) : t'.store.isSome = true := by
  cases h with
  | arrived _ harr => exact harr.within.store.trans hstore
  | edited hedit => exact hedit.within.store.trans hstore
  | aside ha => exact ha.store.trans hstore
  | begun hclosed => simpa [Tracker.begin] using hstore
  | committed hopen =>
      obtain ⟨s, x, hs, hx⟩ := open_store hopen
      rw [commit_eq hs hx]
      rfl
  | rolledBack hopen _ =>
      obtain ⟨s, x, hs, hx⟩ := open_store hopen
      simp [Tracker.rollback, hs, hx]
  | restarted hs _ => rfl

theorem begin_find (t : Tracker) (r : RequestId) : t.begin.find r = t.find r := (like_begin t).find r

end Calls

end GaHub.Conductor
