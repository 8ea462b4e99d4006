import GaHub.Conductor.Recovery.Deletion

namespace GaHub.Conductor

open Lib

def Record.wellFormed (record : Record) : Bool :=
  match record.kind with
  | .engineStarted => true
  | .unsupported => false
  | .requestAdmitted | .requestOutcome =>
      record.payload.any fun e => decide (e.event = record.type) && e.requestId.any (· ≠ "")
  | .subagent _ =>
      record.payload.any fun e =>
        decide (e.event = record.type) && e.requestId.any (· ≠ "") && e.id.any (· ≠ "")
  | .chat | .observation => record.payload.any fun e => decide (e.event = record.type)

namespace Tracker

variable (t : Tracker)

-- `record_subagent_event` raises: the request is deleted, or the worker belongs
-- to another one that is not closed.
def refusesWorker (agent : AgentId) (request : RequestId) : Bool :=
  decide (request ∈ t.tombstones) && (t.find request).isNone ||
    (t.foreignOwner (t.requestForSubagent agent) request).isSome

-- `record_final` raises: another final, on a request that is closed or has work left.
def refusesFinal (request : RequestId) (id : Option String) : Bool :=
  (t.find request).any fun w => !(w.finalItem.any fun final => decide (final.id = id)) &&
    decide (w.assertReadyForFinal ≠ .ok ())

def refusesChat (item : ChatItem) : Bool :=
  item.request.any fun request => item.final &&
    (orElse item.role (some "conductor")).any (fun role => decide (role = "conductor" ∨ role = "system")) &&
    t.refusesFinal request item.id

def poisons (record : Record) : Bool :=
  match record.kind, record.payload with
  | .subagent _, some e => e.requestId.any fun request => t.refusesWorker (e.id.getD "") request
  | .chat, some e => e.item.any fun item => t.refusesChat item
  | _, _ => false

end Tracker

def Cursor.follows (cursor : Cursor) (epoch : Option String) : Bool :=
  cursor.epoch.all (· = "") || decide (cursor.epoch = epoch)

def Process.Advances (p : Process) (s : Setting) (record : Record) : Prop :=
  (p.attempt s record false).1 = .ok () ∧
    (p.attempt s record false).2.tracker.db.cursor.seq = record.seq

def Deferring.done (d : Deferring) : Prop := ∃ effects, d.1 = .ok effects

section Done

variable {u : Tracker} {r : RequestId} {w : WorkflowState}

theorem done_ok {effects : List Effect} : Deferring.done (.ok effects, u) := ⟨effects, rfl⟩

theorem not_done_error {e : RecoveryError} : ¬Deferring.done (.error e, u) := by
  rintro ⟨effects, h⟩
  cases h

theorem step_done_iff {op : Op} {rest : Reply → Tracker → Deferring} {reply : Reply}
    (h : (u.run op).1 = .ok reply) : (u.step op rest).done ↔ (rest reply (u.run op).2).done := by
  rw [step_eq h]

theorem step_not_done {op : Op} {rest : Reply → Tracker → Deferring} {e : ConductorError}
    (h : (u.run op).1 = .error e) : ¬(u.step op rest).done := by
  rintro ⟨effects, hok⟩
  rw [step_error h] at hok
  cases hok

theorem save_ok (htxn : u.txn.isSome = true) {op : StoreOp}
    (hop : (∃ item ts, op = .saveChat item ts) ∨ ∃ rows, op = .saveActivity rows) :
    (u.run (.store op)).1 = .ok .nothing := by
  obtain ⟨s, x, hs, hx⟩ := open_store htxn
  rcases hop with ⟨item, ts, rfl⟩ | ⟨rows, rfl⟩
  · simp only [Tracker.run, hs, Tracker.runStore]
    split <;> rfl
  · simp only [Tracker.run, hs, Tracker.runStore]

theorem save_aside (htxn : u.txn.isSome = true) (op : StoreOp) : Aside u (u.run (.store op)).2 := by
  obtain ⟨s, x, hs, hx⟩ := open_store htxn
  simp only [Tracker.run, hs]
  exact runStore_aside hs (by simp [hx])

theorem setTitle_ok (hfind : u.find r = some w) (title : String) : (u.run (.setTitle r title)).1 = .ok .nothing := by
  simp only [Tracker.run, Tracker.setTitle, require_found hfind]

theorem failSupervisor_ok (u : Tracker) (r : RequestId) (phase error : String) (now : Time) :
    ∃ reply, (u.run (.failSupervisor r phase error now)).1 = .ok reply := by
  simp only [Tracker.run, Tracker.failSupervisor]
  split
  · exact ⟨_, rfl⟩
  · split <;> exact ⟨_, rfl⟩

theorem recordFinal_ok_iff (hfind : u.find r = some w) (item : Item) (now : Time) :
    (∃ reply, (u.run (.recordFinal r item now)).1 = .ok reply) ↔
      w.finalItem.any (fun final => decide (final.id = item.id)) = true ∨ w.assertReadyForFinal = .ok () := by
  simp only [Tracker.run, Tracker.recordFinal, require_found hfind]
  cases hsame : w.finalItem.any (fun final => decide (final.id = item.id)) with
  | true => exact ⟨fun _ => Or.inl rfl, fun _ => ⟨_, rfl⟩⟩
  | false =>
      simp only [Bool.false_eq_true, if_false, false_or]
      cases hready : w.assertReadyForFinal with
      | error e =>
          refine ⟨?_, fun h => by cases h⟩
          rintro ⟨reply, h⟩
          cases h
      | ok done =>
          refine ⟨fun _ => rfl, fun _ => ?_⟩
          dsimp only
          split <;> exact ⟨_, rfl⟩

theorem admitRequest_has (hstore : u.store.isSome = true) (hburied : r ∉ u.tombstones)
    (admissionState : AdmissionState) (bootId : Option String) (now : Time) :
    ∃ w, (u.admitRequest r admissionState bootId now).find r = some w ∧
      (u.find r = none → w.finalItem = none ∧ w.assertReadyForFinal = .ok ()) := by
  cases hfind : u.find r with
  | some w => exact ⟨w, (admitRequest_wrote hstore hfind ..).1.here, fun h => by cases h⟩
  | none =>
      simp only [Tracker.admitRequest, if_neg hburied, hfind]
      have hstays : ∀ v : Tracker, v.store.isSome = true → v.pruneTerminal = v := fun v hv => by
        simp [Tracker.pruneTerminal, hv]
      rw [hstays _ (by simpa using hstore), hold_find, if_pos rfl]
      exact ⟨_, rfl, fun _ => ⟨rfl, rfl⟩⟩


theorem confirmAdmission_spec (hstore : u.store.isSome = true) (bootId : Option String) (now : Time) :
    (u.confirmAdmission r bootId now).1 = .ok .nothing ∧
      (u.confirmAdmission r bootId now).2.owners = u.owners ∧
      (∀ q, q ≠ r → (u.confirmAdmission r bootId now).2.find q = u.find q) ∧
      ((u.confirmAdmission r bootId now).2.find r = none ↔ r ∈ u.tombstones ∧ u.find r = none) := by
  by_cases hburied : r ∈ u.tombstones
  · have heq : u.confirmAdmission r bootId now = (.ok .nothing, u) := by
      simp only [Tracker.confirmAdmission, if_pos hburied]
    rw [heq]
    exact ⟨rfl, rfl, fun _ _ => rfl, by simp [hburied]⟩
  · obtain ⟨w, hw, _⟩ := admitRequest_has hstore hburied .admitted bootId now
    have howners : (u.admitRequest r .admitted bootId now).owners = u.owners := by
      cases hfind : u.find r with
      | some v => exact (admitRequest_wrote hstore hfind .admitted bootId now).2
      | none =>
          simp only [Tracker.admitRequest, if_neg hburied, hfind, Tracker.pruneTerminal,
            Tracker.hold_store, Tracker.touch_store_isSome, hstore, if_true]
          rfl
    simp only [Tracker.confirmAdmission, if_neg hburied, require_found hw, true_and]
    have hwrote := (required_wrote hw).hold (w.confirmAdmission bootId)
    refine ⟨howners, fun q hq => (hwrote.apart q hq).trans (admitRequest_apart hstore hq ..), ?_⟩
    rw [hwrote.here]
    simp [hburied]

theorem recordSubagentEvent_ok_iff (u : Tracker) (r : RequestId) (a : AgentId) (ev : WorkerEvent)
    (g : Option Int) (error : String) (now : Time) :
    (∃ reply, (u.run (.recordSubagentEvent a ev g (some r) error now)).1 = .ok reply) ↔
      (u.find r).isSome = true ∧ u.foreignOwner (u.requestForSubagent a) r = none := by
  simp only [Tracker.run, Tracker.recordSubagentEvent]
  cases hfind : u.find r with
  | none =>
      simp only [Tracker.require, hfind, Option.map_none, Option.isSome_none, Bool.false_eq_true, false_and,
        iff_false]
      rintro ⟨reply, h⟩
      cases h
  | some w =>
      have hsame : ((u.hold r w).touch r).foreignOwner (u.requestForSubagent a) r =
          u.foreignOwner (u.requestForSubagent a) r := by
        unfold Tracker.foreignOwner
        cases u.requestForSubagent a with
        | none => rfl
        | some o =>
            by_cases ho : o = r
            · simp [Option.filter, ho]
            · simp only [Option.filter, (required_wrote hfind).apart o ho]
      simp only [require_found hfind, hsame, Option.isSome_some, true_and]
      cases u.foreignOwner (u.requestForSubagent a) r with
      | some other =>
          refine ⟨?_, fun h => by cases h⟩
          rintro ⟨reply, h⟩
          cases h
      | none =>
          refine ⟨fun _ => rfl, fun _ => ?_⟩
          dsimp only
          split
          · exact ⟨_, rfl⟩
          · unfold Tracker.observe
            split
            · exact ⟨_, rfl⟩
            · dsimp only
              split
              · exact ⟨_, rfl⟩
              · split <;> exact ⟨_, rfl⟩


theorem onRemoteChat_done_iff (hsync : Synced u) (htxn : u.txn.isSome = true) (item : ChatItem)
    (now : Time) : (u.onRemoteChat item now).done ↔ u.refusesChat item = false := by
  let save := fun (effects : List Effect) (t : Tracker) =>
    t.step (.store (.saveChat (item.hub now) ((item.hub now).ts.getD now))) fun _ t =>
      ((.ok (effects ++ [.mirror (item.hub now)]), t) : Deferring)
  have hsave : ∀ effects t, t.txn.isSome = true → (save effects t).done := fun effects t hx =>
    (step_done_iff (save_ok hx (Or.inl ⟨_, _, rfl⟩))).mpr done_ok
  have hafter : ∀ (op : Op) effects, (save effects (u.run op).2).done := fun op effects =>
    hsave effects _ (run_inside hsync htxn op).txn
  change (u.noteChat (item.hub now) now save).done ↔ _
  have hrequest : (item.hub now).request = item.request := rfl
  unfold Tracker.noteChat Tracker.refusesChat
  rw [hrequest]
  cases item.request with
  | none => simpa using hsave [] u htxn
  | some request =>
      simp only [Option.any_some]
      cases hfind : u.find request with
      | none => simpa [Tracker.hasRequest, Tracker.refusesFinal, hfind] using hsave [] u htxn
      | some w =>
          have hhas : u.hasRequest request = true := by simp [Tracker.hasRequest, hfind]
          have hrole : (item.hub now).role = orElse item.role (some "conductor") := rfl
          have hfinal : (item.hub now).final = item.final := rfl
          simp only [hhas, Bool.not_true, Bool.false_eq_true, if_false, hrole, hfinal]
          generalize orElse item.role (some "conductor") = role
          by_cases huser : role = some "user"
          · subst huser
            have hstep : (u.step (.setTitle request (item.hub now).msg) fun _ t => save [] t).done ↔ _ :=
              step_done_iff (setTitle_ok hfind (item.hub now).msg)
            simpa using hstep.mpr (hafter (.setTitle request (item.hub now).msg) [])
          · simp only [huser, if_false]
            by_cases hreport : (role = some "conductor" ∨ role = some "system") ∧ item.final = true
            · have hany : role.any (fun role => decide (role = "conductor" ∨ role = "system")) = true := by
                rcases hreport.1 with rfl | rfl <;> rfl
              have hiff := recordFinal_ok_iff hfind (item.hub now).asItem now
              simp only [hreport, and_self, if_true, hany, Bool.true_and, Tracker.refusesFinal, hfind,
                Option.any_some]
              cases hrun : (u.run (.recordFinal request (item.hub now).asItem now)).1 with
              | error e =>
                  have hnot : ¬(u.step (.recordFinal request (item.hub now).asItem now) fun reply t =>
                      save (Tracker.published (Tracker.transitionOf reply)) t).done := step_not_done hrun
                  simp only [hrun, reduceCtorEq, exists_false, false_iff, not_or] at hiff
                  simp only [hnot, false_iff, Bool.not_eq_false, Bool.and_eq_true, Bool.not_eq_true',
                    decide_eq_true_eq]
                  exact ⟨Bool.eq_false_iff.mpr hiff.1, hiff.2⟩
              | ok reply =>
                  have hdone : (u.step (.recordFinal request (item.hub now).asItem now) fun reply t =>
                      save (Tracker.published (Tracker.transitionOf reply)) t).done :=
                    (step_done_iff hrun).mpr (hafter (.recordFinal request (item.hub now).asItem now) _)
                  simp only [hrun, Except.ok.injEq, exists_eq', true_iff] at hiff
                  simp only [hdone, true_iff, Bool.and_eq_false_iff, Bool.not_eq_false',
                    decide_eq_false_iff_not, not_not]
                  exact hiff
            · have hnone : (item.final && role.any fun role => decide (role = "conductor" ∨ role = "system")) =
                  false := by
                cases hf : item.final with
                | false => rfl
                | true =>
                    cases role with
                    | none => rfl
                    | some role => simpa [hf] using hreport
              simp only [if_neg hreport, hnone, Bool.false_and, iff_true]
              exact hsave [] u htxn


theorem applyChat_done_iff (hsync : Synced u) (htxn : u.txn.isSome = true) (s : Setting)
    (boot : Option String) (item : Option ChatItem) :
    (u.applyChat s boot item).done ↔ item.any u.refusesChat = false := by
  unfold Tracker.applyChat
  cases item with
  | none => simpa using done_ok
  | some item =>
      simp only [Option.any_some]
      cases hrequest : item.request with
      | none => exact onRemoteChat_done_iff hsync htxn item s.now
      | some request =>
          dsimp only
          split
          · rename_i hnew
            have hnone : u.find request = none := by simpa [Tracker.hasRequest] using hnew.2
            have hquiet : u.refusesChat item = false := by
              simp [Tracker.refusesChat, Tracker.refusesFinal, hrequest, hnone]
            have hnewcomer : (u.run (.admitRequest request .recoveredIncomplete boot s.now)).1 = .ok .nothing := rfl
            rw [step_done_iff hnewcomer, hquiet]
            have hkept : Inside u (u.run (.admitRequest request .recoveredIncomplete boot s.now)).2 :=
              run_inside hsync htxn _
            rw [onRemoteChat_done_iff hkept.sync hkept.txn]
            -- an admitted request has no final and no worker
            have hready : (u.admitRequest request .recoveredIncomplete boot s.now).refusesFinal request item.id =
                false := by
              obtain ⟨st, _, hs, _⟩ := open_store htxn
              unfold Tracker.refusesFinal
              by_cases hburied : request ∈ u.tombstones
              · simp [Tracker.admitRequest, hburied, hnone]
              · obtain ⟨w, hw, hfresh⟩ := admitRequest_has (by simp [hs]) hburied .recoveredIncomplete boot s.now
                simp [hw, (hfresh hnone).2]
            simp only [Tracker.run, Tracker.refusesChat, hrequest, Option.any_some, hready, Bool.and_false]
          · exact onRemoteChat_done_iff hsync htxn item s.now

theorem applyOutcome_done (s : Setting) (chat : List ChatItem) (e : JournalEvent) :
    (u.applyOutcome s chat e).done := by
  have hfail : ∀ r phase error, Deferring.done (u.step (.failSupervisor r phase error s.now) fun reply t =>
      (.ok (Tracker.published (Tracker.transitionOf reply)), t)) := by
    intro r phase error
    obtain ⟨reply, hrun⟩ := failSupervisor_ok u r phase error s.now
    exact (step_done_iff hrun).mpr done_ok
  unfold Tracker.applyOutcome
  split
  · exact done_ok
  · split
    · exact done_ok
    · split
      · unfold Tracker.failUnhandledRequest
        split
        · exact done_ok
        · dsimp only
          split
          · exact done_ok
          · exact hfail ..
      · split
        · exact hfail ..
        · exact done_ok

theorem enqueueAutoAccept_done (htxn : u.txn.isSome = true) (s : Setting) (bootId : Option String)
    (sid : AgentId) (request : RequestId) (generation : Int) (effects : List Effect) :
    (u.enqueueAutoAccept s bootId sid request generation effects).done := by
  obtain ⟨st, _, hs, _⟩ := open_store htxn
  unfold Tracker.enqueueAutoAccept
  cases hnew : u.db.commands.get? (autoAcceptId s.engine sid generation bootId) with
  | some command => simpa [hnew] using done_ok
  | none =>
      have hnone : st.db.commands.get? (autoAcceptId s.engine sid generation bootId) = none := by
        simpa [Tracker.db, hs] using hnew
      simp only [hnew, Option.isSome_none, Bool.false_eq_true, if_false]
      unfold Tracker.step
      simp only [Tracker.run, hs, Tracker.runStore, Db.putCommand, hnone]
      exact done_ok

theorem recordWorkerEvent_done_iff (hsync : Synced u) (htxn : u.txn.isSome = true) (s : Setting)
    (bootId boot : Option String) (event : WorkerEvent) {e : JournalEvent} {a : AgentId}
    (hid : e.id = some a) (hrequest : e.requestId = some r) :
    (u.recordWorkerEvent s bootId boot event e).done ↔
      (u.find r).isSome = true ∧ u.foreignOwner (u.requestForSubagent a) r = none := by
  rw [← recordSubagentEvent_ok_iff u r a event e.generation "" s.now]
  unfold Tracker.recordWorkerEvent
  have hop : Op.recordSubagentEvent (e.id.getD "") event e.generation e.requestId "" s.now =
      .recordSubagentEvent a event e.generation (some r) "" s.now := by
    rw [hid, hrequest]
    rfl
  rw [hop]
  cases hrun : (u.run (.recordSubagentEvent a event e.generation (some r) "" s.now)).1 with
  | error err =>
      refine ⟨fun h => absurd h (step_not_done hrun), ?_⟩
      rintro ⟨reply, h⟩
      cases h
  | ok reply =>
      refine ⟨fun _ => ⟨reply, rfl⟩, fun _ => (step_done_iff hrun).mpr ?_⟩
      have hkept : Inside u (u.run (.recordSubagentEvent a event e.generation (some r) "" s.now)).2 :=
        run_inside hsync htxn _
      dsimp only
      split
      · split
        · rw [hid]
          exact enqueueAutoAccept_done hkept.txn ..
        · exact done_ok
      · exact done_ok

theorem applyWorkerEvent_done_iff (hsync : Synced u) (htxn : u.txn.isSome = true) (s : Setting)
    (bootId boot : Option String) (event : WorkerEvent) {e : JournalEvent} {a : AgentId}
    (hid : e.id = some a) (hrequest : e.requestId = some r) (hname : r ≠ "") :
    (u.applyWorkerEvent s bootId boot event e).done ↔ u.refusesWorker a r = false := by
  obtain ⟨st, _, hs, _⟩ := open_store htxn
  have hstore : u.store.isSome = true := by simp [hs]
  obtain ⟨hrun, howners, hapart, hgone⟩ := confirmAdmission_spec (r := r) hstore boot s.now
  have hkept : Inside u (u.run (.confirmAdmission r boot s.now)).2 := run_inside hsync htxn _
  have hdb : (u.run (.confirmAdmission r boot s.now)).2.db = u.db :=
    run_db rfl rfl (fun _ => htxn) hsync.named
  change (u.run (.confirmAdmission r boot s.now)).1 = _ at hrun
  change (u.run (.confirmAdmission r boot s.now)).2.owners = _ at howners
  change ∀ q, q ≠ r → (u.run (.confirmAdmission r boot s.now)).2.find q = u.find q at hapart
  change (u.run (.confirmAdmission r boot s.now)).2.find r = none ↔ _ at hgone
  have hindex : (u.run (.confirmAdmission r boot s.now)).2.requestForSubagent a = u.requestForSubagent a := by
    unfold Tracker.requestForSubagent
    rw [howners, hdb]
  have hforeign : (u.run (.confirmAdmission r boot s.now)).2.foreignOwner (u.requestForSubagent a) r =
      u.foreignOwner (u.requestForSubagent a) r := by
    unfold Tracker.foreignOwner
    cases u.requestForSubagent a with
    | none => rfl
    | some o =>
        by_cases ho : o = r
        · simp [Option.filter, ho]
        · simp only [Option.filter, hapart o ho]
  simp only [Tracker.applyWorkerEvent, hrequest, hname, if_false]
  rw [step_done_iff hrun, recordWorkerEvent_done_iff hkept.sync hkept.txn s bootId boot event hid hrequest, hindex,
    hforeign, Tracker.refusesWorker, Bool.or_eq_false_iff]
  refine and_congr ?_ (by cases u.foreignOwner (u.requestForSubagent a) r <;> simp)
  rw [Bool.and_eq_false_iff, ← not_iff_not]
  simpa [Option.isSome_iff_ne_none] using hgone

end Done


section Records

variable {p : Process} {t : Tracker}

theorem poisons_congr {u : Tracker} (hfind : ∀ q, u.find q = t.find q)
    (hindex : ∀ a, u.requestForSubagent a = t.requestForSubagent a) (hburied : u.tombstones = t.tombstones)
    (record : Record) : u.poisons record = t.poisons record := by
  have hworker : ∀ a r, u.refusesWorker a r = t.refusesWorker a r := by
    intro a r
    simp only [Tracker.refusesWorker, Tracker.foreignOwner, hfind, hindex, hburied]
  have hfinal : ∀ r id, u.refusesFinal r id = t.refusesFinal r id := by
    intro r id
    simp only [Tracker.refusesFinal, hfind]
  have hchat : u.refusesChat = t.refusesChat := by
    funext item
    simp only [Tracker.refusesChat, hfinal]
  simp only [Tracker.poisons, hworker, hchat]

theorem poisons_aside {u : Tracker} (h : Aside t u) (record : Record) : u.poisons record = t.poisons record := by
  have hindex : ∀ a, u.requestForSubagent a = t.requestForSubagent a := by
    intro a
    have hrow : u.db.workerOwner a = t.db.workerOwner a := by
      have hrows : u.db.workflows = t.db.workflows := h.rows
      unfold Db.workerOwner
      rw [hrows]
    unfold Tracker.requestForSubagent
    rw [h.owners, hrow]
  exact poisons_congr (Tracker.find_congr h.workflows h.rows) hindex h.tombstones record

theorem poisons_begin (record : Record) : t.begin.poisons record = t.poisons record :=
  poisons_congr (begin_find t) (like_begin t).requestForSubagent rfl record

theorem wellFormed_payload {record : Record} (hwf : record.wellFormed = true)
    (hstart : record.kind ≠ .engineStarted) :
    ∃ e, record.payload = some e ∧ e.event = record.type := by
  unfold Record.wellFormed at hwf
  cases hkind : record.kind with
  | engineStarted => exact absurd hkind hstart
  | unsupported =>
      rw [hkind] at hwf
      cases hwf
  | _ =>
      rw [hkind] at hwf
      obtain ⟨e, he, hmembers⟩ := (Option.any_eq_true _ _).mp hwf
      simp only [Bool.and_eq_true, decide_eq_true_eq, and_assoc] at hmembers
      exact ⟨e, he, by first | exact hmembers | exact hmembers.1⟩

theorem applyRecord_done_iff (hsync : Synced t) (htxn : t.txn.isSome = true) (s : Setting)
    {record : Record} (hwf : record.wellFormed = true) :
    (p.applyRecord t s record).done ↔ t.poisons record = false := by
  unfold Process.applyRecord
  by_cases hstart : record.kind = .engineStarted
  · simp only [hstart, if_true, Tracker.poisons, iff_true]
    exact done_ok
  · simp only [hstart, if_false]
    obtain ⟨e, hpayload, hevent⟩ := wellFormed_payload hwf hstart
    simp only [hpayload, hevent, ne_eq, not_true_eq_false, if_false]
    rw [step_done_iff (save_ok htxn (Or.inr ⟨_, rfl⟩))]
    have hkept : Inside t (t.run (.store (.saveActivity (record.activity s.epoch).toList))).2 :=
      run_inside hsync htxn _
    rw [← poisons_aside (save_aside htxn (.saveActivity (record.activity s.epoch).toList)) record]
    generalize (t.run (.store (.saveActivity (record.activity s.epoch).toList))).2 = u at hkept ⊢
    unfold Record.wellFormed at hwf
    rw [hpayload] at hwf
    unfold Tracker.poisons
    rw [hpayload]
    cases hkind : record.kind with
    | engineStarted => exact absurd hkind hstart
    | unsupported =>
        rw [hkind] at hwf
        cases hwf
    | observation => simpa using done_ok
    | requestOutcome => simpa using applyOutcome_done s p.chatMessages e
    | chat => exact applyChat_done_iff hkept.sync hkept.txn s (p.boot e) e.item
    | requestAdmitted =>
        rw [hkind] at hwf
        cases hrequest : e.requestId with
        | none => simp [hrequest] at hwf
        | some request =>
            have hname : request ≠ "" := by
              simpa [hrequest, hevent] using hwf
            obtain ⟨st, _, hs, _⟩ := open_store hkept.txn
            have hrun := (confirmAdmission_spec (r := request) (u := u) (by simp [hs]) (p.boot e) s.now).1
            simp only [hname, if_false, iff_true]
            exact (@step_done_iff u (.confirmAdmission request (p.boot e) s.now) _ _ hrun).mpr done_ok
    | subagent event =>
        rw [hkind] at hwf
        cases hrequest : e.requestId with
        | none => simp [hrequest] at hwf
        | some request =>
            cases hid : e.id with
            | none => simp [hid] at hwf
            | some a =>
                have hname : request ≠ "" := by
                  simp only [hrequest, hid, Option.any_some, Bool.and_eq_true, decide_eq_true_eq] at hwf
                  exact hwf.1.2
                simpa [hid, hrequest] using applyWorkerEvent_done_iff hkept.sync hkept.txn s p.bootId (p.boot e) event hid
                  hrequest hname


theorem checkpoint_next {u : Tracker} (htxn : u.txn.isSome = true) (s : Setting) (record : Record)
    (hepoch : u.db.cursor.follows s.epoch = true) (hseq : record.seq = u.db.cursor.seq + 1)
    (effects : List Effect) :
    ∃ u', u.step (.store (.checkpoint s.epoch record.seq u.db.cursor.bootId)) (fun _ t => (.ok effects, t)) =
      (.ok effects, u') ∧ u'.txn.isSome = true ∧ u'.db.cursor.seq = record.seq := by
  obtain ⟨st, x, hs, hx⟩ := open_store htxn
  have hdb : st.db = u.db := by simp [Tracker.db, hs]
  have hok : st.db.checkpoint s.epoch record.seq u.db.cursor.bootId =
      .ok { st.db with consumerState := some ⟨record.seq, s.epoch, u.db.cursor.bootId⟩ } := by
    unfold Db.checkpoint
    rw [hdb]
    have hsame : (!u.db.cursor.epoch.all (· = "") && decide (u.db.cursor.epoch ≠ s.epoch)) = false := by
      simp only [Cursor.follows, Bool.or_eq_true, decide_eq_true_eq] at hepoch
      rcases hepoch with hnone | hsame
      · simp [hnone]
      · simp [hsame]
    have hforward : ¬record.seq < u.db.cursor.seq := by omega
    simp only [hsame, Bool.false_eq_true, if_false, hforward]
  unfold Tracker.step
  simp only [Tracker.run, hs, Tracker.runStore, hx, Option.isNone_some, Bool.false_eq_true, if_false, hok]
  refine ⟨_, rfl, ?_, ?_⟩
  · simp [Tracker.withDb, Tracker.txn, hs, hx]
  · simp [Tracker.withDb, Tracker.db, Db.cursor, hs]

end Records

-- Catch-up gets past every well-formed record the tracker does not refuse.
theorem record_advances_iff {maxWorkflows : Nat} {p : Process} {s : Setting} {record : Record}
    (h : (recoveryMachine maxWorkflows).Reachable p) (hclosed : p.tracker.closed = true)
    (hwf : record.wellFormed = true) (hseq : record.seq = p.tracker.db.cursor.seq + 1)
    (hepoch : p.tracker.db.cursor.follows s.epoch = true) :
    p.Advances s record ↔ p.tracker.poisons record = false := by
  obtain ⟨hsync, _⟩ := recovery_reachable h
  have hbegin := hsync.begin hclosed
  have htxn := begin_txn hclosed
  have hdone := applyRecord_done_iff (p := p.heard record) hbegin htxn s hwf
  have hruns := applyRecord_runs (p.heard record) p.tracker.begin s record
  rw [← poisons_begin, ← hdone]
  simp only [Process.Advances, Process.attempt, Process.body, heard_tracker]
  obtain ⟨hkept, hcursor⟩ := hruns.invariant (P := fun u => u.db.cursor = p.tracker.begin.db.cursor) hbegin htxn
    rfl fun u op hs hx hop hu => (ofRecord_cursor hs hx hop).trans hu
  rw [(like_begin p.tracker).db] at hcursor
  rcases hpair : (p.heard record).applyRecord p.tracker.begin s record with ⟨result, u⟩
  rw [hpair] at hkept hcursor
  cases result with
  | error e =>
      refine ⟨fun hadvance => ?_, fun hdone => absurd hdone not_done_error⟩
      cases hadvance.1
  | ok effects =>
      refine ⟨fun _ => done_ok, fun _ => ?_⟩
      change u.db.cursor = _ at hcursor
      obtain ⟨u', hstep, htxn', hseq'⟩ := checkpoint_next hkept.txn s record
        (by rw [hcursor]; exact hepoch) (by rw [hcursor]; exact hseq) effects
      simp only [hstep, Bool.false_eq_true, if_false, true_and]
      rw [commit_db htxn']
      exact hseq'

def deletedRun : List ProcessAction := onlyAdmitted ++ [.tracker (.call (.forgetWorkflow "r" true) false)]

def spawnedFor (request : RequestId) : Record where
  seq := 1
  type := "subagent_spawned"
  payload := some { event := "subagent_spawned", requestId := some request, id := some "x" }

theorem record_advances_deletedRun :
    ∃ p, (recoveryMachine 2).run (recoveryMachine 2).start deletedRun = some p ∧
      p.Advances replaySetting (spawnedFor "q") := by
  refine ⟨_, rfl, ?_⟩
  exact (@record_advances_iff 2 _ replaySetting (spawnedFor "q") ⟨deletedRun, rfl⟩ rfl (by decide) (by decide)
    (by decide)).mpr (by decide)

-- Every later attempt meets the same error.
theorem record_poisons_deletedRun :
    ∃ p, (recoveryMachine 2).run (recoveryMachine 2).start deletedRun = some p ∧
      p.tracker.closed = true ∧ (spawnedFor "r").wellFormed = true ∧
      (p.attempt replaySetting (spawnedFor "r") false).1 = .error (.conductor (.unknownRequest "r")) ∧
      (p.attempt replaySetting (spawnedFor "r") false).2.tracker.db.cursor.seq = 0 ∧
      ¬p.Advances replaySetting (spawnedFor "r") := by
  refine ⟨_, rfl, by decide, by decide, by decide, by decide, fun h => ?_⟩
  exact absurd h.2 (by decide)

end GaHub.Conductor
