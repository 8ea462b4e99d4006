import GaHub.Conductor.Projection

namespace GaHub.Conductor

open Lib

structure Like (t u : Tracker) : Prop where
  workflows : u.workflows = t.workflows
  owners : u.owners = t.owners
  db : u.db = t.db
  store : u.store.isSome = t.store.isSome

section Like

variable {t u : Tracker}

theorem Like.refl (t : Tracker) : Like t t := ⟨rfl, rfl, rfl, rfl⟩

theorem Like.find (h : Like t u) (r : RequestId) : u.find r = t.find r :=
  Tracker.find_congr h.workflows (congrArg Db.workflows h.db) r

theorem Like.requestForSubagent (h : Like t u) (a : AgentId) :
    u.requestForSubagent a = t.requestForSubagent a := by
  unfold Tracker.requestForSubagent
  rw [h.owners, h.db]

theorem like_begin (t : Tracker) : Like t t.begin := by
  refine ⟨rfl, rfl, ?_, by simp [Tracker.begin]⟩
  unfold Tracker.db Tracker.begin
  cases t.store <;> rfl

end Like

-- How a call comes out: its transaction failed, it had nothing to edit, or its
-- body ran and what it left can be looked up.
inductive Course (t : Tracker) (op : Op) : Result → Prop where
  | failed {e : ConductorError} {t' : Tracker} (hfind : ∀ r, t'.find r = t.find r) :
      Course t op (.error e, t')
  | idle {t' : Tracker} (hidle : op.opens t = false) (hfind : ∀ r, t'.find r = t.find r) :
      Course t op ((t.run op).1, t')
  | ran {u t' : Tracker} (hlike : Like t u) (hready : u.Ready) (hsync : Synced u)
      (hfind : ∀ r, t'.find r = (u.run op).2.find r) : Course t op ((u.run op).1, t')

section Calls

variable {t u : Tracker} {op : Op}

theorem Synced.find_named (h : Synced t) {r : RequestId} {w : WorkflowState} (hfind : t.find r = some w) :
    w.requestId = r := by
  cases hheld : t.workflows.get? r with
  | some v =>
      cases (Tracker.find_of_held hheld).symm.trans hfind
      exact h.named r w hheld
  | none =>
      cases hrow : t.rows.get? r with
      | none => cases (Tracker.find_eq_none.mpr ⟨hheld, hrow⟩).symm.trans hfind
      | some row =>
          cases (Tracker.find_of_row hheld hrow).symm.trans hfind
          exact (h.rows r row hrow).decode.1

theorem commit_find (h : Synced t) (hopen : t.txn.isSome = true) (r : RequestId) :
    t.commit.find r = t.find r := by
  rw [(h.commit hopen).find_closed (commit_closed hopen), commit_rows h hopen]
  cases hw : t.workflows.get? r with
  | none => simp [Tracker.find, hw]
  | some w => simp [Tracker.find, hw, WorkflowState.decodeState_asdict]

theorem rollback_find (h : Synced t) (hclosed : t.closed = true) (hu : Synced u)
    (hwithin : Within t.begin u) (r : RequestId) : u.rollback.find r = t.find r := by
  obtain ⟨s, hs, _⟩ := closed_store hclosed
  have hopen : t.begin.txn.isSome = true := by simp [Tracker.begin, Tracker.txn, hs]
  have hinside : u.txn.isSome = true := hwithin.txn.trans hopen
  have hdb : u.rollback.db = t.db := by
    rw [rollback_db hinside, hwithin.saved hopen]
    simp [Tracker.begin, Tracker.saved, Tracker.txn, Tracker.db, hs]
  have hrows : u.rollback.rows = t.rows := congrArg Db.workflows hdb
  rw [(hu.rollback hinside).find_closed (rollback_closed hinside), h.find_closed hclosed, hrows]

theorem run_synced (h : Synced u) (hready : u.Ready) : Synced (u.run op).2 :=
  (@pieces_invariant (fun _ => True) (fun _ => True) u _ (fun _ _ _ _ _ => trivial) ⟨h, trivial⟩
    (run_pieces hready h.named)).1

theorem touch_find (t : Tracker) (q r : RequestId) : (t.touch q).find r = t.find r :=
  @Tracker.find_congr t (t.touch q) rfl (t.touch_rows q) r

theorem hold_find (t : Tracker) (q : RequestId) (w : WorkflowState) (r : RequestId) :
    (t.hold q w).find r = if r = q then some w else t.find r := by
  unfold Tracker.find
  rw [Tracker.hold_workflows, Tracker.hold_rows, Dict.get?_set]
  split <;> rfl

theorem loaded_find {q : RequestId} {w : WorkflowState} (h : t.find q = some w) (r : RequestId) :
    ((t.hold q w).touch q).find r = t.find r := by
  rw [touch_find, hold_find]
  split
  · rename_i hr
    rw [hr, h]
  · rfl

theorem arrive_find {t' : Tracker} (harr : Arrival op t t') (r : RequestId) :
    t'.find r = t.find r ∨
      (op.admits = some r ∧ t.find r = none ∧
        ∃ w, t'.find r = some w ∧ w.terminalEvent = none ∧ w.finalItem = none) ∨
      (∃ allow, op = .forgetWorkflow r allow) ∧ t'.find r = none := by
  cases harr with
  | stayed _ _ _ => exact Or.inl rfl
  | held _ _ | probed _ _ _ => exact Or.inl (touch_find t _ r)
  | @loaded q row _ hnone hrow =>
      rw [touch_find, hold_find]
      refine Or.inl ?_
      split
      · rename_i hr
        rw [hr, Tracker.find_of_row hnone hrow]
      · rfl
  | @created q w hop hnone _ _ hopen hitem _ =>
      rw [hold_find, touch_find]
      split
      · rename_i hr
        subst hr
        exact Or.inr (Or.inl ⟨hop, hnone, w, rfl, hopen, hitem⟩)
      · exact Or.inl rfl
  | @forgotten q allow hop _ =>
      by_cases hr : r = q
      · subst hr
        refine Or.inr (Or.inr ⟨⟨allow, hop⟩, Tracker.find_eq_none.mpr ⟨?_, ?_⟩⟩)
        · rw [forget_workflows, if_pos rfl]
        · rw [forget_rows, if_pos rfl]
      · refine Or.inl ?_
        unfold Tracker.find
        rw [forget_workflows, forget_rows, if_neg hr, if_neg hr]

theorem edit_find {t' : Tracker} {r : RequestId} {w' : WorkflowState} (hedit : Edit op t t')
    (hfind : t'.find r = some w') :
    t.find r = some w' ∨ ∃ w, t.workflows.get? r = some w ∧ Change op w w' := by
  cases hedit with
  | touched _ => exact Or.inl ((touch_find t _ r).symm.trans hfind)
  | @changed q v v' hheld _ hchange =>
      rw [hold_find] at hfind
      split at hfind
      · rename_i hr
        cases hfind
        exact Or.inr ⟨v, hr ▸ hheld, hchange⟩
      · exact Or.inl hfind
  | owned => exact Or.inl hfind
  | pruned hstore =>
      have hrows : t.prune.rows.get? r = none := by
        change t.rows.get? r = none
        simp [Tracker.rows, Tracker.db, hstore]
      have hheld : t.prune.workflows.get? r = some w' := by simpa [Tracker.find, hrows] using hfind
      exact Or.inl (Tracker.find_of_held (prune_held hheld))

theorem idle_find (hclosed : t.closed = true) (hopens : op.opens t = false) (r : RequestId) :
    (t.run op).2.find r = t.find r := by
  rcases run_idle hclosed hopens with haside | ⟨q, rfl, harr⟩
  · exact Tracker.find_congr haside.workflows haside.rows r
  · rcases arrive_find harr r with hsame | ⟨hadmits, _⟩ | ⟨⟨allow, hforget⟩, _⟩
    · exact hsame
    · cases hadmits
    · cases hforget

theorem call_course (h : Synced t) (op : Op) (fault : Bool) : Course t op (t.call op fault) := by
  unfold Tracker.call
  split
  · rename_i hopens
    obtain ⟨hclosed, hopens⟩ := Bool.and_eq_true_iff.mp hopens
    obtain ⟨s, hs, _⟩ := closed_store hclosed
    have hready := ready_begin t
    have hbegin := h.begin hclosed
    have hsync : Synced (t.begin.run op).2 := run_synced hbegin hready
    have hwithin : Within t.begin (t.begin.run op).2 := run_within hready hbegin.named
    have hopen : (t.begin.run op).2.txn.isSome = true := by
      rw [hwithin.txn]
      simp [Tracker.begin, Tracker.txn, hs]
    have hran : Course t op ((t.begin.run op).1, (t.begin.run op).2.commit) :=
      .ran (like_begin t) hready hbegin (commit_find hsync hopen)
    have hundo := rollback_find h hclosed hsync hwithin
    split
    · rename_i hrun
      rw [hrun] at hundo
      exact .failed hundo
    · rename_i hrun
      rw [hrun] at hundo hran
      split
      · exact .failed hundo
      · exact hran
  · rename_i hopens
    cases hclosed : t.closed with
    | false => exact .ran (.refl t) (ready_of_not_closed hclosed) h fun _ => rfl
    | true =>
        have hidle : op.opens t = false := by simpa [hclosed] using hopens
        exact .idle hidle (idle_find hclosed hidle)

end Calls

end GaHub.Conductor
