import GaHub.Conductor.Steps

namespace GaHub.Conductor

open Lib

def Row.Encodes (row : Row) (r : RequestId) : Prop := ∃ w : WorkflowState, row = w.asdict ∧ w.requestId = r

theorem Row.Encodes.decode {row : Row} {r : RequestId} (h : row.Encodes r) :
    (WorkflowState.decodeState row).requestId = r ∧ (WorkflowState.decodeState row).asdict = row := by
  obtain ⟨w, rfl, hid⟩ := h
  rw [WorkflowState.decodeState_asdict]
  exact ⟨hid, rfl⟩

-- Memory, rollback points and rows belong together: a workflow in memory is
-- written as its row, unless this transaction has touched it, and then its
-- rollback point is.
structure Synced (t : Tracker) : Prop where
  named : ∀ r w, t.workflows.get? r = some w → w.requestId = r
  rows : ∀ r row, t.rows.get? r = some row → row.Encodes r
  saved : ∀ r row, t.saved.workflows.get? r = some row → row.Encodes r
  untouched : t.store.isSome = true → ∀ r w, t.workflows.get? r = some w → t.before.get? r = none →
    t.rows.get? r = some w.asdict ∧ t.saved.workflows.get? r = some w.asdict
  touched : ∀ r p, t.before.get? r = some (some p) →
    p.requestId = r ∧ t.saved.workflows.get? r = some p.asdict ∧
      (t.workflows.get? r = none ∧ t.rows.get? r = none ∧ r ∈ t.tombstones ∨
        (∃ w, t.workflows.get? r = some w) ∧ t.rows.get? r = some p.asdict)
  shrunk : ∀ r row, t.rows.get? r = some row → t.saved.workflows.get? r = some row

section Edits

variable {t t' : Tracker} {r : RequestId} {w : WorkflowState}

theorem Synced.same (h : Synced t) (hw : t'.workflows = t.workflows) (hr : t'.rows = t.rows)
    (hs : t'.saved.workflows = t.saved.workflows) (hb : t'.before = t.before)
    (ht : t'.tombstones = t.tombstones) (hstore : t'.store.isSome = t.store.isSome) : Synced t' := by
  constructor <;> simp only [hw, hr, hs, hb, ht, hstore]
  · exact h.named
  · exact h.rows
  · exact h.saved
  · exact h.untouched
  · exact h.touched
  · exact h.shrunk

theorem Synced.touch (h : Synced t) (r : RequestId) : Synced (t.touch r) := by
  refine ⟨h.named, ?_, ?_, fun hs q w hw hb => ?_, fun q p hb => ?_, ?_⟩
  · simpa using h.rows
  · simpa using h.saved
  · rw [Tracker.touch_before] at hb
    simp only [Tracker.touch_rows, Tracker.touch_saved]
    split at hb
    · cases hb
    · exact h.untouched (by simpa using hs) q w hw hb
  · simp only [Tracker.touch_rows, Tracker.touch_saved, Tracker.touch_workflows,
      Tracker.touch_tombstones]
    rw [Tracker.touch_before] at hb
    split at hb
    · rename_i hnew
      obtain ⟨rfl, hnone, htxn⟩ := hnew
      have hp : t.workflows.get? q = some p := Option.some.inj hb
      have hstore : t.store.isSome = true := by
        cases hst : t.store <;> simp [Tracker.txn, hst] at htxn ⊢
      obtain ⟨hrow, hsaved⟩ := h.untouched hstore q p hp hnone
      exact ⟨h.named q p hp, hsaved, Or.inr ⟨⟨p, hp⟩, hrow⟩⟩
    · exact h.touched q p hb
  · simpa using h.shrunk

theorem Synced.named_hold (h : Synced t) (hid : w.requestId = r) :
    ∀ q v, (t.hold r w).workflows.get? q = some v → v.requestId = q := by
  intro q v hv
  rw [Tracker.hold_workflows, Dict.get?_set] at hv
  split at hv
  · cases hv
    exact hid.trans (Eq.symm ‹_›)
  · exact h.named q v hv

theorem Synced.change (h : Synced t) {w' : WorkflowState} (hheld : t.workflows.get? r = some w)
    (htouched : t.Touched r) (hid : w'.requestId = r) : Synced (t.hold r w') := by
  refine ⟨h.named_hold hid, h.rows, h.saved, fun hs q v hv hb => ?_, fun q p hb => ?_, h.shrunk⟩
  · have hne : q ≠ r := by
      rintro rfl
      have := htouched hs
      rw [show t.before.get? q = none from hb] at this
      cases this
    rw [Tracker.hold_workflows, Dict.get?_set_ne _ _ hne] at hv
    exact h.untouched hs q v hv hb
  · obtain ⟨hp, hsaved, hcase⟩ := h.touched q p hb
    refine ⟨hp, hsaved, ?_⟩
    by_cases hq : q = r
    · subst hq
      refine Or.inr ⟨⟨w', Dict.get?_set_self ..⟩, ?_⟩
      rcases hcase with ⟨hnone, _⟩ | ⟨_, hrow⟩
      · rw [hheld] at hnone
        cases hnone
      · exact hrow
    · simpa only [Tracker.hold_workflows, Tracker.hold_rows, Tracker.hold_tombstones,
        Dict.get?_set_ne _ _ hq] using hcase

theorem Synced.load (h : Synced t) {row : Row} (hnone : t.workflows.get? r = none)
    (hrow : t.rows.get? r = some row) : Synced (t.hold r (.decodeState row)) := by
  obtain ⟨hid, henc⟩ := (h.rows r row hrow).decode
  refine ⟨h.named_hold hid, h.rows, h.saved, fun hs q v hv hb => ?_, fun q p hb => ?_, h.shrunk⟩
  · rw [Tracker.hold_workflows, Dict.get?_set] at hv
    split at hv
    · rename_i hq
      cases hv
      subst hq
      rw [henc]
      exact ⟨hrow, h.shrunk q row hrow⟩
    · exact h.untouched hs q v hv hb
  · obtain ⟨hp, hsaved, hcase⟩ := h.touched q p hb
    refine ⟨hp, hsaved, ?_⟩
    by_cases hq : q = r
    · subst hq
      rcases hcase with ⟨_, hnorow, _⟩ | ⟨⟨v, hv⟩, _⟩
      · rw [show t.rows.get? q = none from hnorow] at hrow
        cases hrow
      · rw [hnone] at hv
        cases hv
    · simpa only [Tracker.hold_workflows, Tracker.hold_rows, Tracker.hold_tombstones,
        Dict.get?_set_ne _ _ hq] using hcase

theorem Synced.create (h : Synced t) (hready : t.Ready) (hnone : t.find r = none)
    (hburied : r ∉ t.tombstones) (hid : w.requestId = r) : Synced ((t.touch r).hold r w) := by
  obtain ⟨hmem, hrow⟩ := Tracker.find_eq_none.mp hnone
  have htouch := h.touch r
  refine ⟨htouch.named_hold hid, htouch.rows, htouch.saved, fun hs q v hv hb => ?_, fun q p hb => ?_,
    htouch.shrunk⟩
  · have hne : q ≠ r := by
      rintro rfl
      have := Tracker.touched_touch t q hready hs
      rw [show (t.touch q).before.get? q = none from hb] at this
      cases this
    rw [Tracker.hold_workflows, Dict.get?_set_ne _ _ hne] at hv
    exact htouch.untouched hs q v hv hb
  · obtain ⟨hp, hsaved, hcase⟩ := htouch.touched q p hb
    refine ⟨hp, hsaved, ?_⟩
    by_cases hq : q = r
    · subst hq
      rcases hcase with ⟨_, _, hin⟩ | ⟨⟨v, hv⟩, _⟩
      · exact absurd hin hburied
      · rw [Tracker.touch_workflows, hmem] at hv
        cases hv
    · simpa only [Tracker.hold_workflows, Tracker.hold_rows, Tracker.hold_tombstones,
        Dict.get?_set_ne _ _ hq] using hcase

theorem forget_workflows (t : Tracker) (r q : RequestId) :
    (t.forgetWorkflow r true).2.workflows.get? q = if q = r then none else t.workflows.get? q := by
  rw [forgetWorkflow_eq]
  exact Dict.get?_erase ..

theorem forget_rows (t : Tracker) (r q : RequestId) :
    (t.forgetWorkflow r true).2.rows.get? q = if q = r then none else t.rows.get? q := by
  rw [forgetWorkflow_eq]
  unfold Tracker.rows Tracker.db Tracker.withDb
  cases t.store with
  | none => simp
  | some s => exact Dict.get?_erase ..

theorem forget_before (t : Tracker) (r : RequestId) :
    (t.forgetWorkflow r true).2.before = t.before := by
  rw [forgetWorkflow_eq]
  exact congrArg (fun x : Option Txn => (x.map Txn.before).getD .empty)
    (withDb_txn t (·.forgetWorkflow r))

theorem forget_tombstones (t : Tracker) (r : RequestId) :
    (t.forgetWorkflow r true).2.tombstones = insert r t.tombstones := by
  rw [forgetWorkflow_eq]

theorem Synced.forget (h : Synced t) (hready : t.Ready) (r : RequestId) :
    Synced (t.forgetWorkflow r true).2 := by
  have hstore : (t.forgetWorkflow r true).2.store.isSome = t.store.isSome := by
    rw [forgetWorkflow_eq]
    simp [Tracker.withDb]
  have hsaved : (t.forgetWorkflow r true).2.saved.workflows = t.saved.workflows := by
    rw [forgetWorkflow_eq]
    cases hs : t.store with
    | none => simp [Tracker.saved, Tracker.txn, Tracker.db, Tracker.withDb, hs]
    | some s =>
        exact congrArg Db.workflows (withDb_saved (f := (·.forgetWorkflow r)) (hready (by simp [hs])))
  refine ⟨fun q w hw => ?_, fun q row hrow => ?_, ?_, fun hs q w hw hb => ?_, fun q p hb => ?_,
    fun q row hrow => ?_⟩
  · rw [forget_workflows] at hw
    split at hw
    · cases hw
    · exact h.named q w hw
  · rw [forget_rows] at hrow
    split at hrow
    · cases hrow
    · exact h.rows q row hrow
  · rw [hsaved]
    exact h.saved
  · rw [forget_workflows] at hw
    rw [forget_rows, hsaved]
    split at hw
    · cases hw
    · rename_i hq
      rw [if_neg hq]
      exact h.untouched (hstore ▸ hs) q w hw (forget_before t r ▸ hb)
  · rw [forget_before] at hb
    obtain ⟨hp, hsv, hcase⟩ := h.touched q p hb
    rw [forget_workflows, forget_rows, hsaved, forget_tombstones]
    refine ⟨hp, hsv, ?_⟩
    by_cases hq : q = r
    · exact Or.inl ⟨if_pos hq, if_pos hq, by simp [hq]⟩
    · simp only [if_neg hq]
      exact hcase.imp_left fun hgone => ⟨hgone.1, hgone.2.1, Finset.mem_insert_of_mem hgone.2.2⟩
  · rw [forget_rows] at hrow
    rw [hsaved]
    split at hrow
    · cases hrow
    · exact h.shrunk q row hrow

end Edits

section Ends

variable {t : Tracker} {s : Store} {r : RequestId} {w : WorkflowState}

theorem open_store (h : t.txn.isSome = true) :
    ∃ s x, t.store = some s ∧ s.txn = some x := by
  obtain ⟨x, hx⟩ := Option.isSome_iff_exists.mp h
  obtain ⟨s, hs, hsx⟩ := Option.bind_eq_some_iff.mp hx
  exact ⟨s, x, hs, hsx⟩

theorem closed_store (h : t.closed = true) : ∃ s, t.store = some s ∧ s.txn = none := by
  simp only [Tracker.closed, Bool.and_eq_true, Option.isNone_iff_eq_none] at h
  obtain ⟨s, hs⟩ := Option.isSome_iff_exists.mp h.1
  exact ⟨s, hs, by simpa [Tracker.txn, hs] using h.2⟩

theorem Synced.begin (h : Synced t) (hclosed : t.closed = true) : Synced t.begin := by
  obtain ⟨s, hs, hx⟩ := closed_store hclosed
  have hrows : t.begin.rows = t.rows := by simp [Tracker.rows, Tracker.db, Tracker.begin, hs]
  have hsaved : t.begin.saved.workflows = t.saved.workflows := by
    simp [Tracker.saved, Tracker.txn, Tracker.begin, Tracker.db, hs, hx]
  have hbefore : t.begin.before = t.before := by
    simp [Tracker.before, Tracker.txn, Tracker.begin, hs, hx]
  exact h.same rfl hrows hsaved hbefore rfl (by simp [Tracker.begin])

theorem prune_workflows (t : Tracker) (r : RequestId) : t.prune.workflows.get? r =
    (t.workflows.get? r).filter fun _ => decide (r ∉ Tracker.pruned t.workflows t.maxWorkflows) := by
  exact Dict.get?_filter ..

theorem prune_held (h : t.prune.workflows.get? r = some w) : t.workflows.get? r = some w := by
  rw [prune_workflows, Option.filter_eq_some_iff] at h
  exact h.1

theorem pruned_terminal {workflows : Dict RequestId WorkflowState} {n : Nat}
    (hnamed : ∀ r w, workflows.get? r = some w → w.requestId = r) (h : r ∈ Tracker.pruned workflows n) :
    ∃ w, workflows.get? r = some w ∧ w.terminalEvent.isSome = true := by
  obtain ⟨w, hw, rfl⟩ := List.mem_map.mp h
  have hmem := List.mem_of_mem_take hw
  rw [List.mem_insertionSort, List.mem_filter] at hmem
  obtain ⟨q, hq⟩ := Dict.mem_values_iff.mp hmem.1
  exact ⟨w, (hnamed q w hq).symm ▸ hq, hmem.2⟩

theorem prune_open (hnamed : ∀ r w, t.workflows.get? r = some w → w.requestId = r)
    (h : t.workflows.get? r = some w) (hopen : w.terminalEvent = none) :
    t.prune.workflows.get? r = some w := by
  rw [prune_workflows, h, Option.filter_some, if_pos]
  refine decide_eq_true fun hin => ?_
  obtain ⟨v, hv, hterm⟩ := pruned_terminal hnamed hin
  cases h.symm.trans hv
  rw [hopen] at hterm
  cases hterm

def Tracker.written (t : Tracker) (s : Store) (x : Txn) : Tracker :=
  { t with store := some {
      db := { s.db with workflows := x.before.entries.foldl t.saveRow s.db.workflows }
      ran := s.ran ++ x.effects } }

theorem commit_eq {x : Txn} (hs : t.store = some s) (hx : s.txn = some x) :
    t.commit = (t.written s x).prune := by
  simp only [Tracker.commit, hs, hx, Tracker.written]

theorem commit_rows (h : Synced t) (hopen : t.txn.isSome = true) (r : RequestId) :
    t.commit.rows.get? r = (t.workflows.get? r).elim (t.rows.get? r) fun w => some w.asdict := by
  obtain ⟨s, x, hs, hx⟩ := open_store hopen
  have hbefore : t.before = x.before := by simp [Tracker.before, Tracker.txn, hs, hx]
  have hrows : t.rows = s.db.workflows := by simp [Tracker.rows, Tracker.db, hs]
  rw [commit_eq hs hx]
  change (x.before.entries.foldl t.saveRow s.db.workflows).get? r = _
  rw [Dict.get?_foldl_entries t.saveRow (fun q previous old =>
    (t.workflows.get? q).elim old fun w => if previous = some w then old else some w.asdict)]
  · rw [← hbefore, ← hrows]
    cases hm : t.workflows.get? r with
    | none => cases t.before.get? r <;> rfl
    | some w =>
        cases hb : t.before.get? r with
        | none => exact (h.untouched (by simp [hs]) r w hm hb).1
        | some previous =>
            simp only [Option.elim_some]
            split
            · rename_i heq
              obtain ⟨_, _, hcase⟩ := h.touched r w (heq ▸ hb)
              rcases hcase with ⟨hnone, _⟩ | ⟨_, hrow⟩
              · rw [hm] at hnone
                cases hnone
              · exact hrow
            · rfl
  · intro d e k hk
    unfold Tracker.saveRow
    split
    · rfl
    · rename_i w hw
      split
      · rfl
      · rw [h.named e.1 w hw]
        exact Dict.get?_set_ne _ _ hk
  · intro d e
    unfold Tracker.saveRow
    cases hw : t.workflows.get? e.1 with
    | none => rfl
    | some w =>
        simp only [Option.elim_some]
        split
        · rfl
        · rw [h.named e.1 w hw]
          exact Dict.get?_set_self ..

theorem Synced.of_closed (hclosed : t.closed = true)
    (hnamed : ∀ r w, t.workflows.get? r = some w → w.requestId = r)
    (hrows : ∀ r row, t.rows.get? r = some row → row.Encodes r)
    (hheld : ∀ r w, t.workflows.get? r = some w → t.rows.get? r = some w.asdict) : Synced t := by
  obtain ⟨s, hs, hx⟩ := closed_store hclosed
  have hsaved : t.saved.workflows = t.rows := by
    simp [Tracker.saved, Tracker.txn, Tracker.rows, hs, hx]
  have hbefore : t.before = .empty := by simp [Tracker.before, Tracker.txn, hs, hx]
  refine ⟨hnamed, hrows, hsaved ▸ hrows, fun _ r w hw _ => ?_, fun r p hb => ?_, fun r row hrow => ?_⟩
  · rw [hsaved]
    exact ⟨hheld r w hw, hheld r w hw⟩
  · rw [hbefore] at hb
    cases hb
  · rw [hsaved]
    exact hrow

-- Between transactions every workflow in memory is written as its row, so a
-- lookup answers with the row.
theorem Synced.row_of_held (h : Synced t) (hclosed : t.closed = true)
    (hheld : t.workflows.get? r = some w) : t.rows.get? r = some w.asdict := by
  obtain ⟨s, hs, hx⟩ := closed_store hclosed
  exact (h.untouched (by simp [hs]) r w hheld (by simp [Tracker.before, Tracker.txn, hs, hx])).1

theorem Synced.find_closed (h : Synced t) (hclosed : t.closed = true) (r : RequestId) :
    t.find r = (t.rows.get? r).map .decodeState := by
  cases hw : t.workflows.get? r with
  | none => simp [Tracker.find, hw]
  | some w =>
      rw [Tracker.find_of_held hw, h.row_of_held hclosed hw, Option.map_some,
        WorkflowState.decodeState_asdict]

theorem commit_closed (hopen : t.txn.isSome = true) : t.commit.closed = true := by
  obtain ⟨s, x, hs, hx⟩ := open_store hopen
  rw [commit_eq hs hx]
  rfl

theorem commit_held (h : t.commit.workflows.get? r = some w) (hopen : t.txn.isSome = true) :
    t.workflows.get? r = some w := by
  obtain ⟨s, x, hs, hx⟩ := open_store hopen
  rw [commit_eq hs hx] at h
  exact prune_held h

theorem Synced.commit (h : Synced t) (hopen : t.txn.isSome = true) : Synced t.commit := by
  have hheld : ∀ r w, t.commit.workflows.get? r = some w → t.workflows.get? r = some w :=
    fun r w hw => commit_held hw hopen
  refine .of_closed (commit_closed hopen) (fun r w hw => h.named r w (hheld r w hw))
    (fun r row hrow => ?_) fun r w hw => ?_
  · rw [commit_rows h hopen] at hrow
    cases hm : t.workflows.get? r with
    | none =>
        rw [hm] at hrow
        exact h.rows r row hrow
    | some w =>
        rw [hm] at hrow
        cases hrow
        exact ⟨w, rfl, h.named r w hm⟩
  · rw [commit_rows h hopen, hheld r w hw]
    rfl

theorem rollback_workflows (hopen : t.txn.isSome = true) (r : RequestId) :
    t.rollback.workflows.get? r = (t.before.get? r).elim (t.workflows.get? r) id := by
  obtain ⟨s, x, hs, hx⟩ := open_store hopen
  have hbefore : t.before = x.before := by simp [Tracker.before, Tracker.txn, hs, hx]
  simp only [Tracker.rollback, hs, hx]
  rw [Dict.get?_foldl_entries Tracker.restorePoint (fun _ previous _ => previous), hbefore]
  · cases x.before.get? r <;> rfl
  · intro d e k hk
    unfold Tracker.restorePoint
    split
    · exact Dict.get?_erase_ne _ hk
    · exact Dict.get?_set_ne _ _ hk
  · intro d e
    unfold Tracker.restorePoint
    split <;> rename_i heq <;> rw [heq]
    · exact Dict.get?_erase_self ..
    · exact Dict.get?_set_self ..

theorem rollback_db (hopen : t.txn.isSome = true) : t.rollback.db = t.saved := by
  obtain ⟨s, x, hs, hx⟩ := open_store hopen
  simp [Tracker.rollback, hs, hx, Tracker.db, Tracker.saved, Tracker.txn]

theorem rollback_closed (hopen : t.txn.isSome = true) : t.rollback.closed = true := by
  obtain ⟨s, x, hs, hx⟩ := open_store hopen
  simp [Tracker.rollback, hs, hx, Tracker.closed, Tracker.txn]

theorem Synced.rollback (h : Synced t) (hopen : t.txn.isSome = true) : Synced t.rollback := by
  have hrows : t.rollback.rows = t.saved.workflows := congrArg Db.workflows (rollback_db hopen)
  have hstore : t.store.isSome = true := by
    obtain ⟨s, _, hs, _⟩ := open_store hopen
    simp [hs]
  have hback : ∀ r w, t.rollback.workflows.get? r = some w →
      w.requestId = r ∧ t.saved.workflows.get? r = some w.asdict := by
    intro r w hw
    rw [rollback_workflows hopen] at hw
    cases hb : t.before.get? r with
    | none =>
        rw [hb] at hw
        exact ⟨h.named r w hw, (h.untouched hstore r w hw hb).2⟩
    | some previous =>
        rw [hb] at hw
        cases hw
        obtain ⟨hid, hsaved, _⟩ := h.touched r w hb
        exact ⟨hid, hsaved⟩
  refine .of_closed (rollback_closed hopen) (fun r w hw => (hback r w hw).1) ?_ fun r w hw => ?_
  · rw [hrows]
    exact h.saved
  · rw [hrows]
    exact (hback r w hw).2

theorem restoreState_get? {db : Db} (henc : ∀ r row, db.workflows.get? r = some row → row.Encodes r)
    (order : List RequestId) (r : RequestId) : (Tracker.restoreState db order).get? r =
      if r ∈ order then (db.workflows.get? r).map .decodeState else none := by
  unfold Tracker.restoreState
  induction order using List.reverseRecOn with
  | nil => rfl
  | append_singleton order q ih =>
      rw [List.filterMap_append, List.foldl_append]
      cases hq : db.workflows.get? q with
      | none =>
          simp only [List.filterMap_cons, hq, List.filterMap_nil, List.foldl_nil, ih]
          by_cases hr : r = q
          · subst hr
            simp [hq]
          · simp [hr]
      | some row =>
          simp only [List.filterMap_cons, hq, List.filterMap_nil, List.foldl_cons, List.foldl_nil]
          obtain ⟨v, rfl, hid⟩ := henc q row hq
          have hkey : v.asdict.requestId = q := hid
          rw [hkey, Dict.get?_set, ih]
          by_cases hr : r = q
          · subst hr
            simp [hq]
          · simp [hr]

theorem restart_saved (hs : t.store = some s) : (s.txn.map Txn.saved).getD s.db = t.saved := by
  simp [Tracker.saved, Tracker.txn, Tracker.db, hs]

def Tracker.reloaded (t : Tracker) (s : Store) (active recent : List RequestId) : Tracker :=
  let db := (s.txn.map Txn.saved).getD s.db
  let workflows := restoreState db (active ++ recent)
  { t with
    workflows
    owners := ownersOf workflows
    tombstones := db.tombstones
    store := some { db, ran := s.ran } : Tracker }

theorem restart_eq (t : Tracker) (s : Store) (active recent : List RequestId) :
    t.restart s active recent = (t.reloaded s active recent).prune := rfl

theorem reloaded_get? (h : Synced t) (hs : t.store = some s) (active recent : List RequestId)
    (r : RequestId) : (t.reloaded s active recent).workflows.get? r =
      if r ∈ active ++ recent then (t.saved.workflows.get? r).map .decodeState else none := by
  change (Tracker.restoreState ((s.txn.map Txn.saved).getD s.db) (active ++ recent)).get? r = _
  rw [restart_saved hs]
  exact restoreState_get? h.saved _ r

theorem reloaded_held (h : Synced t) (hs : t.store = some s) {active recent : List RequestId}
    (hw : (t.reloaded s active recent).workflows.get? r = some w) :
    w.requestId = r ∧ t.saved.workflows.get? r = some w.asdict := by
  rw [reloaded_get? h hs] at hw
  split at hw
  · obtain ⟨row, hrow, rfl⟩ := Option.map_eq_some_iff.mp hw
    obtain ⟨hid, henc⟩ := (h.saved r row hrow).decode
    rw [henc]
    exact ⟨hid, hrow⟩
  · cases hw

theorem restart_rows (hs : t.store = some s) (active recent : List RequestId) :
    (t.restart s active recent).rows = t.saved.workflows :=
  congrArg Db.workflows (restart_saved hs)

theorem Synced.restart (h : Synced t) (hs : t.store = some s) (active recent : List RequestId) :
    Synced (t.restart s active recent) := by
  have hrows := restart_rows hs active recent
  refine .of_closed rfl (fun r w hw => ?_) (hrows ▸ h.saved) fun r w hw => ?_
  · exact (reloaded_held h hs (prune_held hw)).1
  · rw [hrows]
    exact (reloaded_held h hs (prune_held hw)).2

end Ends

section Pieces

variable {ok : Tracker → Prop} {t t' : Tracker}

theorem Synced.arrive {op : Op} (h : Synced t) (hready : t.Ready ∨ ∃ r, op = .assertReadyForFinal r)
    (harr : Arrival op t t') : Synced t' := by
  have hedits : (∀ r, op ≠ .assertReadyForFinal r) → t.Ready := fun hne =>
    hready.resolve_right fun ⟨r, hr⟩ => hne r hr
  cases harr with
  | stayed _ _ _ => exact h
  | held _ _ | probed _ _ _ => exact h.touch _
  | loaded _ hnone hrow => exact (h.load hnone hrow).touch _
  | created hop hnone hburied hid _ _ _ =>
      refine h.create (hedits fun r hr => ?_) hnone hburied hid
      rw [hr] at hop
      cases hop
  | forgotten hop _ =>
      refine h.forget (hedits fun r hr => ?_) _
      rw [hr] at hop
      cases hop

theorem Synced.edit {op : Op} (h : Synced t) (hedit : Edit op t t') : Synced t' := by
  cases hedit with
  | touched _ => exact h.touch _
  | changed hheld htouched hchange =>
      exact h.change hheld htouched ((change_requestId hchange).trans (h.named _ _ hheld))
  | owned => exact h.same rfl rfl rfl rfl rfl rfl
  | pruned hstore =>
      have hbefore : t.before = .empty := by simp [Tracker.before, Tracker.txn, hstore]
      refine ⟨fun r w hw => h.named r w (prune_held hw), h.rows, h.saved, fun hs => ?_, fun r p hb => ?_,
        h.shrunk⟩
      · change t.store.isSome = true at hs
        rw [hstore] at hs
        cases hs
      · change t.before.get? r = _ at hb
        rw [hbefore] at hb
        cases hb

theorem Synced.piece (h : Synced t) (hpiece : Piece ok t t') : Synced t' := by
  cases hpiece with
  | arrived hready harr => exact h.arrive hready harr
  | edited hedit => exact h.edit hedit
  | aside ha =>
      exact h.same ha.workflows ha.rows (congrArg Db.workflows ha.saved) ha.before ha.tombstones ha.store
  | begun hclosed => exact h.begin hclosed
  | committed hopen => exact h.commit hopen
  | rolledBack hopen _ => exact h.rollback hopen
  | restarted hs _ => exact h.restart hs _ _

theorem Synced.start (maxWorkflows : Nat) (stored : Bool) :
    Synced (conductorMachine maxWorkflows stored).start := by
  cases stored <;> constructor <;>
    simp [conductorMachine, Tracker.rows, Tracker.saved, Tracker.before, Tracker.txn, Tracker.db]

end Pieces

-- The runs that roll back only what meets a condition.
def undoingMachine (maxWorkflows : Nat) (stored : Bool) (ok : Tracker → Bool) : Machine Tracker Action :=
  (conductorMachine maxWorkflows stored).restrict fun t a => (t.undone a).all ok = true

theorem pieces_invariant {ok : Tracker → Prop} {P : Tracker → Prop} {t t' : Tracker}
    (hpiece : ∀ t t', Synced t → P t → Piece ok t t' → P t') (ht : Synced t ∧ P t)
    (h : Relation.ReflTransGen (Piece ok) t t') : Synced t' ∧ P t' := by
  induction h with
  | refl => exact ht
  | tail _ hlast ih => exact ⟨ih.1.piece hlast, hpiece _ _ ih.1 ih.2 hlast⟩

theorem conductor_pieces {maxWorkflows : Nat} {stored : Bool} {P : Tracker → Prop} {t : Tracker}
    (h₀ : P (conductorMachine maxWorkflows stored).start)
    (hpiece : ∀ t t', Synced t → P t → Piece (fun _ => True) t t' → P t')
    (h : (conductorMachine maxWorkflows stored).Reachable t) : Synced t ∧ P t := by
  refine h.invariant (P := fun t => Synced t ∧ P t) ⟨.start maxWorkflows stored, h₀⟩
    fun t a t' ht hnext => ?_
  exact pieces_invariant hpiece ht (next_pieces ht.1.named (fun _ _ => trivial) hnext)

theorem reachable_pieces {maxWorkflows : Nat} {stored : Bool} {ok : Tracker → Bool} {P : Tracker → Prop}
    {t : Tracker} (h₀ : P (conductorMachine maxWorkflows stored).start)
    (hpiece : ∀ t t', Synced t → P t → Piece (fun t => ok t = true) t t' → P t')
    (h : (undoingMachine maxWorkflows stored ok).Reachable t) : Synced t ∧ P t := by
  refine h.invariant (P := fun t => Synced t ∧ P t) ⟨.start maxWorkflows stored, h₀⟩
    fun t a t' ht hnext => ?_
  obtain ⟨hok, hstep⟩ := Machine.restrict_next hnext
  exact pieces_invariant hpiece ht
    (next_pieces ht.1.named (fun t₁ hundone => by simpa [hundone] using hok) hstep)

def Tracker.tidy (t : Tracker) : Bool := decide (t.tombstones ⊆ t.saved.tombstones)

-- Nothing is left of a tombstoned request, and the table knows all of them.
structure Buried (t : Tracker) : Prop where
  gone : ∀ r ∈ t.tombstones, t.workflows.get? r = none ∧ t.rows.get? r = none
  recorded : t.store.isSome = true → t.db.tombstones = t.tombstones
  saved : ∀ r ∈ t.saved.tombstones, t.saved.workflows.get? r = none ∧ r ∈ t.tombstones

section Buried

variable {t t' : Tracker} {r : RequestId}

theorem Buried.same (h : Buried t) (hw : t'.workflows = t.workflows) (hr : t'.rows = t.rows)
    (ht : t'.tombstones = t.tombstones) (hdb : t'.db.tombstones = t.db.tombstones)
    (hs : t'.saved.workflows = t.saved.workflows) (hst : t'.saved.tombstones = t.saved.tombstones)
    (hstore : t'.store.isSome = t.store.isSome) : Buried t' := by
  constructor <;> simp only [hw, hr, ht, hdb, hs, hst, hstore]
  · exact h.gone
  · exact h.recorded
  · exact h.saved

theorem Buried.touch (h : Buried t) (r : RequestId) : Buried (t.touch r) :=
  h.same rfl (t.touch_rows r) rfl (by rw [Tracker.touch_db]) (by rw [Tracker.touch_saved])
    (by rw [Tracker.touch_saved]) (t.touch_store_isSome r)

theorem Buried.hold (h : Buried t) (w : WorkflowState) (hburied : r ∉ t.tombstones) :
    Buried (t.hold r w) := by
  refine ⟨fun q hq => ?_, h.recorded, h.saved⟩
  have hne : q ≠ r := by
    rintro rfl
    exact hburied hq
  rw [Tracker.hold_workflows, Dict.get?_set_ne _ _ hne]
  exact h.gone q hq

theorem forget_saved (hready : t.Ready) (hs : t.store.isSome = true) (r : RequestId) :
    (t.forgetWorkflow r true).2.saved = t.saved := by
  rw [forgetWorkflow_eq]
  exact withDb_saved (f := (·.forgetWorkflow r)) (hready hs)

theorem Buried.forget (h : Buried t) (hready : t.Ready) (r : RequestId) :
    Buried (t.forgetWorkflow r true).2 := by
  refine ⟨fun q hq => ?_, fun hs => ?_, fun q hq => ?_⟩
  · rw [forget_tombstones, Finset.mem_insert] at hq
    rw [forget_workflows, forget_rows]
    by_cases hqr : q = r
    · simp [hqr]
    · simp only [if_neg hqr]
      exact h.gone q (hq.resolve_left hqr)
  · rw [forgetWorkflow_eq] at hs ⊢
    obtain ⟨s, hst⟩ : ∃ s, t.store = some s := by
      cases hst : t.store with
      | none => simp [Tracker.withDb, hst] at hs
      | some s => exact ⟨s, rfl⟩
    have hrec := h.recorded (by simp [hst])
    rw [← hrec]
    simp [Tracker.db, Tracker.withDb, hst, Db.forgetWorkflow]
  · rw [forget_tombstones]
    cases hst : t.store with
    | none =>
        rw [forgetWorkflow_eq] at hq
        simp [Tracker.saved, Tracker.txn, Tracker.db, Tracker.withDb, hst] at hq
    | some s =>
        rw [forget_saved hready (by simp [hst])] at hq ⊢
        exact (h.saved q hq).imp_right fun hin => Finset.mem_insert_of_mem hin

theorem Buried.commit (h : Buried t) (hsync : Synced t) (hopen : t.txn.isSome = true) :
    Buried t.commit := by
  obtain ⟨s, x, hs, hx⟩ := open_store hopen
  have hburied : ∀ r ∈ t.tombstones, t.commit.rows.get? r = none := by
    intro r hr
    rw [commit_rows hsync hopen, (h.gone r hr).1]
    exact (h.gone r hr).2
  have heq := commit_eq hs hx
  have hdb : t.commit.db.tombstones = t.tombstones := by
    rw [heq, ← h.recorded (by simp [hs])]
    simp [Tracker.db, hs, Tracker.written, Tracker.prune, Tracker.forgetOwners]
  have hsame : t.commit.tombstones = t.tombstones := by rw [heq]; rfl
  have hsaved : t.commit.saved = t.commit.db := by rw [heq]; rfl
  refine ⟨fun r hr => ⟨?_, hburied r (hsame ▸ hr)⟩, fun _ => hdb.trans hsame.symm, fun r hr => ?_⟩
  · cases hw : t.commit.workflows.get? r with
    | none => rfl
    | some w =>
        have hheld := commit_held hw hopen
        rw [(h.gone r (hsame ▸ hr)).1] at hheld
        cases hheld
  · rw [hsaved, hdb] at hr
    rw [hsaved, hsame]
    exact ⟨hburied r hr, hr⟩

theorem gone_of_rows (hsync : Synced t) (hclosed : t.closed = true) (hnone : t.rows.get? r = none) :
    t.workflows.get? r = none := by
  cases hw : t.workflows.get? r with
  | none => rfl
  | some w =>
      have hrow := hsync.row_of_held hclosed hw
      rw [hnone] at hrow
      cases hrow

theorem Buried.rollback (h : Buried t) (hsync : Synced t) (hopen : t.txn.isSome = true)
    (htidy : t.tidy = true) : Buried t.rollback := by
  obtain ⟨s, x, hs, hx⟩ := open_store hopen
  have hdb := rollback_db hopen
  have hsame : t.rollback.tombstones = t.tombstones := by simp [Tracker.rollback, hs, hx]
  have hrows : t.rollback.rows = t.saved.workflows := congrArg Db.workflows hdb
  have hsaved : t.rollback.saved = t.saved := by
    rw [← hdb]
    simp [Tracker.saved, Tracker.txn, Tracker.rollback, hs, hx]
  have hsub : ∀ r ∈ t.tombstones, r ∈ t.saved.tombstones := fun r hr => of_decide_eq_true htidy hr
  refine ⟨fun r hr => ?_, fun _ => ?_, fun r hr => ?_⟩
  · have hnone : t.rollback.rows.get? r = none := by
      rw [hrows]
      exact (h.saved r (hsub r (hsame ▸ hr))).1
    exact ⟨gone_of_rows (hsync.rollback hopen) (rollback_closed hopen) hnone, hnone⟩
  · rw [hdb, hsame]
    exact Finset.Subset.antisymm (fun r hr => (h.saved r hr).2) hsub
  · rw [hsaved] at hr ⊢
    rw [hsame]
    exact h.saved r hr

theorem Buried.restart (h : Buried t) (hsync : Synced t) {s : Store} (hs : t.store = some s)
    (active recent : List RequestId) : Buried (t.restart s active recent) := by
  have hdb : (t.restart s active recent).db = t.saved := restart_saved hs
  have hsaved : (t.restart s active recent).saved = t.saved := hdb
  have hburied : (t.restart s active recent).tombstones = t.saved.tombstones :=
    congrArg Db.tombstones (restart_saved hs)
  have hnone : ∀ r ∈ t.saved.tombstones, (t.restart s active recent).rows.get? r = none := by
    intro r hr
    rw [restart_rows hs]
    exact (h.saved r hr).1
  refine ⟨fun r hr => ?_, fun _ => by rw [hdb, hburied], fun r hr => ?_⟩
  · have hrow := hnone r (hburied ▸ hr)
    exact ⟨gone_of_rows (hsync.restart hs active recent) rfl hrow, hrow⟩
  · rw [hsaved] at hr ⊢
    rw [hburied]
    exact ⟨(h.saved r hr).1, hr⟩

theorem Buried.arrive {op : Op} (h : Buried t)
    (hready : t.Ready ∨ ∃ r, op = .assertReadyForFinal r) (harr : Arrival op t t') : Buried t' := by
  cases harr with
  | stayed _ _ _ => exact h
  | held _ _ | probed _ _ _ => exact h.touch _
  | @loaded r row _ _ hrow =>
      refine (h.hold _ fun hin => ?_).touch r
      rw [(h.gone r hin).2] at hrow
      cases hrow
  | created _ _ hburied _ _ _ _ => exact (h.touch _).hold _ hburied
  | forgotten hop _ =>
      refine h.forget (hready.resolve_right fun ⟨r, hr⟩ => ?_) _
      rw [hr] at hop
      cases hop

theorem Buried.edit {op : Op} (h : Buried t) (hedit : Edit op t t') : Buried t' := by
  cases hedit with
  | touched _ => exact h.touch _
  | changed hheld _ _ =>
      refine h.hold _ fun hin => ?_
      rw [(h.gone _ hin).1] at hheld
      cases hheld
  | owned => exact h.same rfl rfl rfl rfl rfl rfl rfl
  | pruned _ =>
      refine ⟨fun r hr => ⟨?_, (h.gone r hr).2⟩, h.recorded, h.saved⟩
      rw [prune_workflows, (h.gone r hr).1]
      rfl

theorem Buried.piece (h : Buried t) (hsync : Synced t) (hpiece : Piece (fun t => t.tidy = true) t t') :
    Buried t' := by
  cases hpiece with
  | arrived hready harr => exact h.arrive hready harr
  | edited hedit => exact h.edit hedit
  | aside ha =>
      exact h.same ha.workflows ha.rows ha.tombstones ha.buried (by rw [ha.saved]) (by rw [ha.saved])
        ha.store
  | begun hclosed =>
      obtain ⟨s, hs, hx⟩ := closed_store hclosed
      refine h.same rfl ?_ rfl ?_ ?_ ?_ ?_ <;>
        simp [Tracker.rows, Tracker.db, Tracker.begin, Tracker.saved, Tracker.txn, hs, hx]
  | committed hopen => exact h.commit hsync hopen
  | rolledBack hopen hok => exact h.rollback hsync hopen hok
  | restarted hs _ => exact h.restart hsync hs _ _

theorem Buried.start (maxWorkflows : Nat) : Buried (conductorMachine maxWorkflows true).start := by
  constructor <;> simp [conductorMachine, Tracker.saved, Tracker.txn, Tracker.db]

end Buried

def Tracker.HoldsOpen (t : Tracker) : Prop :=
  ∀ r row, t.rows.get? r = some row → row.terminalEvent = none → ∃ w, t.workflows.get? r = some w

section HoldsOpen

variable {t t' : Tracker} {r : RequestId}

theorem HoldsOpen.same (h : t.HoldsOpen) (hw : t'.workflows = t.workflows) (hr : t'.rows = t.rows) :
    t'.HoldsOpen := by
  unfold Tracker.HoldsOpen
  rw [hw, hr]
  exact h

theorem HoldsOpen.hold (h : t.HoldsOpen) (r : RequestId) (w : WorkflowState) :
    (t.hold r w).HoldsOpen := by
  intro q row hrow hopen
  rw [Tracker.hold_workflows, Dict.get?_set]
  split
  · exact ⟨w, rfl⟩
  · exact h q row hrow hopen

theorem HoldsOpen.arrive {op : Op} (h : t.HoldsOpen) (harr : Arrival op t t') : t'.HoldsOpen := by
  cases harr with
  | stayed _ _ _ => exact h
  | held _ _ | probed _ _ _ => exact HoldsOpen.same h rfl (t.touch_rows _)
  | loaded _ _ _ => exact HoldsOpen.same (HoldsOpen.hold h _ _) rfl (Tracker.touch_rows _ _)
  | @created r w _ _ _ _ _ _ _ =>
      have htouch : (t.touch r).HoldsOpen := HoldsOpen.same h rfl (t.touch_rows r)
      exact HoldsOpen.hold htouch r w
  | forgotten _ _ =>
      intro q row hrow hopen
      rw [forget_rows] at hrow
      split at hrow
      · cases hrow
      · rw [forget_workflows, if_neg ‹_›]
        exact h q row hrow hopen

theorem HoldsOpen.edit {op : Op} (h : t.HoldsOpen) (hedit : Edit op t t') : t'.HoldsOpen := by
  cases hedit with
  | touched _ => exact HoldsOpen.same h rfl (t.touch_rows _)
  | changed _ _ _ => exact HoldsOpen.hold h _ _
  | owned => exact HoldsOpen.same h rfl rfl
  | pruned hstore =>
      intro r row hrow
      have hnone : t.prune.rows.get? r = none := by
        change t.rows.get? r = none
        simp [Tracker.rows, Tracker.db, hstore]
      rw [hnone] at hrow
      cases hrow

theorem HoldsOpen.commit (h : t.HoldsOpen) (hsync : Synced t) (hopen : t.txn.isSome = true) :
    t.commit.HoldsOpen := by
  obtain ⟨s, x, hs, hx⟩ := open_store hopen
  intro r row hrow hterm
  rw [commit_rows hsync hopen] at hrow
  cases hm : t.workflows.get? r with
  | none =>
      rw [hm] at hrow
      obtain ⟨w, hw⟩ := h r row hrow hterm
      rw [hm] at hw
      cases hw
  | some w =>
      rw [hm] at hrow
      cases hrow
      rw [commit_eq hs hx]
      exact ⟨w, prune_open hsync.named hm hterm⟩

theorem HoldsOpen.restart (hsync : Synced t) {s : Store} (hs : t.store = some s)
    {active recent : List RequestId}
    (horder : Tracker.LoadOrder ((s.txn.map Txn.saved).getD s.db) t.maxWorkflows active recent) :
    (t.restart s active recent).HoldsOpen := by
  intro r row hrow hopen
  rw [restart_rows hs] at hrow
  rw [restart_saved hs] at horder
  have hmem : r ∈ active := by
    refine horder.active.mem_iff.mpr (List.mem_filterMap.mpr ⟨(r, row), Dict.mem_entries_iff.mpr hrow, ?_⟩)
    simp [hopen]
  have hload : (t.reloaded s active recent).workflows.get? r = some (.decodeState row) := by
    rw [reloaded_get? hsync hs, if_pos (by simp [hmem]), hrow]
    rfl
  exact ⟨.decodeState row, prune_open (fun q v hv => (reloaded_held hsync hs hv).1) hload hopen⟩

theorem HoldsOpen.piece (h : t.HoldsOpen) (hsync : Synced t)
    (hpiece : Piece (fun _ => false = true) t t') : t'.HoldsOpen := by
  cases hpiece with
  | arrived _ harr => exact HoldsOpen.arrive h harr
  | edited hedit => exact HoldsOpen.edit h hedit
  | aside ha => exact HoldsOpen.same h ha.workflows ha.rows
  | begun hclosed =>
      obtain ⟨s, hs, _⟩ := closed_store hclosed
      exact HoldsOpen.same h rfl (by simp [Tracker.rows, Tracker.db, Tracker.begin, hs])
  | committed hopen => exact HoldsOpen.commit h hsync hopen
  | rolledBack _ hok => cases hok
  | restarted hs horder => exact HoldsOpen.restart hsync hs horder

end HoldsOpen

theorem Piece.mono {ok ok' : Tracker → Prop} (hok : ∀ t, ok t → ok' t) {t t' : Tracker}
    (h : Piece ok t t') : Piece ok' t t' := by
  cases h with
  | arrived hready harr => exact .arrived hready harr
  | edited hedit => exact .edited hedit
  | aside ha => exact .aside ha
  | begun hclosed => exact .begun hclosed
  | committed hopen => exact .committed hopen
  | rolledBack hopen h => exact .rolledBack hopen (hok t h)
  | restarted hs horder => exact .restarted hs horder

def committingMachine (maxWorkflows : Nat) : Machine Tracker Action :=
  undoingMachine maxWorkflows true fun _ => false

theorem committing_invariant {maxWorkflows : Nat} {t : Tracker}
    (h : (committingMachine maxWorkflows).Reachable t) : Synced t ∧ Buried t ∧ t.HoldsOpen := by
  refine reachable_pieces (P := fun t => Buried t ∧ t.HoldsOpen) ⟨.start maxWorkflows, ?_⟩
    (fun t t' hsync hb hpiece => ⟨hb.1.piece hsync (hpiece.mono (by simp)), ?_⟩) h
  · simp [Tracker.HoldsOpen, conductorMachine, Tracker.rows, Tracker.db]
  · exact HoldsOpen.piece hb.2 hsync hpiece

-- Between transactions the board is what the database says.
theorem projection_matches_rows {maxWorkflows : Nat} {t : Tracker}
    (h : (committingMachine maxWorkflows).Reachable t) (hclosed : t.closed = true) :
    (∀ r w, t.workflows.get? r = some w →
      ∃ row, t.rows.get? r = some row ∧ WorkflowState.decodeState row = w) ∧
    t.db.tombstones = t.tombstones ∧
    (∀ r ∈ t.tombstones, t.rows.get? r = none ∧ t.workflows.get? r = none) ∧
    (∀ r row, t.rows.get? r = some row → row.terminalEvent = none →
      ∃ w, t.workflows.get? r = some w) := by
  obtain ⟨hsync, hburied, hopen⟩ := committing_invariant h
  obtain ⟨s, hs, _⟩ := closed_store hclosed
  exact ⟨fun r w hw => ⟨w.asdict, hsync.row_of_held hclosed hw, w.decodeState_asdict⟩,
    hburied.recorded (by simp [hs]), fun r hr => (hburied.gone r hr).symm, hopen⟩

-- A board of one: "a" completes and is evicted, is read back for a title, and
-- "b" is deleted; then the process starts again.
def evictingRun : List Action :=
  [.begin, .call (.admitRequest "a" .admitted none 1) false, .call (.admitRequest "b" .submitting none 2) false,
   .call (.bindSubagent "a" "x" 1 3) false, .commit,
   .call (.recordSubagentEvent "x" .accepted (some 1) none "" 4) false,
   .call (.recordFinal "a" ⟨some "f", "done"⟩ 5) false,
   .begin, .call (.setTitle "a" "first") false, .call (.forgetWorkflow "b" true) false,
   .call (.admitRequest "c" .admitted none 6) false, .commit, .restart ["c"] ["c"]]

theorem projection_matches_rows_evictingRun :
    ∃ t, (committingMachine 1).run (committingMachine 1).start evictingRun = some t ∧
      t.rows.keys = ["a", "c"] ∧ t.workflows.keys = ["c"] ∧ t.tombstones = {"b"} ∧
      ∃ row, t.rows.get? "c" = some row ∧ (WorkflowState.decodeState row).createdAt = 6 := by
  refine ⟨_, rfl, by decide, by decide, by decide, ?_⟩
  have hboard := @projection_matches_rows 1 _ ⟨evictingRun, rfl⟩ rfl
  obtain ⟨row, hrow, hw⟩ := hboard.1 "c" _ rfl
  exact ⟨row, hrow, congrArg WorkflowState.createdAt hw⟩

end GaHub.Conductor
