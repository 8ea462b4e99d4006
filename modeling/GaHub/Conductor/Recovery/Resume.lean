import GaHub.Conductor.Recovery.Replay

namespace GaHub.Conductor

open Lib

structure Tables (t q : Tracker) : Prop where
  rows : ∀ r, t.rows.get? r = q.rows.get? r
  commands : t.db.commands = q.db.commands
  timeline : ∀ key, Activity.derived key = false → t.db.activity.get? key = q.db.activity.get? key

-- A tracker between two records, in a service that forgets nothing.
structure Steady (t : Tracker) : Prop where
  sync : Synced t
  closed : t.closed = true
  holdsOpen : t.HoldsOpen
  tombstones : t.tombstones = ∅
  buried : t.db.tombstones = ∅

structure Busy (t u : Tracker) : Prop where
  holdsOpen : u.HoldsOpen
  tombstones : u.tombstones = t.tombstones
  buried : u.db.tombstones = t.db.tombstones
  saved : u.saved = t.db
  kept : ∀ r, (t.workflows.get? r).isSome = true → (u.workflows.get? r).isSome = true ∧ u.before.get? r ≠ some none

section Steady

variable {t u q : Tracker} {op : Op} {ok : Op → Bool}

theorem Tables.of_db (h : t.db = q.db) : Tables t q := by
  refine ⟨fun r => ?_, by rw [h], fun key _ => by rw [h]⟩
  unfold Tracker.rows
  rw [h]

theorem Tables.trans {v : Tracker} (h : Tables t q) (h' : Tables q v) : Tables t v :=
  ⟨fun r => (h.rows r).trans (h'.rows r), h.commands.trans h'.commands,
    fun key hkey => (h.timeline key hkey).trans (h'.timeline key hkey)⟩

theorem Tables.symm (h : Tables t q) : Tables q t :=
  ⟨fun r => (h.rows r).symm, h.commands.symm, fun key hkey => (h.timeline key hkey).symm⟩

theorem Tables.begin (h : Tables t q) (ht : Steady t) (hq : Steady q) : Alike t.begin q.begin := by
  have hrows : ∀ u : Tracker, u.begin.rows = u.rows := fun u => congrArg Db.workflows (like_begin u).db
  refine ⟨fun r => ?_, ?_, fun r => ?_, ?_, fun key hkey => ?_, ⟨?_, ?_⟩, begin_txn ht.closed, begin_txn hq.closed⟩
  · rw [(like_begin t).find, (like_begin q).find, ht.sync.find_closed ht.closed, hq.sync.find_closed hq.closed, h.rows]
  · exact ht.tombstones.trans hq.tombstones.symm
  · rw [hrows, hrows, h.rows]
  · rw [(like_begin t).db, (like_begin q).db, h.commands]
  · rw [(like_begin t).db, (like_begin q).db, h.timeline key hkey]
  · exact HoldsOpen.same ht.holdsOpen rfl (hrows t)
  · exact HoldsOpen.same hq.holdsOpen rfl (hrows q)

theorem commit_rows_find (h : Synced u) (hopen : u.txn.isSome = true) (r : RequestId) :
    u.commit.rows.get? r = (u.find r).map WorkflowState.asdict := by
  rw [commit_rows h hopen]
  cases hheld : u.workflows.get? r with
  | some w => simp [Tracker.find, hheld]
  | none =>
      cases hrow : u.rows.get? r with
      | none => simp [Tracker.find, hheld, hrow]
      | some row => simp [Tracker.find, hheld, hrow, (h.rows r row hrow).decode.2]

theorem Alike.commit (h : Alike t q) (ht : Synced t) (hq : Synced q) : Tables t.commit q.commit := by
  refine ⟨fun r => ?_, ?_, fun key hkey => ?_⟩
  · rw [commit_rows_find ht h.txn.1, commit_rows_find hq h.txn.2, h.find]
  · rw [commit_db h.txn.1, commit_db h.txn.2]
    exact h.commands
  · rw [commit_db h.txn.1, commit_db h.txn.2]
    exact h.timeline key hkey

theorem Steady.busy (h : Steady t) : Busy t t.begin := by
  obtain ⟨s, hs, hx⟩ := closed_store h.closed
  have hdb := (like_begin t).db
  refine ⟨HoldsOpen.same h.holdsOpen rfl (congrArg Db.workflows hdb), rfl, by rw [hdb], begin_saved h.closed,
    fun r hr => ⟨hr, ?_⟩⟩
  simp [Tracker.before, Tracker.txn, Tracker.begin, hs]

theorem Busy.touch (h : Busy t u) (r : RequestId) : Busy t (u.touch r) := by
  refine ⟨HoldsOpen.same h.holdsOpen rfl (u.touch_rows r), h.tombstones, ?_, ?_, fun q hq => ⟨(h.kept q hq).1, ?_⟩⟩
  · rw [Tracker.touch_db]
    exact h.buried
  · rw [Tracker.touch_saved]
    exact h.saved
  · rw [Tracker.touch_before]
    split
    · rename_i hnew
      obtain ⟨w, hw⟩ := Option.isSome_iff_exists.mp (h.kept q hq).1
      rw [← hnew.1, hw]
      simp
    · exact (h.kept q hq).2

theorem Busy.hold (h : Busy t u) (r : RequestId) (w : WorkflowState) : Busy t (u.hold r w) := by
  refine ⟨HoldsOpen.hold h.holdsOpen r w, h.tombstones, h.buried, h.saved, fun q hq => ⟨?_, (h.kept q hq).2⟩⟩
  rw [Tracker.hold_workflows, Dict.get?_set]
  split
  · rfl
  · exact (h.kept q hq).1

theorem Busy.run (h : Busy t u) (hsync : Synced u) (hopen : u.txn.isSome = true) (hop : op.forgets = false) :
    Busy t (u.run op).2 := by
  have hready : u.Ready := fun _ => hopen
  cases hstore : op.onStore with
  | true =>
      cases op with
      | store op =>
          obtain ⟨s, x, hs, hx⟩ := open_store hopen
          have haside : Aside u (u.run (.store op)).2 := by
            simp only [Tracker.run, hs]
            exact runStore_aside hs (by simp [hx])
          refine ⟨HoldsOpen.same h.holdsOpen haside.workflows haside.rows, haside.tombstones.trans h.tombstones,
            haside.buried.trans h.buried, haside.saved.trans h.saved, ?_⟩
          rw [haside.workflows, haside.before]
          exact h.kept
      | _ => cases hstore
  | false =>
      obtain ⟨u₁, harr, hedits⟩ := run_edits hstore hready hsync.named
      have hfirst : Busy t u₁ := by
        cases harr with
        | stayed _ _ _ => exact h
        | held _ _ | probed _ _ _ => exact h.touch _
        | loaded _ _ _ => exact (h.hold ..).touch _
        | created _ _ _ _ _ _ _ => exact (h.touch _).hold ..
        | forgotten hforget _ =>
            rw [hforget] at hop
            cases hop
      have hstored : u₁.store.isSome = true := harr.within.store.trans (store_of_txn hopen)
      have hlast : Busy t (u.run op).2 ∧ (u.run op).2.store.isSome = true := by
        generalize (u.run op).2 = v at hedits
        induction hedits with
        | refl => exact ⟨hfirst, hstored⟩
        | tail _ hedit ih =>
            refine ⟨?_, hedit.within.store.trans ih.2⟩
            cases hedit with
            | touched _ => exact ih.1.touch _
            | changed _ _ _ => exact ih.1.hold ..
            | owned => exact ⟨ih.1.holdsOpen, ih.1.tombstones, ih.1.buried, ih.1.saved, ih.1.kept⟩
            | pruned hnone =>
                have hsome := ih.2
                rw [hnone] at hsome
                cases hsome
      exact hlast.1

theorem Steady.runs (h : Steady t) (hruns : Runs ok t.begin u) (hok : ∀ op, ok op = true → op.forgets = false) :
    Inside t.begin u ∧ Busy t u :=
  hruns.invariant (h.sync.begin h.closed) (begin_txn h.closed) h.busy fun _ op hsync hopen hop hbusy =>
    hbusy.run hsync hopen (hok op hop)

theorem Steady.commit (h : Steady t) (hin : Inside t.begin u) (hbusy : Busy t u) : Steady u.commit := by
  refine ⟨hin.sync.commit hin.txn, commit_closed hin.txn, HoldsOpen.commit hbusy.holdsOpen hin.sync hin.txn, ?_, ?_⟩
  · obtain ⟨s, x, hs, hx⟩ := open_store hin.txn
    rw [commit_eq hs hx]
    exact hbusy.tombstones.trans h.tombstones
  · rw [commit_db hin.txn]
    exact hbusy.buried.trans h.buried

theorem Steady.rollback (h : Steady t) (hin : Inside t.begin u) (hbusy : Busy t u) :
    Steady u.rollback ∧ u.rollback.db = t.db := by
  have hdb : u.rollback.db = t.db := (rollback_db hin.txn).trans hbusy.saved
  refine ⟨⟨hin.sync.rollback hin.txn, rollback_closed hin.txn, fun r row hrow hopen => ?_, ?_, hdb ▸ h.buried⟩, hdb⟩
  · have hrow' : t.rows.get? r = some row := by
      unfold Tracker.rows at hrow ⊢
      rw [← hdb]
      exact hrow
    obtain ⟨w, hw⟩ := h.holdsOpen r row hrow' hopen
    obtain ⟨hheld, hpoint⟩ := hbusy.kept r (by simp [hw])
    rw [rollback_workflows hin.txn]
    cases hbefore : u.before.get? r with
    | none => exact Option.isSome_iff_exists.mp hheld
    | some point =>
        cases point with
        | none => exact absurd hbefore hpoint
        | some v => exact ⟨v, rfl⟩
  · obtain ⟨s, x, hs, hx⟩ := open_store hin.txn
    have hsame : u.rollback.tombstones = u.tombstones := by simp [Tracker.rollback, hs, hx]
    exact hsame.trans (hbusy.tombstones.trans h.tombstones)

theorem Steady.restart (h : Steady t) {s : Store} (hs : t.store = some s) {active recent : List RequestId}
    (horder : Tracker.LoadOrder ((s.txn.map Txn.saved).getD s.db) t.maxWorkflows active recent) :
    Steady (t.restart s active recent) ∧ (t.restart s active recent).db = t.db := by
  have hsaved : t.saved = t.db := closed_saved h.closed
  have hdb : (t.restart s active recent).db = t.db := (restart_saved hs).trans hsaved
  refine ⟨⟨h.sync.restart hs active recent, rfl, HoldsOpen.restart h.sync hs horder, ?_, hdb ▸ h.buried⟩, hdb⟩
  have hsame : (t.restart s active recent).tombstones = t.saved.tombstones := congrArg Db.tombstones (restart_saved hs)
  rw [hsame, hsaved]
  exact h.buried

theorem Steady.rows_find (h : Steady t) (r : RequestId) : t.rows.get? r = (t.find r).map WorkflowState.asdict := by
  rw [h.sync.find_closed h.closed]
  cases hrow : t.rows.get? r with
  | none => rfl
  | some row => simp [(h.sync.rows r row hrow).decode.2]

theorem Steady.stored (h : Steady t) {op : StoreOp} {reply : Reply}
    (hok : (t.begin.run (.store op)).1 = .ok reply) :
    Steady (t.begin.run (.store op)).2.commit ∧
      (∀ r, (t.begin.run (.store op)).2.commit.rows.get? r = t.rows.get? r) ∧
      (t.begin.run (.store op)).2.commit.db.commands = (op.apply t.db).commands ∧
      (t.begin.run (.store op)).2.commit.db.consumerState = (op.apply t.db).consumerState ∧
      (t.begin.run (.store op)).2.commit.db.activity = (op.apply t.db).activity := by
  obtain ⟨s, x, hs, hx⟩ := open_store (begin_txn h.closed)
  have hrun : t.begin.run (.store op) = t.begin.runStore s op := by simp only [Tracker.run, hs]
  have haside : Aside t.begin (t.begin.run (.store op)).2 := by
    rw [hrun]
    exact runStore_aside hs (by simp [hx])
  have hdb : (t.begin.run (.store op)).2.db = op.apply t.db := by
    rcases runStore_db hs op with ⟨_, e, herror⟩ | ⟨hdb, _⟩
    · rw [hrun, herror] at hok
      cases hok
    · rw [hrun, hdb, (like_begin t).db]
  have hruns : Runs (fun op => !op.forgets) t.begin (t.begin.run (.store op)).2 := .run rfl
  obtain ⟨hin, hbusy⟩ := h.runs hruns fun _ hok => by simpa using hok
  refine ⟨h.commit hin hbusy, fun r => ?_, ?_, ?_, ?_⟩
  · rw [commit_rows_find hin.sync hin.txn, h.rows_find, Tracker.find_congr haside.workflows haside.rows,
      (like_begin t).find]
  · rw [commit_db hin.txn, hdb]
  · rw [commit_db hin.txn, hdb]
  · rw [commit_db hin.txn, hdb]

theorem Steady.save (h : Steady t) {op : StoreOp}
    (hop : (∃ items, op = .saveSubagentSnapshots items) ∨ ∃ rows, op = .saveActivity rows) :
    Steady (t.call (.store op) false).2 ∧ (∀ r, (t.call (.store op) false).2.rows.get? r = t.rows.get? r) ∧
      (t.call (.store op) false).2.db.commands = t.db.commands ∧
      (t.call (.store op) false).2.db.consumerState = t.db.consumerState ∧
      (t.call (.store op) false).2.db.activity = (op.apply t.db).activity := by
  have hnothing : ∀ (u : Tracker) s, (Tracker.runStore u s op).1 = .ok .nothing := by
    rcases hop with ⟨items, rfl⟩ | ⟨rows, rfl⟩ <;> exact fun _ _ => rfl
  have happly : (op.apply t.db).commands = t.db.commands ∧ (op.apply t.db).consumerState = t.db.consumerState := by
    rcases hop with ⟨items, rfl⟩ | ⟨rows, rfl⟩ <;> simp only [StoreOp.apply] <;> split <;> exact ⟨rfl, rfl⟩
  cases hopens : Op.opens t (.store op) with
  | false =>
      obtain ⟨s, hs, hx⟩ := closed_store h.closed
      have hsame : (t.call (.store op) false).2 = t ∧ op.apply t.db = t.db := by
        simp only [Tracker.call, h.closed, hopens, Bool.and_false, Bool.false_eq_true, if_false, Tracker.run, hs]
        rcases hop with ⟨items, rfl⟩ | ⟨rows, rfl⟩
        · have hnone : (items.filter fun e => decide (e.1 ≠ "")).isEmpty = true := by
            simp only [Op.opens, List.any_eq_false] at hopens
            exact List.isEmpty_iff.mpr (List.filter_eq_nil_iff.mpr hopens)
          simp only [Tracker.runStore, StoreOp.apply, hnone, if_true, and_self]
        · have hnone : (rows.filter fun e => decide (e.1 ≠ "" ∧ e.2.requestId ≠ "")).isEmpty = true := by
            simp only [Op.opens, List.any_eq_false] at hopens
            exact List.isEmpty_iff.mpr (List.filter_eq_nil_iff.mpr hopens)
          simp only [Tracker.runStore, StoreOp.apply, hnone, if_true, and_self]
      rw [hsame.1, hsame.2]
      exact ⟨h, fun _ => rfl, rfl, rfl, rfl⟩
  | true =>
      obtain ⟨s, x, hs, hx⟩ := open_store (begin_txn h.closed)
      have hreply : (t.begin.run (.store op)).1 = .ok .nothing := by
        simp only [Tracker.run, hs]
        exact hnothing _ _
      rw [call_ok h.closed hopens hreply, ← happly.1, ← happly.2]
      exact h.stored hreply

theorem Steady.caughtUp {p : Process} (h : Steady p.tracker) (epoch : Option String) (fault : Bool) :
    Steady (p.caughtUp epoch fault).tracker ∧ Tables p.tracker (p.caughtUp epoch fault).tracker ∧
      (p.caughtUp epoch fault).tracker.db.cursor.seq = p.tracker.db.cursor.seq := by
  have hruns : Runs (fun op => !op.forgets) p.tracker.begin (p.tracker.begin.run
      (.store (.checkpoint epoch p.tracker.db.cursor.seq p.tracker.db.cursor.bootId))).2 := .run rfl
  obtain ⟨hin, hbusy⟩ := h.runs hruns fun _ hok => by simpa using hok
  obtain ⟨hsteady, hdb⟩ := h.rollback hin hbusy
  unfold Process.caughtUp
  dsimp only
  rcases hpair : p.tracker.begin.run
    (.store (.checkpoint epoch p.tracker.db.cursor.seq p.tracker.db.cursor.bootId)) with ⟨result, u⟩
  rw [hpair] at hsteady hdb
  cases result with
  | error e => exact ⟨hsteady, .of_db hdb.symm, by rw [hdb]⟩
  | ok reply =>
      cases fault with
      | true => exact ⟨hsteady, .of_db hdb.symm, congrArg (fun db => db.cursor.seq) hdb⟩
      | false =>
          have hok : (p.tracker.begin.run
              (.store (.checkpoint epoch p.tracker.db.cursor.seq p.tracker.db.cursor.bootId))).1 = .ok reply := by
            rw [hpair]
          obtain ⟨hcommitted, hrows, hcommands, hstate, hactivity⟩ := h.stored hok
          rw [hpair] at hcommitted hrows hcommands hstate hactivity
          refine ⟨hcommitted, ⟨fun r => (hrows r).symm, hcommands.symm, fun key _ => ?_⟩, ?_⟩
          · exact congrArg (fun table => Dict.get? table key) hactivity.symm
          · have hseq : u.commit.db.cursor.seq = p.tracker.db.cursor.seq := by
              simp only [Db.cursor] at hstate ⊢
              rw [hstate]
              rfl
            exact hseq

end Steady

section Attempts

variable {p p' : Process} {s : Setting} {record : Record} {fault : Bool}

theorem ofAttempt_forgets {rows : List (String × Activity)} {bootId : Option String} {op : Op}
    (hop : op.ofAttempt rows bootId = true) : op.forgets = false := by
  cases op with
  | forgetWorkflow _ _ => cases hop
  | _ => rfl

theorem body_busy (h : Steady p.tracker) (s : Setting) (record : Record) :
    Inside p.tracker.begin (p.body s record).2 ∧ Busy p.tracker (p.body s record).2 :=
  h.runs (body_runs p s record) fun _ => ofAttempt_forgets

theorem heard_steady (h : Steady p.tracker) (record : Record) : Steady (p.heard record).tracker := by
  rw [heard_tracker]
  exact h

theorem heard_reads (p : Process) (record : Record) : (p.heard record).reads record = p.reads record := by
  unfold Process.heard
  split
  · rename_i hkind
    simp [Process.reads, hkind]
  · rfl

theorem attempt_settles (h : Steady p.tracker) (s : Setting) (record : Record) (fault : Bool) :
    Steady (p.attempt s record fault).2.tracker ∧
      (((p.attempt s record fault).1 = .ok () ∧ (∃ effects, ((p.heard record).body s record).1 = .ok effects) ∧
          (p.attempt s record fault).2.tracker = ((p.heard record).body s record).2.commit) ∨
        (∃ e, (p.attempt s record fault).1 = .error e) ∧ (p.attempt s record fault).2.tracker.db = p.tracker.db) := by
  have hheard := heard_steady h record
  obtain ⟨hin, hbusy⟩ := body_busy hheard s record
  have hback := hheard.rollback hin hbusy
  have hcommit := hheard.commit hin hbusy
  rw [heard_tracker] at hback
  unfold Process.attempt
  dsimp only
  rcases hpair : (p.heard record).body s record with ⟨result, u⟩
  rw [hpair] at hback hcommit
  cases result with
  | error e => exact ⟨hback.1, Or.inr ⟨⟨e, rfl⟩, hback.2⟩⟩
  | ok effects =>
      cases fault with
      | true => exact ⟨hback.1, Or.inr ⟨⟨_, rfl⟩, hback.2⟩⟩
      | false => exact ⟨hcommit, Or.inl ⟨rfl, ⟨effects, rfl⟩, rfl⟩⟩

theorem attempt_seq (h : Steady p.tracker) (hok : (p.attempt s record fault).1 = .ok ()) :
    (p.attempt s record fault).2.tracker.db.cursor.seq = record.seq := by
  obtain ⟨hin, _⟩ := body_busy (heard_steady h record) s record
  rcases (attempt_settles h s record fault).2 with ⟨_, ⟨effects, hbody⟩, heq⟩ | ⟨⟨e, he⟩, _⟩
  · obtain ⟨u, reply, happly, hrun, hlast⟩ := body_ok hbody
    have hinside : Inside (p.heard record).tracker.begin u := by
      have hruns := applyRecord_runs (p.heard record) (p.heard record).tracker.begin s record
      rw [happly] at hruns
      have hheard := heard_steady h record
      exact hruns.inside (hheard.sync.begin hheard.closed) (begin_txn hheard.closed)
    obtain ⟨st, _, hst, _⟩ := open_store hinside.txn
    rw [heq, commit_db hin.txn, hlast, checkpoint_run hinside.txn hrun, withDb_db hst]
    rfl
  · rw [hok] at he
    cases he

theorem attempt_tables (htables : Tables p.tracker p'.tracker) (h : Steady p.tracker) (h' : Steady p'.tracker)
    (hroom : p.tracker.db.activity.size < 4000) (hroom' : p'.tracker.db.activity.size < 4000)
    (hboot : p.bootId = p'.bootId) (hreads : p.reads record = p'.reads record) {fault' : Bool}
    (hok : (p.attempt s record fault).1 = .ok ()) (hok' : (p'.attempt s record fault').1 = .ok ()) :
    Tables (p.attempt s record fault).2.tracker (p'.attempt s record fault').2.tracker := by
  have hheard := heard_steady h record
  have hheard' := heard_steady h' record
  have hagree : Deferring.Agree ((p.heard record).body s record) ((p'.heard record).body s record) := by
    refine body_agree ?_ hheard.closed hheard'.closed ?_ ?_ ?_ ?_
    · rw [heard_tracker, heard_tracker]
      exact htables.begin h h'
    · rw [heard_tracker]
      exact hroom
    · rw [heard_tracker]
      exact hroom'
    · rw [heard_bootId, heard_bootId]
      exact hboot
    · rw [heard_reads, heard_reads]
      exact hreads
  obtain ⟨hin, _⟩ := body_busy hheard s record
  obtain ⟨hin', _⟩ := body_busy hheard' s record
  rcases (attempt_settles h s record fault).2 with
    ⟨_, ⟨effects, hbody⟩, heq⟩ | ⟨⟨e, he⟩, _⟩
  · rcases (attempt_settles h' s record fault').2 with
      ⟨_, ⟨effects', hbody'⟩, heq'⟩ | ⟨⟨e, he⟩, _⟩
    · rw [heq, heq']
      exact (hagree.alike effects effects' hbody hbody').commit hin.sync hin'.sync
    · rw [hok'] at he
      cases he
  · rw [hok] at he
    cases he

end Attempts

section Saves

variable {db : Db} {rows : List (String × Activity)}

theorem saveActivity_keeps (hroom : db.activity.size + rows.length ≤ 4000)
    (hrows : ∀ e ∈ rows, Activity.derived e.1 = true ∨ db.activity.get? e.1 = some e.2) {key : String}
    (hkey : Activity.derived key = false) :
    ((StoreOp.saveActivity rows).apply db).activity.get? key = db.activity.get? key := by
  simp only [StoreOp.apply]
  split
  · rfl
  · have hsize := Dict.size_foldl_set_le db.activity (rows.filter fun e => decide (e.1 ≠ "" ∧ e.2.requestId ≠ ""))
    have hfewer := List.length_filter_le (fun e : String × Activity => decide (e.1 ≠ "" ∧ e.2.requestId ≠ "")) rows
    simp only [Db.saveActivity]
    rw [keepNewest_all _ (by omega)]
    refine Dict.get?_foldl_set_of_forall fun e he hk => ?_
    rcases hrows e (List.mem_filter.mp he).1 with hderived | hthere
    · rw [hk, hkey] at hderived
      cases hderived
    · rw [← hk]
      exact hthere

theorem workflow_derived {topic : Topic} {request : RequestId} {ts : Time} {row : String × Activity}
    (h : Activity.workflow topic request ts = some row) : Activity.derived row.1 = true := by
  have hends : ∀ ending : String, ("wf:".toList.isPrefixOf ("wf:" ++ request ++ ending).toList) = true ∧
      ending.toList.isSuffixOf ("wf:" ++ request ++ ending).toList = true := by
    intro ending
    rw [String.toList_append, String.toList_append, List.isPrefixOf_iff_prefix, List.isSuffixOf_iff_suffix]
    exact ⟨⟨request.toList ++ ending.toList, by simp⟩, List.suffix_append ..⟩
  unfold Activity.workflow at h
  split at h
  · cases h
  · cases topic with
    | workflowCompleted =>
        cases h
        simp only [Activity.derived, Bool.and_eq_true, Bool.or_eq_true]
        exact ⟨(hends _).1, Or.inl (hends _).2⟩
    | workflowFailed =>
        cases h
        simp only [Activity.derived, Bool.and_eq_true, Bool.or_eq_true]
        exact ⟨(hends _).1, Or.inr (hends _).2⟩
    | workerFailed => cases h

end Saves

-- One step: the tables stay where the step has room, or a record is added to them.
inductive Went (journal : Int → Record) (x y : Replay) (a : ReplayAction) : Prop where
  | stayed (hhistory : y.history = x.history) (hseq : y.seq = x.seq)
      (htables : x.roomy a = true → Tables x.process.tracker y.process.tracker)
  | applied (s : Setting) (record : Record) (fault : Bool) (ha : a = .step (.record s record fault))
      (hfits : record = journal record.seq) (hseq : record.seq = x.seq + 1)
      (hok : (x.process.attempt s record fault).1 = .ok ())
      (hy : y = ⟨(x.process.attempt s record fault).2,
        x.history ++ [⟨record, s, x.process.bootId, x.process.reads record⟩]⟩)

section Steps

variable {journal : Int → Record} {x y : Replay} {a : ReplayAction} {p' : Process}

theorem Went.of_tracker (h : p'.tracker = x.process.tracker) : Went journal x { x with process := p' } a :=
  .stayed rfl (by simp only [Replay.seq, h]) fun _ => .of_db (by rw [h])

theorem Went.of_db (h : p'.tracker.db = x.process.tracker.db) : Went journal x { x with process := p' } a :=
  .stayed rfl (by simp only [Replay.seq, h]) fun _ => .of_db h.symm

theorem went_archived (h : Steady x.process.tracker) (items : List PoolItem) :
    Steady (x.process.save (.saveSubagentSnapshots items)).tracker ∧
      Went journal x { x with process := x.process.save (.saveSubagentSnapshots items) } a := by
  obtain ⟨hsteady, hrows, hcommands, hstate, hactivity⟩ := h.save (Or.inl ⟨items, rfl⟩)
  refine ⟨hsteady, .stayed rfl ?_ fun _ => ⟨fun r => (hrows r).symm, hcommands.symm, fun key _ => ?_⟩⟩
  · simp only [Replay.seq, Db.cursor, Process.save, hstate]
  · simp only [Process.save, hactivity, StoreOp.apply]
    split <;> rfl

theorem went_noted (h : Steady x.process.tracker) {rows : List (String × Activity)}
    (hp : p'.tracker = (x.process.tracker.call (.store (.saveActivity rows)) false).2)
    (hroom : x.roomy a = true → x.process.tracker.db.activity.size + rows.length ≤ 4000 ∧
      ∀ e ∈ rows, Activity.derived e.1 = true ∨ x.process.tracker.db.activity.get? e.1 = some e.2) :
    Steady p'.tracker ∧ Went journal x { x with process := p' } a := by
  obtain ⟨hsteady, hrows, hcommands, hstate, hactivity⟩ := h.save (Or.inr ⟨rows, rfl⟩)
  rw [← hp] at hsteady hrows hcommands hstate hactivity
  refine ⟨hsteady, .stayed rfl ?_ fun hroomy => ⟨fun r => (hrows r).symm, hcommands.symm, fun key hkey => ?_⟩⟩
  · simp only [Replay.seq, Db.cursor, hstate]
  · obtain ⟨hsize, hthere⟩ := hroom hroomy
    rw [hactivity, saveActivity_keeps hsize hthere hkey]

theorem went_attempted (h : Steady x.process.tracker) {s : Setting} {record : Record} {fault : Bool}
    (hnext : x.step journal (.record s record fault) = some y) :
    Steady y.process.tracker ∧ Went journal x y (.step (.record s record fault)) := by
  simp only [Replay.step, ProcessAction.replays, Bool.not_true, Bool.false_eq_true, if_false, ne_eq, ite_not,
    Process.next] at hnext
  split at hnext
  · rename_i hfits
    obtain ⟨p', hp', rfl⟩ := Option.map_eq_some_iff.mp hnext
    split at hp'
    · rename_i hguard
      cases hp'
      have hseq : record.seq = x.seq + 1 := of_decide_eq_true (Bool.and_eq_true_iff.mp hguard).2
      obtain ⟨hsteady, ⟨hok, _, _⟩ | ⟨⟨e, he⟩, hdb⟩⟩ := attempt_settles h s record fault
      · simp only [hok]
        exact ⟨hsteady, .applied s record fault rfl hfits hseq hok rfl⟩
      · simp only [he]
        exact ⟨hsteady, .of_db hdb⟩
    · cases hp'
  · cases hnext

theorem step_went {a : ProcessAction} (h : Steady x.process.tracker) (hnext : x.step journal a = some y) :
    Steady y.process.tracker ∧ Went journal x y (.step a) := by
  cases a with
  | record s record fault => exact went_attempted h hnext
  | tracker action => cases hnext
  | defer transition => cases hnext
  | effect index kept id now =>
      obtain ⟨p', hp', rfl⟩ := Option.map_eq_some_iff.mp hnext
      simp only [Process.next] at hp'
      split at hp'
      · cases hp'
      · split at hp'
        · cases hp'
        · cases hp'
          refine ⟨?_, .of_tracker (mirror_tracker ..)⟩
          rw [mirror_tracker]
          exact h
        · rename_i transition _
          cases hp'
          have heq := publishNow_tracker { x.process with pending := x.process.pending.eraseIdx index } transition id now
          cases hrow : Activity.workflow transition.1 transition.2.requestId now with
          | none =>
              rw [hrow] at heq
              refine ⟨?_, .of_tracker heq⟩
              rw [heq]
              exact h
          | some row =>
              rw [hrow] at heq
              refine went_noted h heq fun hroomy => ⟨of_decide_eq_true hroomy, fun e he => ?_⟩
              rw [List.mem_singleton.mp he]
              exact Or.inl (workflow_derived hrow)
  | boot bootId =>
      obtain ⟨p', hp', rfl⟩ := Option.map_eq_some_iff.mp hnext
      simp only [Process.next] at hp'
      split at hp' <;> cases hp'
      exact ⟨h, .of_tracker rfl⟩
  | archive items | backfillArchive items tombstones =>
      obtain ⟨p', hp', rfl⟩ := Option.map_eq_some_iff.mp hnext
      simp only [Process.next] at hp'
      split at hp' <;> cases hp'
      exact went_archived h _
  | backfillActivity rows tombstones =>
      obtain ⟨p', hp', rfl⟩ := Option.map_eq_some_iff.mp hnext
      simp only [Process.next] at hp'
      split at hp' <;> cases hp'
      refine went_noted h rfl fun hroomy => ?_
      have hfewer := List.length_filter_le (fun e : String × Activity => decide (e.2.requestId ∉ tombstones)) rows
      simp only [Replay.roomy, Bool.and_eq_true, decide_eq_true_eq, List.all_eq_true, Bool.or_eq_true] at hroomy
      exact ⟨by omega, fun e he => hroomy.2 e (List.mem_filter.mp he).1⟩
  | restart active recent =>
      obtain ⟨p', hp', rfl⟩ := Option.map_eq_some_iff.mp hnext
      simp only [Process.next] at hp'
      obtain ⟨t, ht, rfl⟩ := Option.map_eq_some_iff.mp hp'
      simp only [Tracker.next] at ht
      split at ht
      · cases ht
      · split at ht <;> cases ht
        obtain ⟨hsteady, hdb⟩ := h.restart ‹_› ‹_›
        exact ⟨hsteady, .of_db hdb⟩

theorem next_went (h : Steady x.process.tracker) (hnext : x.next journal a = some y) :
    Steady y.process.tracker ∧ Went journal x y a := by
  cases a with
  | step a => exact step_went h hnext
  | caughtUp epoch fault =>
      simp only [Replay.next] at hnext
      split at hnext <;> cases hnext
      obtain ⟨hsteady, htables, hseq⟩ := h.caughtUp epoch fault
      exact ⟨hsteady, .stayed rfl hseq fun _ => htables⟩

end Steps

-- The records that were applied are the first ones of the journal, each once and in order.
structure Logged (journal : Int → Record) (x : Replay) : Prop where
  steady : Steady x.process.tracker
  seq : x.seq = x.history.length
  records : x.history.map Applied.record = (List.range x.history.length).map fun i : Nat => journal (i + 1)

section Logs

variable {maxWorkflows : Nat} {journal : Int → Record} {x y : Replay} {a : ReplayAction}

theorem logged_start (maxWorkflows : Nat) (journal : Int → Record) :
    Logged journal (replayMachine maxWorkflows journal).start :=
  ⟨⟨.start maxWorkflows true, rfl, fun r row hrow => (by cases hrow), rfl, rfl⟩, rfl, rfl⟩

theorem Logged.next (h : Logged journal x) (hnext : x.next journal a = some y) : Logged journal y := by
  obtain ⟨hsteady, hwent⟩ := next_went h.steady hnext
  cases hwent with
  | stayed hhistory hseq _ => exact ⟨hsteady, by rw [hseq, hhistory, h.seq], by rw [hhistory, h.records]⟩
  | applied s record fault ha hfits hseq hok hy =>
      have hcount := h.seq
      have hnow : y.seq = record.seq := by
        rw [hy]
        exact attempt_seq h.steady hok
      rw [hcount] at hseq
      refine ⟨hsteady, ?_, ?_⟩
      · rw [hnow, hseq, hy, List.length_append]
        rfl
      · rw [hy, List.map_append, h.records, List.length_append, List.length_singleton, List.range_succ, List.map_append]
        simp only [List.map_cons, List.map_nil]
        rw [← hseq, ← hfits]

theorem replay_logged (h : (replayMachine maxWorkflows journal).Reachable x) : Logged journal x :=
  h.invariant (logged_start maxWorkflows journal) fun _ _ _ hx hnext => hx.next hnext

theorem next_seq (h : Logged journal x) (hnext : x.next journal a = some y) : x.seq ≤ y.seq := by
  have hcount := (h.next hnext).seq
  rw [h.seq, hcount]
  obtain ⟨_, hwent⟩ := next_went h.steady hnext
  cases hwent with
  | stayed hhistory _ _ => rw [hhistory]
  | applied s record fault _ _ _ _ hy =>
      rw [hy, List.length_append]
      omega

theorem run_seq {actions : List ReplayAction} (h : (replayMachine maxWorkflows journal).Reachable x)
    (hrun : (replayMachine maxWorkflows journal).run x actions = some y) : x.seq ≤ y.seq := by
  have hend : Logged journal y ∧ x.seq ≤ y.seq :=
    Machine.run_invariant (M := replayMachine maxWorkflows journal) (P := fun y => Logged journal y ∧ x.seq ≤ y.seq)
      (fun y a z hy hnext => ⟨hy.1.next hnext, hy.2.trans (next_seq hy.1 hnext)⟩) actions
      ⟨replay_logged h, Int.le_refl _⟩ hrun
  exact hend.2

end Logs

def roomyMachine (maxWorkflows : Nat) (journal : Int → Record) : Machine Replay ReplayAction :=
  (replayMachine maxWorkflows journal).restrict fun x a => x.roomy a = true

-- One process, in which no record fails.
def Replay.unbroken (x : Replay) : ReplayAction → Bool
  | .step (.record s record fault) => (x.process.attempt s record fault).1.isOk
  | .step (.restart ..) => false
  | .caughtUp _ fault => !fault
  | _ => true

def unbrokenMachine (maxWorkflows : Nat) (journal : Int → Record) : Machine Replay ReplayAction :=
  (roomyMachine maxWorkflows journal).restrict fun x a => x.unbroken a = true

-- Where the tables come from: nothing was applied, or they are those of the last record's commit.
inductive Origin (maxWorkflows : Nat) (journal : Int → Record) (x : Replay) : Prop where
  | empty (hhistory : x.history = [])
      (htables : Tables (replayMachine maxWorkflows journal).start.process.tracker x.process.tracker)
  | last (y : Replay) (s : Setting) (record : Record) (fault : Bool)
      (hy : (roomyMachine maxWorkflows journal).Reachable y) (hroom : y.process.tracker.db.activity.size < 4000)
      (hok : (y.process.attempt s record fault).1 = .ok ())
      (hhistory : x.history = y.history ++ [⟨record, s, y.process.bootId, y.process.reads record⟩])
      (htables : Tables (y.process.attempt s record fault).2.tracker x.process.tracker)

section Resume

variable {maxWorkflows : Nat} {journal : Int → Record} {x y : Replay} {a : ReplayAction}

theorem Origin.next (h : Origin maxWorkflows journal x) (hx : (roomyMachine maxWorkflows journal).Reachable x)
    (hnext : (roomyMachine maxWorkflows journal).next x a = some y) : Origin maxWorkflows journal y := by
  obtain ⟨hroomy, hstep⟩ := Machine.restrict_next hnext
  obtain ⟨_, hwent⟩ := next_went (replay_logged hx.of_restrict).steady hstep
  cases hwent with
  | stayed hhistory _ htables =>
      cases h with
      | empty hnone hstart => exact .empty (hhistory.trans hnone) (hstart.trans (htables hroomy))
      | last z s record fault hz hroom hok hlast hcommit =>
          exact .last z s record fault hz hroom hok (hhistory.trans hlast) (hcommit.trans (htables hroomy))
  | applied s record fault ha _ _ hok hy =>
      subst ha
      subst hy
      exact .last x s record fault hx (of_decide_eq_true hroomy) hok rfl (.of_db rfl)

theorem roomy_origin (h : (roomyMachine maxWorkflows journal).Reachable x) : Origin maxWorkflows journal x :=
  h.invariant_with (M := roomyMachine maxWorkflows journal) (fun hs => hs) (.empty rfl (.of_db rfl))
    fun _ _ _ horigin hreach hnext => horigin.next hreach hnext

-- By induction on the records: two runs that applied the same to the same have the same tables.
theorem tables_of_history (history : List Applied) {x y : Replay}
    (hx : (roomyMachine maxWorkflows journal).Reachable x) (hy : (roomyMachine maxWorkflows journal).Reachable y)
    (hxs : x.history = history) (hys : y.history = history) : Tables x.process.tracker y.process.tracker := by
  induction history using List.reverseRecOn generalizing x y with
  | nil =>
      cases roomy_origin hx with
      | last z _ _ _ _ _ _ hlast _ => simp [hxs] at hlast
      | empty _ hstart =>
          cases roomy_origin hy with
          | last z _ _ _ _ _ _ hlast _ => simp [hys] at hlast
          | empty _ hstart' => exact hstart.symm.trans hstart'
  | append_singleton history applied ih =>
      cases roomy_origin hx with
      | empty hnone _ => simp [hxs] at hnone
      | last z s record fault hz hroom hok hlast hcommit =>
          cases roomy_origin hy with
          | empty hnone _ => simp [hys] at hnone
          | last z' s' record' fault' hz' hroom' hok' hlast' hcommit' =>
              obtain ⟨hbefore, hentry⟩ := List.append_inj' (hxs.symm.trans hlast) rfl
              obtain ⟨hbefore', hentry'⟩ := List.append_inj' (hys.symm.trans hlast') rfl
              have hgiven := List.head_eq_of_cons_eq (hentry.symm.trans hentry')
              simp only [Applied.mk.injEq] at hgiven
              obtain ⟨rfl, rfl, hboot, hreads⟩ := hgiven
              have hmiddle := attempt_tables (ih hz hz' hbefore.symm hbefore'.symm)
                (replay_logged hz.of_restrict).steady (replay_logged hz'.of_restrict).steady hroom hroom' hboot hreads
                hok hok'
              exact (hcommit.symm.trans hmiddle).trans hcommit'

end Resume

section Keys

end Keys

-- The clock, the configuration, the engine and the memory that a record was applied with.
def Applied.given (applied : Applied) : Setting × Option String × Memory :=
  (applied.setting, applied.bootId, applied.memory)

-- The engine starts, and a request comes in with or without the name of the engine's process.
def startedJournal (boot : Option String) (seq : Int) : Record :=
  if seq = 1 then
    { seq, type := "engine_started", bootId := some "a", payload := some { event := "engine_started" } }
  else
    { seq, type := "request_admitted"
      payload := some { event := "request_admitted", requestId := some "r", bootId := boot } }

def resumeSetting : Setting where
  now := 3
  epoch := some "e"
  engine := ""
  autoAccept := true

-- A restart and a failed commit before the second record.
def resumedRun (boot : Option String) : List ReplayAction :=
  [.step (.record resumeSetting (startedJournal boot 1) false), .step (.restart [] []),
   .step (.record resumeSetting (startedJournal boot 2) true),
   .step (.record resumeSetting (startedJournal boot 2) false), .caughtUp (some "e") false]

def straightRun (boot : Option String) : List ReplayAction :=
  [.step (.record resumeSetting (startedJournal boot 1) false),
   .step (.record resumeSetting (startedJournal boot 2) false), .caughtUp (some "e") false]

end GaHub.Conductor
