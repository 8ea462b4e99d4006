import GaHub.Conductor.Recovery.Records

namespace GaHub.Conductor

open Lib

-- `snapshots`. `recent` is what the query for the newest rows returns.
def Tracker.snapshots (t : Tracker) (recent : List RequestId) (limit : Nat) : List Payload :=
  let rows := if t.store.isSome then restoreState t.db recent else .empty
  let candidates := t.workflows.entries.foldl (fun d e => d.set e.1 e.2) rows
  let left := candidates.filter fun e => decide (e.1 ∉ t.db.tombstones)
  let workflows := left.values.insertionSort fun v w => v.createdAt ≤ w.createdAt
  (workflows.drop (workflows.length - max 1 limit)).map fun w => w.payload

-- A deleted request, in memory, in the tables and in what a rollback goes back to.
structure Gone (r : RequestId) (t : Tracker) : Prop where
  buried : r ∈ t.tombstones
  memory : t.workflows.get? r = none
  tables : r ∈ t.db.tombstones ∧ t.db.workflows.get? r = none
  saved : r ∈ t.saved.tombstones ∧ t.saved.workflows.get? r = none

section Gone

variable {r q : RequestId} {t t' : Tracker} {ok : Tracker → Prop}

theorem Gone.same (h : Gone r t) (hw : t'.workflows.get? r = none) (ht : t'.tombstones = t.tombstones)
    (hdb : t'.db = t.db) (hsaved : t'.saved = t.saved) : Gone r t' := by
  refine ⟨?_, hw, ?_, ?_⟩
  · rw [ht]
    exact h.buried
  · rw [hdb]
    exact h.tables
  · rw [hsaved]
    exact h.saved

theorem Gone.touch (h : Gone r t) (q : RequestId) : Gone r (t.touch q) :=
  h.same h.memory rfl (t.touch_db q) (t.touch_saved q)

theorem Gone.hold (h : Gone r t) (hne : r ≠ q) (w : WorkflowState) : Gone r (t.hold q w) := by
  refine h.same ?_ rfl rfl rfl
  rw [Tracker.hold_workflows, Dict.get?_set_ne _ _ hne]
  exact h.memory

theorem Gone.not_held {w : WorkflowState} (h : Gone r t) (hheld : t.workflows.get? q = some w) : r ≠ q := by
  rintro rfl
  rw [h.memory] at hheld
  cases hheld

theorem Gone.stored (h : Gone r t) : t.store.isSome = true := by
  cases hs : t.store with
  | none =>
      have hburied := h.tables.1
      simp [Tracker.db, hs] at hburied
  | some s => rfl

theorem Gone.forget (h : Gone r t) (hready : t.Ready) (q : RequestId) : Gone r (t.forgetWorkflow q true).2 := by
  refine ⟨?_, ?_, ?_, ?_⟩
  · rw [forget_tombstones]
    exact Finset.mem_insert_of_mem h.buried
  · rw [forget_workflows, h.memory, ite_self]
  · rw [forget_db h.stored]
    refine ⟨Finset.mem_insert_of_mem h.tables.1, ?_⟩
    simp only [Db.forgetWorkflow, Dict.get?_erase, h.tables.2, ite_self]
  · rw [forget_saved hready h.stored]
    exact h.saved

theorem Gone.arrive {op : Op} (h : Gone r t) (hready : t.Ready ∨ ∃ q, op = .assertReadyForFinal q)
    (harr : Arrival op t t') : Gone r t' := by
  cases harr with
  | stayed _ _ _ => exact h
  | held _ _ | probed _ _ _ => exact h.touch _
  | @loaded q row _ _ hrow =>
      refine (h.hold ?_ _).touch q
      rintro rfl
      cases h.tables.2.symm.trans hrow
  | created _ _ hburied _ _ _ _ =>
      refine (h.touch _).hold ?_ _
      rintro rfl
      exact hburied h.buried
  | forgotten hop _ =>
      refine h.forget (hready.resolve_right ?_) _
      rintro ⟨q, hq⟩
      cases hop.symm.trans hq

theorem Gone.edit {op : Op} (h : Gone r t) (hedit : Edit op t t') : Gone r t' := by
  cases hedit with
  | touched _ => exact h.touch _
  | changed hheld _ _ => exact h.hold (h.not_held hheld) _
  | owned => exact h.same h.memory rfl rfl rfl
  | pruned hstore =>
      have hstored := h.stored
      simp [hstore] at hstored

theorem gone_commit (hsync : Synced t) (hopen : t.txn.isSome = true) (hburied : r ∈ t.tombstones)
    (hmemory : t.workflows.get? r = none) (htables : r ∈ t.db.tombstones ∧ t.db.workflows.get? r = none) :
    Gone r t.commit := by
  have hheld : t.commit.workflows.get? r = none := by
    cases hw : t.commit.workflows.get? r with
    | none => rfl
    | some w =>
        have hheld := commit_held hw hopen
        rw [hmemory] at hheld
        cases hheld
  have hrow : t.commit.rows.get? r = none := by
    rw [commit_rows hsync hopen, hmemory]
    exact htables.2
  have hcommitted : r ∈ t.commit.db.tombstones ∧ t.commit.db.workflows.get? r = none := by
    rw [commit_db hopen]
    exact ⟨htables.1, hrow⟩
  have hsame : t.commit.tombstones = t.tombstones := by
    obtain ⟨s, x, hs, hx⟩ := open_store hopen
    rw [commit_eq hs hx]
    rfl
  refine ⟨hsame ▸ hburied, hheld, hcommitted, ?_⟩
  rw [closed_saved (commit_closed hopen)]
  exact hcommitted

theorem Gone.commit (h : Gone r t) (hsync : Synced t) (hopen : t.txn.isSome = true) : Gone r t.commit :=
  gone_commit hsync hopen h.buried h.memory h.tables

theorem Gone.rollback (h : Gone r t) (hsync : Synced t) (hopen : t.txn.isSome = true) : Gone r t.rollback := by
  have hmemory : t.rollback.workflows.get? r = none := by
    rw [rollback_workflows hopen]
    cases hbefore : t.before.get? r with
    | none => exact h.memory
    | some previous =>
        cases previous with
        | none => rfl
        | some w =>
            -- a rollback point would have a row to go back to
            have hrow := (hsync.touched r w hbefore).2.1
            rw [h.saved.2] at hrow
            cases hrow
  have hburied : t.rollback.tombstones = t.tombstones := by
    obtain ⟨s, x, hs, hx⟩ := open_store hopen
    simp only [Tracker.rollback, hs, hx]
  refine ⟨hburied ▸ h.buried, hmemory, ?_, ?_⟩
  · rw [rollback_db hopen]
    exact h.saved
  · rw [closed_saved (rollback_closed hopen), rollback_db hopen]
    exact h.saved

theorem Gone.restart (h : Gone r t) (hsync : Synced t) {s : Store} (hs : t.store = some s)
    (active recent : List RequestId) : Gone r (t.restart s active recent) := by
  have hdb : (t.restart s active recent).db = t.saved := restart_saved hs
  have hburied : (t.restart s active recent).tombstones = t.saved.tombstones :=
    congrArg Db.tombstones (restart_saved hs)
  have hmemory : (t.restart s active recent).workflows.get? r = none := by
    cases hw : (t.restart s active recent).workflows.get? r with
    | none => rfl
    | some w =>
        have hrow := (reloaded_held hsync hs (prune_held hw)).2
        rw [h.saved.2] at hrow
        cases hrow
  refine ⟨hburied ▸ h.saved.1, hmemory, hdb ▸ h.saved, ?_⟩
  have hsaved : (t.restart s active recent).saved = t.saved := hdb
  exact hsaved ▸ h.saved

theorem Gone.piece (h : Gone r t) (hsync : Synced t) (hpiece : Piece ok t t') : Gone r t' := by
  cases hpiece with
  | arrived hready harr => exact h.arrive hready harr
  | edited hedit => exact h.edit hedit
  | aside haside =>
      refine ⟨haside.tombstones ▸ h.buried, haside.workflows ▸ h.memory, ⟨haside.buried ▸ h.tables.1, ?_⟩,
        haside.saved ▸ h.saved⟩
      have hrows : t'.db.workflows = t.db.workflows := haside.rows
      rw [hrows]
      exact h.tables.2
  | begun hclosed =>
      refine ⟨h.buried, h.memory, ?_, ?_⟩
      · rw [(like_begin t).db]
        exact h.tables
      · rw [begin_saved hclosed]
        exact h.tables
  | committed hopen => exact h.commit hsync hopen
  | rolledBack hopen _ => exact h.rollback hsync hopen
  | restarted hs _ => exact h.restart hsync hs _ _

theorem Gone.runs {allowed : Op → Bool} (h : Gone r t) (hsync : Synced t) (hopen : t.txn.isSome = true)
    (hruns : Runs allowed t t') : Gone r t' := by
  refine (hruns.invariant hsync hopen h fun u op hs hx _ hu => ?_).2
  have hpieces : Relation.ReflTransGen (Piece fun _ => True) u (u.run op).2 := run_pieces (fun _ => hx) hs.named
  exact (pieces_invariant (P := Gone r) (fun _ _ hs hu hpiece => hu.piece hs hpiece) ⟨hs, hu⟩ hpieces).2

theorem Gone.moved {p p' : Process} (h : Gone r p.tracker) (hsync : Synced p.tracker) (hmoved : Moved p p') :
    Gone r p'.tracker := by
  cases hmoved with
  | still heq =>
      rw [heq]
      exact h
  | acted action hact =>
      have hpieces : Relation.ReflTransGen (Piece fun _ => True) p.tracker p'.tracker :=
        next_pieces hsync.named (fun _ _ => trivial) hact
      exact (pieces_invariant (P := Gone r) (fun _ _ hs hu hpiece => hu.piece hs hpiece) ⟨hsync, h⟩ hpieces).2
  | replayed s record u hclosed hruns hend =>
      have hbegun : Piece (fun _ => True) p.tracker p.tracker.begin := .begun hclosed
      have hbegin := h.piece hsync hbegun
      have hu := hbegin.runs (hsync.begin hclosed) (begin_txn hclosed) hruns
      have hkept := hruns.inside (hsync.begin hclosed) (begin_txn hclosed)
      rcases hend with heq | heq
      · rw [heq]
        exact hu.commit hkept.sync hkept.txn
      · rw [heq]
        exact hu.rollback hkept.sync hkept.txn

end Gone

structure Clean (r : RequestId) (db : Db) : Prop where
  archive : ∀ sid item, db.archive.get? sid = some item → item.requestId ≠ some r
  activity : ∀ id row, db.activity.get? id = some row → row.requestId ≠ r

def Op.spares (r : RequestId) : Op → Bool
  | .store (.saveSubagentSnapshots items) => items.all fun e => decide (e.2.requestId ≠ some r)
  | .store (.saveActivity rows) => rows.all fun e => decide (e.2.requestId ≠ r)
  | _ => true

section Clean

variable {r : RequestId} {t : Tracker} {db : Db}

theorem keepNewest_get? {ν : Type} {cap : Nat} {notOlder : ν → ν → Bool} {table : Dict String ν} {k : String} {v : ν}
    (h : (keepNewest cap notOlder table).get? k = some v) : table.get? k = some v := by
  unfold keepNewest at h
  rw [Dict.get?_filter] at h
  exact (Option.filter_eq_some_iff.mp h).1

theorem Clean.forget (h : Clean r db) (q : RequestId) : Clean r (db.forgetWorkflow q) := by
  refine ⟨fun sid item hitem => ?_, fun id row hrow => ?_⟩
  · simp only [Db.forgetWorkflow, Dict.get?_filter] at hitem
    exact h.archive sid item (Option.filter_eq_some_iff.mp hitem).1
  · simp only [Db.forgetWorkflow, Dict.get?_filter] at hrow
    exact h.activity id row (Option.filter_eq_some_iff.mp hrow).1

theorem Clean.apply (h : Clean r db) {op : StoreOp} (hop : (Op.store op).spares r = true) :
    Clean r (op.apply db) := by
  cases op with
  | checkpoint _ _ _ | defer _ => exact ⟨h.archive, h.activity⟩
  | putCommand _ _ _ =>
      simp only [StoreOp.apply]
      split
      · exact h
      · exact ⟨h.archive, h.activity⟩
  | finishCommand _ state _ _ =>
      cases state with
      | none => exact h
      | some state =>
          simp only [StoreOp.apply, Db.updateCommand]
          split
          · exact h
          · exact ⟨h.archive, h.activity⟩
  | prepareCommand _ _ =>
      simp only [StoreOp.apply, Db.updateCommand]
      split
      · exact h
      · exact ⟨h.archive, h.activity⟩
  | saveChat item _ =>
      simp only [StoreOp.apply]
      split
      · exact h
      · split
        · exact h
        · exact ⟨h.archive, h.activity⟩
  | saveSubagentSnapshots items =>
      simp only [StoreOp.apply]
      split
      · exact h
      · refine ⟨fun sid item hitem => ?_, h.activity⟩
        rcases Dict.mem_of_get?_foldl_set (keepNewest_get? hitem) with hnew | hold
        · simp only [Op.spares, List.all_eq_true, decide_eq_true_eq] at hop
          exact hop (sid, item) (List.mem_filter.mp hnew).1
        · exact h.archive sid item hold
  | saveActivity rows =>
      simp only [StoreOp.apply]
      split
      · exact h
      · refine ⟨h.archive, fun id row hrow => ?_⟩
        rcases Dict.mem_of_get?_foldl_set (keepNewest_get? hrow) with hnew | hold
        · simp only [Op.spares, List.all_eq_true, decide_eq_true_eq] at hop
          exact hop (id, row) (List.mem_filter.mp hnew).1
        · exact h.activity id row hold

theorem Clean.run {op : Op} (h : Clean r t.db) (hsync : Synced t) (hopen : t.txn.isSome = true)
    (hop : op.spares r = true) : Clean r (t.run op).2.db := by
  obtain ⟨s, x, hs, hx⟩ := open_store hopen
  by_cases hstore : op.onStore = true
  · cases op with
    | store op =>
        simp only [Tracker.run, hs]
        rcases runStore_db hs op with ⟨hdb, _⟩ | ⟨hdb, _⟩
        · rw [hdb]
          exact h
        · rw [hdb]
          exact h.apply hop
    | _ => cases hstore
  · by_cases hforget : op.forgets = true
    · cases op with
      | forgetWorkflow q allow =>
          rcases forgetWorkflow_cases t q allow with heq | heq
          · rw [Tracker.run, heq]
            exact h
          · rw [Tracker.run, heq, forget_db (by simp [hs])]
            exact h.forget q
      | _ => cases hforget
    · rw [run_db (by simpa using hstore) (by simpa using hforget) (fun _ => hopen) hsync.named]
      exact h

theorem clean_stable (r : RequestId) : Stable (Clean r) fun op => op.spares r = true :=
  ⟨fun _ _ h => ⟨h.archive, h.activity⟩, fun _ _ hsync hopen hop h => h.run hsync hopen hop⟩

end Clean

-- The step saves no row of the archive and none of the timeline for the request.
def Process.spares (p : Process) (r : RequestId) : ProcessAction → Bool
  | .record s record _ => (record.activity s.epoch).all fun e => decide (e.2.requestId ≠ r)
  | .effect index _ _ now =>
      match p.pending[index]? with
      | some (.publish transition) =>
          (Activity.workflow transition.1 transition.2.requestId now).all fun e => decide (e.2.requestId ≠ r)
      | _ => true
  | .archive items => items.all fun e => decide (e.2.requestId ≠ some r)
  -- a backfill that knows of the deletion filters, but never the unnamed request
  | .backfillArchive items tombstones =>
      decide (r ≠ "" ∧ r ∈ tombstones) || items.all fun e => decide (e.2.requestId ≠ some r)
  | .backfillActivity rows tombstones =>
      decide (r ∈ tombstones) || rows.all fun e => decide (e.2.requestId ≠ r)
  | _ => true

def Process.allSpare (r : RequestId) : Process → List ProcessAction → Bool
  | _, [] => true
  | p, a :: rest => p.spares r a && (p.next a).all fun p' => p'.allSpare r rest

section Steps

variable {r : RequestId} {p p' : Process}

theorem ofAttempt_spares {rows : List (String × Activity)} {bootId : Option String}
    (hrows : ∀ e ∈ rows, e.2.requestId ≠ r) {op : Op} (hop : op.ofAttempt rows bootId = true) :
    op.spares r = true := by
  cases op with
  | store op =>
      cases op with
      | saveActivity saved =>
          have heq : saved = rows := by simpa [Op.ofAttempt, Op.ofRecord] using hop
          simpa [Op.spares, heq] using hrows
      | saveSubagentSnapshots _ => cases hop
      | _ => rfl
  | _ => rfl

theorem spares_performs {a : ProcessAction} (hspares : p.spares r a = true) (hnext : p.next a = some p') :
    p.Performs (fun op => op.spares r = true) a := by
  cases a with
  | record s record fault =>
      have hrows : ∀ e ∈ (record.activity s.epoch).toList, e.2.requestId ≠ r := by
        simpa [Process.spares, Option.all_eq_true] using hspares
      exact fun _ => ofAttempt_spares hrows
  | tracker action =>
      simp only [Process.next] at hnext
      split at hnext
      · rename_i hapart
        cases action with
        | call op fault =>
            cases op with
            | store op =>
                cases op with
                | saveSubagentSnapshots _ | saveActivity _ => cases hapart
                | _ => rfl
            | _ => rfl
        | _ => trivial
      · cases hnext
  | effect index kept id now =>
      intro transition hpending row hrow
      simp only [Process.spares, hpending, hrow] at hspares
      simpa [Op.spares] using hspares
  | archive items => exact hspares
  | backfillArchive items tombstones =>
      simp only [Process.Performs, Op.spares, List.all_eq_true, decide_eq_true_eq]
      intro e he heq
      obtain ⟨hin, hfilter⟩ := List.mem_filter.mp he
      simp only [Process.spares, Bool.or_eq_true, decide_eq_true_eq, List.all_eq_true] at hspares
      rcases hspares with hread | hall
      · simp [heq, hread] at hfilter
      · exact hall e hin heq
  | backfillActivity rows tombstones =>
      simp only [Process.Performs, Op.spares, List.all_eq_true, decide_eq_true_eq]
      intro e he heq
      obtain ⟨hin, hfilter⟩ := List.mem_filter.mp he
      simp only [Process.spares, Bool.or_eq_true, decide_eq_true_eq, List.all_eq_true] at hspares
      rcases hspares with hread | hall
      · simp [heq, hread] at hfilter
      · exact hall e hin heq
  | _ => trivial

theorem run_gone {maxWorkflows : Nat} (actions : List ProcessAction) {p q : Process} (hsync : Synced p.tracker)
    (hgone : Gone r p.tracker) (hrun : (recoveryMachine maxWorkflows).run p actions = some q) :
    Synced q.tracker ∧ Gone r q.tracker ∧
      (Tabled (Clean r) p.tracker → p.allSpare r actions = true → Tabled (Clean r) q.tracker) := by
  induction actions generalizing p with
  | nil =>
      cases hrun
      exact ⟨hsync, hgone, fun h _ => h⟩
  | cons a actions ih =>
      simp only [Machine.run] at hrun
      change (p.next a).bind _ = _ at hrun
      obtain ⟨p', hnext, hrest⟩ := Option.bind_eq_some_iff.mp hrun
      obtain ⟨hsync', hgone', hcleared⟩ :=
        ih (next_stored ⟨hsync, hgone.stored⟩ hnext).1 (hgone.moved hsync (next_moved hnext)) hrest
      refine ⟨hsync', hgone', fun h hall => ?_⟩
      simp only [Process.allSpare, hnext, Option.all_some, Bool.and_eq_true] at hall
      exact hcleared (h.next (clean_stable r) ⟨hsync, hgone.stored⟩ (spares_performs hall.1 hnext) hnext) hall.2

end Steps

structure OffBoard (r : RequestId) (t : Tracker) : Prop where
  snapshot : t.snapshot r = none
  snapshots : ∀ recent limit, ∀ payload ∈ t.snapshots recent limit, payload.requestId ≠ r
  hasRequest : t.hasRequest r = false
  isOpen : t.isOpen r = false
  row : t.db.workflows.get? r = none

section Board

variable {r : RequestId} {t : Tracker}

theorem snapshots_named (hsync : Synced t) {recent : List RequestId} {limit : Nat} {payload : Payload}
    (h : payload ∈ t.snapshots recent limit) : payload.requestId ∉ t.db.tombstones := by
  obtain ⟨w, hw, rfl⟩ := List.mem_map.mp h
  have hvalue := (List.mem_insertionSort _).mp (List.mem_of_mem_drop hw)
  obtain ⟨k, hk⟩ := Dict.mem_values_iff.mp hvalue
  rw [Dict.get?_filter] at hk
  obtain ⟨hcandidate, hkept⟩ := Option.filter_eq_some_iff.mp hk
  have hname : w.requestId = k := by
    rcases Dict.mem_of_get?_foldl_set hcandidate with hheld | hrow
    · exact hsync.named k w (Dict.mem_entries_iff.mp hheld)
    · split at hrow
      · rw [restoreState_get? hsync.rows] at hrow
        split at hrow
        · obtain ⟨row, hstored, rfl⟩ := Option.map_eq_some_iff.mp hrow
          exact (hsync.rows k row hstored).decode.1
        · cases hrow
      · simp at hrow
  change w.requestId ∉ _
  rw [hname]
  exact of_decide_eq_true hkept

theorem Gone.offBoard (h : Gone r t) (hsync : Synced t) : OffBoard r t := by
  have hfind : t.find r = none := Tracker.find_eq_none.mpr ⟨h.memory, h.tables.2⟩
  refine ⟨?_, fun recent limit payload hmem heq => ?_, ?_, ?_, h.tables.2⟩
  · simp [Tracker.snapshot, hfind]
  · exact snapshots_named hsync hmem (heq ▸ h.tables.1)
  · simp [Tracker.hasRequest, hfind]
  · simp [Tracker.isOpen, hfind]

theorem forget_committed {allow : Bool} {reply : Reply} {t' : Tracker} (hsync : Synced t) (hclosed : t.closed = true)
    (h : t.call (.forgetWorkflow r allow) false = (.ok reply, t')) :
    Synced t' ∧ Gone r t' ∧ Tabled (Clean r) t' := by
  have hbegin := hsync.begin hclosed
  have hopen := begin_txn hclosed
  have hkept := run_inside hbegin hopen (.forgetWorkflow r allow)
  have hstore := store_of_txn hopen
  have hopens : Op.opens t (.forgetWorkflow r allow) = true := rfl
  simp only [Tracker.call, hclosed, hopens, Bool.and_self, if_true, Bool.false_eq_true, if_false] at h
  have hdone : (t.begin.run (.forgetWorkflow r allow)).2 = (t.begin.forgetWorkflow r true).2 ∧
      t' = (t.begin.run (.forgetWorkflow r allow)).2.commit := by
    rcases hrun : t.begin.run (.forgetWorkflow r allow) with ⟨result, u⟩
    rw [hrun] at h
    cases result with
    | error e => cases h
    | ok reply =>
        cases h
        refine ⟨?_, rfl⟩
        simp only [Tracker.run, Tracker.forgetWorkflow] at hrun
        split at hrun
        · cases hrun
        · cases hrun
          simp [Tracker.forgetWorkflow]
  obtain ⟨hbody, rfl⟩ := hdone
  rw [hbody] at hkept ⊢
  refine ⟨hkept.sync.commit hkept.txn, gone_commit hkept.sync hkept.txn ?_ ?_ ?_, ?_⟩
  · rw [forget_tombstones]
    exact Finset.mem_insert_self r _
  · rw [forget_workflows, if_pos rfl]
  · rw [forget_db hstore]
    refine ⟨Finset.mem_insert_self r _, ?_⟩
    simp [Db.forgetWorkflow]
  · refine .of_closed ?_ (commit_closed hkept.txn)
    rw [commit_db hkept.txn, forget_db hstore]
    refine ⟨fun sid item hitem => ?_, fun id row hrow => ?_⟩
    · simp only [Db.forgetWorkflow, Dict.get?_filter] at hitem
      exact of_decide_eq_true (Option.filter_eq_some_iff.mp hitem).2
    · simp only [Db.forgetWorkflow, Dict.get?_filter] at hrow
      exact of_decide_eq_true (Option.filter_eq_some_iff.mp hrow).2

end Board

-- A deleted request is off the board for good; its rows stay away while no step saves one.
theorem deletion_permanent {maxWorkflows : Nat} {p q : Process} {r : RequestId} {allow : Bool} {reply : Reply}
    {t : Tracker} {actions : List ProcessAction} (h : (recoveryMachine maxWorkflows).Reachable p)
    (hclosed : p.tracker.closed = true)
    (hforget : p.tracker.call (.forgetWorkflow r allow) false = (.ok reply, t))
    (hrun : (recoveryMachine maxWorkflows).run { p with tracker := t } actions = some q) :
    OffBoard r q.tracker ∧
      (Process.allSpare r { p with tracker := t } actions = true → Clean r q.tracker.db) := by
  obtain ⟨hsync, _⟩ := recovery_reachable h
  obtain ⟨hsync', hgone, hcleared⟩ := forget_committed hsync hclosed hforget
  obtain ⟨hend, hgone', hkeeps⟩ := @run_gone r _ actions { p with tracker := t } q hsync' hgone hrun
  exact ⟨hgone'.offBoard hend, fun hall => (hkeeps hcleared hall).db⟩

-- "r" is deleted, and the engine still reports how its turn ended.
def outcomeFor (request : RequestId) : Record where
  seq := 1
  type := "request_outcome"
  payload := some { event := "request_outcome", requestId := some request, status := some "failed" }

def onlyAdmitted : List ProcessAction := [.tracker (.call (.admitRequest "r" .admitted none 1) false)]

def replaySetting : Setting where
  now := 3
  epoch := some "e"
  engine := ""
  autoAccept := true

theorem deletion_permanent_outcome :
    ∃ p t q, (recoveryMachine 2).run (recoveryMachine 2).start onlyAdmitted = some p ∧
      p.tracker.call (.forgetWorkflow "r" true) false = (.ok .nothing, t) ∧
      (recoveryMachine 2).run { p with tracker := t } [.record replaySetting (outcomeFor "q") false] = some q ∧
      OffBoard "r" q.tracker ∧ Clean "r" q.tracker.db := by
  refine ⟨_, _, _, rfl, rfl, rfl, ?_⟩
  have h := @deletion_permanent 2 _ _ "r" true .nothing _ [.record replaySetting (outcomeFor "q") false]
    ⟨onlyAdmitted, rfl⟩ rfl rfl rfl
  exact ⟨h.1, h.2 (by decide)⟩

theorem deletion_leaves_outcome :
    ∃ p t q row, (recoveryMachine 2).run (recoveryMachine 2).start onlyAdmitted = some p ∧
      p.tracker.call (.forgetWorkflow "r" true) false = (.ok .nothing, t) ∧
      (recoveryMachine 2).run { p with tracker := t } [.record replaySetting (outcomeFor "r") false] = some q ∧
      q.tracker.db.activity.get? "e:1" = some row ∧ row.requestId = "r" ∧ ¬Clean "r" q.tracker.db := by
  refine ⟨_, _, _, _, rfl, rfl, rfl, rfl, rfl, fun h => ?_⟩
  exact h.activity "e:1" _ rfl rfl

end GaHub.Conductor
