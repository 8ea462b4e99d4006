import GaHub.Conductor.Recovery
import GaHub.Conductor.Tables

namespace GaHub.Conductor

open Lib

-- A command nobody has looked at, for the engine process the caller knows of.
def CommandPayload.untouched (payload : CommandPayload) (bootId : Option String) : Bool :=
  payload.prepared.isNone && !payload.suspended && decide (payload.bootId = bootId)

-- The operations the body of a record is made of, with its rows of the timeline.
def Op.ofRecord (rows : List (String × Activity)) (bootId : Option String) : Op → Bool
  | .setTitle .. | .admitRequest .. | .confirmAdmission .. | .recordSubagentEvent .. | .recordFinal ..
  | .failSupervisor .. | .store (.saveChat ..) => true
  | .store (.putCommand _ payload _) => payload.untouched bootId
  | .store (.saveActivity saved) => decide (saved = rows)
  | _ => false

def Op.ofAttempt (rows : List (String × Activity)) (bootId : Option String) (op : Op) : Bool :=
  match op with
  | .store (.checkpoint ..) => true
  | op => op.ofRecord rows bootId

def Runs (ok : Op → Bool) : Tracker → Tracker → Prop :=
  Relation.ReflTransGen fun u u' => ∃ op, ok op = true ∧ u' = (u.run op).2

section Runs

variable {ok : Op → Bool} {u u' : Tracker} {op : Op} {rest : Reply → Tracker → Deferring}

theorem Runs.run (hop : ok op = true) : Runs ok u (u.run op).2 := .single ⟨op, hop, rfl⟩

theorem Runs.mono {ok' : Op → Bool} (h : Runs ok u u') (hok : ∀ op, ok op = true → ok' op = true) :
    Runs ok' u u' := by
  induction h with
  | refl => exact .refl
  | tail _ hlast ih =>
      obtain ⟨op, hop, heq⟩ := hlast
      exact ih.tail ⟨op, hok op hop, heq⟩

theorem step_eq {reply : Reply} (h : (u.run op).1 = .ok reply) :
    u.step op rest = rest reply (u.run op).2 := by
  unfold Tracker.step
  rcases hrun : u.run op with ⟨result, u'⟩
  rw [hrun] at h
  cases h
  rfl

theorem step_error {e : ConductorError} (h : (u.run op).1 = .error e) :
    u.step op rest = (.error (.conductor e), (u.run op).2) := by
  unfold Tracker.step
  rcases hrun : u.run op with ⟨result, u'⟩
  rw [hrun] at h
  cases h
  rfl

theorem step_runs (hop : ok op = true)
    (hrest : ∀ reply, Runs ok (u.run op).2 (rest reply (u.run op).2).2) :
    Runs ok u (u.step op rest).2 := by
  cases hrun : (u.run op).1 with
  | error e =>
      rw [step_error hrun]
      exact .run hop
  | ok reply =>
      rw [step_eq hrun]
      exact (Runs.run hop).trans (hrest reply)

end Runs

section Bodies

variable {rows : List (String × Activity)} {bootId : Option String} {u : Tracker}

theorem onRemoteChat_runs (u : Tracker) (item : ChatItem) (now : Time) :
    Runs (Op.ofRecord rows bootId) u (u.onRemoteChat item now).2 := by
  have hsave : ∀ (u : Tracker) effects,
      Runs (Op.ofRecord rows bootId) u (u.step (.store (.saveChat (item.hub now) ((item.hub now).ts.getD now)))
        fun _ t => (.ok (effects ++ [.mirror (item.hub now)]), t)).2 := fun u effects =>
    step_runs rfl fun _ => .refl
  unfold Tracker.onRemoteChat Tracker.noteChat
  dsimp only
  split
  · exact hsave u _
  · split
    · exact hsave u _
    · split
      · exact step_runs rfl fun _ => hsave _ _
      · split
        · exact step_runs rfl fun _ => hsave _ _
        · exact hsave u _

theorem applyChat_runs (s : Setting) (boot : Option String) (item : Option ChatItem) :
    Runs (Op.ofRecord rows bootId) u (u.applyChat s boot item).2 := by
  unfold Tracker.applyChat
  split
  · exact .refl
  · split
    · exact onRemoteChat_runs u _ _
    · split
      · exact step_runs rfl fun _ => onRemoteChat_runs _ _ _
      · exact onRemoteChat_runs u _ _

theorem applyOutcome_runs (s : Setting) (chat : List ChatItem) (e : JournalEvent) :
    Runs (Op.ofRecord rows bootId) u (u.applyOutcome s chat e).2 := by
  unfold Tracker.applyOutcome
  split
  · exact .refl
  · split
    · exact .refl
    · split
      · unfold Tracker.failUnhandledRequest
        split
        · exact .refl
        · dsimp only
          split
          · exact .refl
          · exact step_runs rfl fun _ => .refl
      · split
        · exact step_runs rfl fun _ => .refl
        · exact .refl

theorem enqueueAutoAccept_runs (s : Setting) (sid : AgentId)
    (request : RequestId) (generation : Int) (effects : List Effect) :
    Runs (Op.ofRecord rows bootId) u (u.enqueueAutoAccept s bootId sid request generation effects).2 := by
  unfold Tracker.enqueueAutoAccept
  dsimp only
  split
  · exact .refl
  · exact step_runs (by simp [Op.ofRecord, CommandPayload.untouched]) fun _ => .refl

theorem recordWorkerEvent_runs (u : Tracker) (s : Setting) (boot : Option String)
    (event : WorkerEvent) (e : JournalEvent) :
    Runs (Op.ofRecord rows bootId) u (u.recordWorkerEvent s bootId boot event e).2 := by
  refine step_runs rfl fun reply => ?_
  dsimp only
  split
  · split
    · split
      · exact .refl
      · exact enqueueAutoAccept_runs ..
    · exact .refl
  · exact .refl

theorem applyWorkerEvent_runs (s : Setting) (boot : Option String) (event : WorkerEvent)
    (e : JournalEvent) : Runs (Op.ofRecord rows bootId) u (u.applyWorkerEvent s bootId boot event e).2 := by
  unfold Tracker.applyWorkerEvent
  split
  · exact recordWorkerEvent_runs u ..
  · split
    · exact recordWorkerEvent_runs u ..
    · exact step_runs rfl fun _ => recordWorkerEvent_runs ..

theorem applyRecord_runs (p : Process) (u : Tracker) (s : Setting) (record : Record) :
    Runs (Op.ofRecord (record.activity s.epoch).toList p.bootId) u (p.applyRecord u s record).2 := by
  unfold Process.applyRecord
  split
  · exact .refl
  · split
    · exact .refl
    · split
      · exact .refl
      · refine step_runs (by simp [Op.ofRecord]) fun _ => ?_
        split
        · exact .refl
        · exact .refl
        · split
          · exact .refl
          · split
            · exact .refl
            · exact step_runs rfl fun _ => .refl
        · exact applyChat_runs ..
        · exact applyWorkerEvent_runs ..
        · exact applyOutcome_runs ..
        · exact .refl

end Bodies

structure Inside (u u' : Tracker) : Prop where
  sync : Synced u'
  txn : u'.txn.isSome = true

section Attempts

variable {ok : Op → Bool} {u u' : Tracker} {op : Op}

theorem run_inside (hsync : Synced u) (htxn : u.txn.isSome = true) (op : Op) : Inside u (u.run op).2 := by
  have hready : u.Ready := fun _ => htxn
  exact ⟨run_synced hsync hready, (run_within hready hsync.named).txn.trans htxn⟩

theorem Runs.invariant {P : Tracker → Prop} (h : Runs ok u u') (hsync : Synced u)
    (htxn : u.txn.isSome = true) (hu : P u)
    (hstep : ∀ u op, Synced u → u.txn.isSome = true → ok op = true → P u → P (u.run op).2) :
    Inside u u' ∧ P u' := by
  induction h with
  | refl => exact ⟨⟨hsync, htxn⟩, hu⟩
  | tail _ hlast ih =>
      obtain ⟨op, hop, rfl⟩ := hlast
      have hkept := run_inside ih.1.sync ih.1.txn op
      exact ⟨⟨hkept.sync, hkept.txn⟩, hstep _ op ih.1.sync ih.1.txn hop ih.2⟩

theorem Runs.inside (h : Runs ok u u') (hsync : Synced u) (htxn : u.txn.isSome = true) : Inside u u' :=
  (h.invariant (P := fun _ => True) hsync htxn trivial fun _ _ _ _ _ _ => trivial).1

theorem ofRecord_cursor {rows : List (String × Activity)} {bootId : Option String} (hsync : Synced u) (htxn : u.txn.isSome = true)
    (hop : op.ofRecord rows bootId = true) : (u.run op).2.db.cursor = u.db.cursor := by
  have hready : u.Ready := fun _ => htxn
  cases op with
  | store op =>
      obtain ⟨s, x, hs, hx⟩ := open_store htxn
      simp only [Tracker.run, hs]
      rcases runStore_db hs op with ⟨hdb, _⟩ | ⟨hdb, _⟩
      · rw [hdb]
      · rw [hdb]
        cases op with
        | putCommand _ _ _ =>
            simp only [StoreOp.apply]
            split <;> rfl
        | saveChat item _ =>
            simp only [StoreOp.apply]
            split
            · rfl
            · split <;> rfl
        | saveActivity _ =>
            simp only [StoreOp.apply]
            split <;> rfl
        | _ => cases hop
  | setTitle _ _ | admitRequest _ _ _ _ | confirmAdmission _ _ _ | recordSubagentEvent _ _ _ _ _ _
  | recordFinal _ _ _ | failSupervisor _ _ _ _ => rw [run_db rfl rfl hready hsync.named]
  | _ => cases hop

-- A record ends in a commit or in a rollback of what its body left.
inductive Ends (p : Process) (s : Setting) (record : Record) (fault : Bool) : Prop where
  | committed (u : Tracker) (hruns : Runs (Op.ofAttempt (record.activity s.epoch).toList p.bootId) p.tracker.begin u)
      (hok : (p.attempt s record fault).1 = .ok ())
      (htracker : (p.attempt s record fault).2.tracker = u.commit)
  | rolledBack (u : Tracker) (hruns : Runs (Op.ofAttempt (record.activity s.epoch).toList p.bootId) p.tracker.begin u)
      (herror : ∃ e, (p.attempt s record fault).1 = .error e)
      (htracker : (p.attempt s record fault).2.tracker = u.rollback)

@[simp] theorem heard_tracker (p : Process) (record : Record) : (p.heard record).tracker = p.tracker := by
  unfold Process.heard
  split <;> rfl

@[simp] theorem heard_bootId (p : Process) (record : Record) : (p.heard record).bootId = p.bootId := by
  unfold Process.heard
  split <;> rfl

theorem body_runs (p : Process) (s : Setting) (record : Record) :
    Runs (Op.ofAttempt (record.activity s.epoch).toList p.bootId) p.tracker.begin (p.body s record).2 := by
  have happly : Runs (Op.ofAttempt (record.activity s.epoch).toList p.bootId) p.tracker.begin
      (p.applyRecord p.tracker.begin s record).2 := by
    refine (applyRecord_runs p p.tracker.begin s record).mono fun op hop => ?_
    cases op with
    | store op => cases op <;> first | rfl | exact hop
    | _ => exact hop
  unfold Process.body
  rcases hpair : p.applyRecord p.tracker.begin s record with ⟨result, u⟩
  rw [hpair] at happly
  cases result with
  | error e => exact happly
  | ok effects => exact happly.trans (step_runs rfl fun _ => .refl)

theorem attempt_ends (p : Process) (s : Setting) (record : Record) (fault : Bool) :
    Ends p s record fault := by
  have hruns := body_runs (p.heard record) s record
  rw [heard_tracker, heard_bootId] at hruns
  rcases hpair : (p.heard record).body s record with ⟨result, u⟩
  rw [hpair] at hruns
  cases result with
  | error e =>
      have heq : p.attempt s record fault = (.error e, { p.heard record with tracker := u.rollback }) := by
        simp only [Process.attempt, hpair]
      exact .rolledBack u hruns ⟨e, by rw [heq]⟩ (by rw [heq])
  | ok effects =>
      cases fault with
      | true =>
          have heq : p.attempt s record true =
              (.error (.conductor .fault), { p.heard record with tracker := u.rollback }) := by
            simp only [Process.attempt, hpair, if_true]
          exact .rolledBack u hruns ⟨_, by rw [heq]⟩ (by rw [heq])
      | false =>
          have heq : p.attempt s record false = (.ok (), { p.heard record with
              tracker := u.commit, pending := (p.heard record).pending ++ effects }) := by
            simp only [Process.attempt, hpair, Bool.false_eq_true, if_false]
          exact .committed u hruns (by rw [heq]) (by rw [heq])


inductive Moved (p p' : Process) : Prop where
  | still (h : p'.tracker = p.tracker)
  | acted (action : Action) (h : p.tracker.next action = some p'.tracker)
  | replayed (s : Setting) (record : Record) (u : Tracker) (hclosed : p.tracker.closed = true)
      (hruns : Runs (Op.ofAttempt (record.activity s.epoch).toList p.bootId) p.tracker.begin u)
      (hend : p'.tracker = u.commit ∨ p'.tracker = u.rollback)

theorem next_store {t : Tracker} (hclosed : t.closed = true) (op : StoreOp) :
    t.next (.call (.store op) false) = some (t.call (.store op) false).2 := by
  obtain ⟨s, hs, _⟩ := closed_store hclosed
  simp [Tracker.next, hs]

@[simp] theorem mirror_tracker (p : Process) (item : ChatItem) (kept : Finset String) :
    (p.mirror item kept).tracker = p.tracker := by
  unfold Process.mirror
  split <;> rfl

@[simp] theorem reportFailure_tracker (p : Process) (r : RequestId) (phase error id : String) (now : Time) :
    (p.reportFailure r phase error id now).tracker = p.tracker := by
  unfold Process.reportFailure
  split <;> rfl

theorem publishNow_tracker (p : Process) (transition : Transition) (id : String) (now : Time) :
    (p.publishNow transition id now).tracker =
      match Activity.workflow transition.1 transition.2.requestId now with
      | none => p.tracker
      | some row => (p.tracker.call (.store (.saveActivity [row])) false).2 := by
  unfold Process.publishNow
  cases Activity.workflow transition.1 transition.2.requestId now <;> dsimp only <;> split <;> simp

theorem next_moved {p p' : Process} {a : ProcessAction} (h : p.next a = some p') : Moved p p' := by
  cases a with
  | record s record fault =>
      simp only [Process.next] at h
      split at h
      · rename_i hguard
        cases h
        obtain ⟨hclosed, _⟩ := Bool.and_eq_true_iff.mp hguard
        cases attempt_ends p s record fault with
        | committed u hruns _ heq => exact .replayed s record u hclosed hruns (Or.inl heq)
        | rolledBack u hruns _ heq => exact .replayed s record u hclosed hruns (Or.inr heq)
      · cases h
  | tracker action =>
      simp only [Process.next] at h
      split at h
      · obtain ⟨t, ht, rfl⟩ := Option.map_eq_some_iff.mp h
        exact .acted action ht
      · cases h
  | defer transition =>
      cases h
      exact .still rfl
  | effect index kept id now =>
      simp only [Process.next] at h
      split at h
      · cases h
      · rename_i hguard
        have hclosed : p.tracker.closed = true := by simpa using hguard
        split at h
        · cases h
        · cases h
          exact .still (by simp)
        · cases h
          rename_i transition _
          have heq := publishNow_tracker { p with pending := p.pending.eraseIdx index } transition id now
          cases hrow : Activity.workflow transition.1 transition.2.requestId now with
          | none =>
              rw [hrow] at heq
              exact .still heq
          | some row =>
              rw [hrow] at heq
              refine .acted (.call (.store (.saveActivity [row])) false) ?_
              rw [next_store hclosed, heq]
  | boot bootId =>
      simp only [Process.next] at h
      split at h
      · cases h
      · cases h
        exact .still rfl
  | archive items =>
      simp only [Process.next] at h
      split at h
      · cases h
        exact .acted _ (next_store ‹_› _)
      · cases h
  | backfillArchive items tombstones =>
      simp only [Process.next] at h
      split at h
      · rename_i hguard
        cases h
        exact .acted _ (next_store (Bool.and_eq_true_iff.mp hguard).1 _)
      · cases h
  | backfillActivity rows tombstones =>
      simp only [Process.next] at h
      split at h
      · rename_i hguard
        cases h
        exact .acted _ (next_store (Bool.and_eq_true_iff.mp hguard).1 _)
      · cases h
  | restart active recent =>
      simp only [Process.next] at h
      obtain ⟨t, ht, rfl⟩ := Option.map_eq_some_iff.mp h
      exact .acted _ ht

theorem next_stored {p p' : Process} {a : ProcessAction}
    (h : Synced p.tracker ∧ p.tracker.store.isSome = true) (hnext : p.next a = some p') :
    Synced p'.tracker ∧ p'.tracker.store.isSome = true := by
  cases next_moved hnext with
  | still heq => exact heq ▸ h
  | acted action hact =>
      have hpieces : Relation.ReflTransGen (Piece fun _ => True) p.tracker p'.tracker :=
        next_pieces h.1.named (fun _ _ => trivial) hact
      exact pieces_invariant (P := fun t => t.store.isSome = true)
        (fun _ _ _ hstore hpiece => piece_store hpiece hstore) h hpieces
  | replayed s record u hclosed hruns hend =>
      have hkept := hruns.inside (h.1.begin hclosed) (begin_txn hclosed)
      have hstore := store_of_txn hkept.txn
      rcases hend with heq | heq
      · have hpiece : Piece (fun _ => True) u u.commit := .committed hkept.txn
        rw [heq]
        exact ⟨hkept.sync.commit hkept.txn, piece_store hpiece hstore⟩
      · have hpiece : Piece (fun _ => True) u u.rollback := .rolledBack hkept.txn trivial
        rw [heq]
        exact ⟨hkept.sync.rollback hkept.txn, piece_store hpiece hstore⟩

end Attempts

theorem recovery_reachable {maxWorkflows : Nat} {p : Process}
    (h : (recoveryMachine maxWorkflows).Reachable p) :
    Synced p.tracker ∧ p.tracker.store.isSome = true :=
  h.invariant (P := fun p => Synced p.tracker ∧ p.tracker.store.isSome = true)
    ⟨.start maxWorkflows true, rfl⟩ fun _ _ _ hp hnext => next_stored hp hnext

-- A property of the tables that the rows of the board do not matter for and that
-- some operations keep.
structure Stable (Q : Db → Prop) (ok : Op → Prop) : Prop where
  rows : ∀ db rows, Q db → Q { db with workflows := rows }
  run : ∀ (u : Tracker) op, Synced u → u.txn.isSome = true → ok op → Q u.db → Q (u.run op).2.db

-- It holds of the tables now, and of those a rollback goes back to.
structure Tabled (Q : Db → Prop) (t : Tracker) : Prop where
  db : Q t.db
  saved : Q t.saved

def Process.Performs (p : Process) (ok : Op → Prop) : ProcessAction → Prop
  | .record s record _ => ∀ op, op.ofAttempt (record.activity s.epoch).toList p.bootId = true → ok op
  | .tracker (.call op _) => ok op
  | .effect index _ _ now => ∀ transition, p.pending[index]? = some (.publish transition) →
      ∀ row, Activity.workflow transition.1 transition.2.requestId now = some row →
        ok (.store (.saveActivity [row]))
  | .archive items => ok (.store (.saveSubagentSnapshots items))
  | .backfillArchive items tombstones => ok (.store (.saveSubagentSnapshots (items.filter fun e =>
      !(e.2.requestId.any fun r => decide (r ≠ "" ∧ r ∈ tombstones)))))
  | .backfillActivity rows tombstones =>
      ok (.store (.saveActivity (rows.filter fun e => decide (e.2.requestId ∉ tombstones))))
  | _ => True

section Tabled

variable {Q : Db → Prop} {ok : Op → Prop} {t : Tracker}

theorem Within.closed {t' : Tracker} (h : Within t t') : t'.closed = t.closed := by
  simp only [Tracker.closed, h.store, ← Option.not_isSome, h.txn]

theorem Tabled.of_closed (h : Q t.db) (hclosed : t.closed = true) : Tabled Q t := by
  refine ⟨h, ?_⟩
  rw [closed_saved hclosed]
  exact h

theorem Tabled.begin (h : Tabled Q t) (hclosed : t.closed = true) : Tabled Q t.begin := by
  refine ⟨?_, ?_⟩
  · rw [(like_begin t).db]
    exact h.db
  · rw [begin_saved hclosed]
    exact h.db

theorem Tabled.commit (h : Tabled Q t) (hQ : Stable Q ok) (hopen : t.txn.isSome = true) : Tabled Q t.commit := by
  refine .of_closed ?_ (commit_closed hopen)
  rw [commit_db hopen]
  exact hQ.rows _ _ h.db

theorem Tabled.rollback (h : Tabled Q t) (hopen : t.txn.isSome = true) : Tabled Q t.rollback := by
  refine .of_closed ?_ (rollback_closed hopen)
  rw [rollback_db hopen]
  exact h.saved

theorem Tabled.restart (h : Tabled Q t) {s : Store} (hs : t.store = some s) (active recent : List RequestId) :
    Tabled Q (t.restart s active recent) := by
  have hdb : (t.restart s active recent).db = t.saved := restart_saved hs
  exact .of_closed (hdb ▸ h.saved) rfl

theorem Tabled.run {op : Op} (h : Tabled Q t) (hQ : Stable Q ok) (hsync : Synced t) (hopen : t.txn.isSome = true)
    (hop : ok op) : Tabled Q (t.run op).2 := by
  refine ⟨hQ.run t op hsync hopen hop h.db, ?_⟩
  rw [(run_within (fun _ => hopen) hsync.named).saved hopen]
  exact h.saved

theorem Tabled.runs {t' : Tracker} {allowed : Op → Bool} (h : Tabled Q t) (hQ : Stable Q ok) (hsync : Synced t)
    (hopen : t.txn.isSome = true) (hallowed : ∀ op, allowed op = true → ok op) (hruns : Runs allowed t t') :
    Tabled Q t' :=
  (hruns.invariant hsync hopen h fun _ op hs hx hop hu => hu.run hQ hs hx (hallowed op hop)).2

theorem Tabled.call {op : Op} (h : Tabled Q t) (hQ : Stable Q ok) (hsync : Synced t)
    (hstore : t.store.isSome = true) (hop : ok op) (fault : Bool) : Tabled Q (t.call op fault).2 := by
  cases hclosed : t.closed with
  | false =>
      have hopen := ready_of_not_closed hclosed hstore
      rw [call_inside hopen]
      exact h.run hQ hsync hopen hop
  | true =>
      cases hopens : op.opens t with
      | true =>
          have hbegin := (h.begin hclosed).run hQ (hsync.begin hclosed) (begin_txn hclosed) hop
          have hkept := run_inside (hsync.begin hclosed) (begin_txn hclosed) op
          simp only [Tracker.call, hclosed, hopens, Bool.and_self, if_true]
          rcases hrun : t.begin.run op with ⟨result, u⟩
          rw [hrun] at hbegin hkept
          cases result with
          | error e => exact hbegin.rollback hkept.txn
          | ok reply =>
              cases fault with
              | true => exact hbegin.rollback hkept.txn
              | false => exact hbegin.commit hQ hkept.txn
      | false =>
          -- a call that opens nothing has nothing to save
          simp only [Tracker.call, hclosed, hopens, Bool.and_false, Bool.false_eq_true, if_false]
          rcases run_idle hclosed hopens with haside | ⟨q, hq, harr⟩
          · have hclosed' := haside.within.closed.trans hclosed
            refine .of_closed ?_ hclosed'
            rw [← closed_saved hclosed', haside.saved]
            exact h.saved
          · refine .of_closed ?_ (harr.within.closed.trans hclosed)
            rw [harr.db (by rw [hq]; rfl)]
            exact h.db

theorem Tabled.next {p p' : Process} {a : ProcessAction} (h : Tabled Q p.tracker) (hQ : Stable Q ok)
    (hp : Synced p.tracker ∧ p.tracker.store.isSome = true) (hperforms : p.Performs ok a)
    (hnext : p.next a = some p') : Tabled Q p'.tracker := by
  obtain ⟨hsync, hstore⟩ := hp
  have hsave : ∀ op, ok (.store op) → Tabled Q (p.save op).tracker := fun op hop =>
    h.call hQ hsync hstore hop false
  cases a with
  | record s record fault =>
      simp only [Process.next] at hnext
      split at hnext
      · rename_i hguard
        cases hnext
        obtain ⟨hclosed, _⟩ := Bool.and_eq_true_iff.mp hguard
        have hbegin := hsync.begin hclosed
        have hopen := begin_txn hclosed
        cases attempt_ends p s record fault with
        | committed u hruns _ heq =>
            rw [heq]
            exact ((h.begin hclosed).runs hQ hbegin hopen hperforms hruns).commit hQ (hruns.inside hbegin hopen).txn
        | rolledBack u hruns _ heq =>
            rw [heq]
            exact ((h.begin hclosed).runs hQ hbegin hopen hperforms hruns).rollback (hruns.inside hbegin hopen).txn
      · cases hnext
  | tracker action =>
      simp only [Process.next] at hnext
      split at hnext
      · rename_i hapart
        obtain ⟨t, ht, rfl⟩ := Option.map_eq_some_iff.mp hnext
        cases action with
        | begin =>
            simp only [Tracker.next] at ht
            split at ht <;> cases ht
            exact h.begin ‹_›
        | commit =>
            simp only [Tracker.next] at ht
            split at ht <;> cases ht
            exact h.commit hQ ‹_›
        | rollback =>
            simp only [Tracker.next] at ht
            split at ht <;> cases ht
            exact h.rollback ‹_›
        | call op fault =>
            simp only [Tracker.next] at ht
            split at ht <;> cases ht
            exact h.call hQ hsync hstore hperforms fault
        | restart active recent => cases hapart
      · cases hnext
  | defer transition =>
      cases hnext
      exact h
  | effect index kept id now =>
      simp only [Process.next] at hnext
      split at hnext
      · cases hnext
      · split at hnext
        · cases hnext
        · cases hnext
          simpa using h
        · rename_i transition hpending
          cases hnext
          rw [publishNow_tracker]
          cases hrow : Activity.workflow transition.1 transition.2.requestId now with
          | none => exact h
          | some row => exact h.call hQ hsync hstore (hperforms transition hpending row hrow) false
  | boot bootId =>
      simp only [Process.next] at hnext
      split at hnext <;> cases hnext
      exact h
  | archive items | backfillArchive items tombstones | backfillActivity rows tombstones =>
      simp only [Process.next] at hnext
      split at hnext <;> cases hnext
      exact hsave _ hperforms
  | restart active recent =>
      simp only [Process.next] at hnext
      obtain ⟨t, ht, rfl⟩ := Option.map_eq_some_iff.mp hnext
      simp only [Tracker.next] at ht
      split at ht
      · cases ht
      · split at ht <;> cases ht
        exact h.restart ‹_› active recent

end Tabled

end GaHub.Conductor
