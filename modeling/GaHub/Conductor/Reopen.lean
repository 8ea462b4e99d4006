import GaHub.Conductor.Bodies
import Mathlib.Data.Fintype.EquivFin

namespace GaHub.Conductor

open Lib

-- What `submit` does besides reopening, in the same transaction.
def Op.follows : Op → Bool
  | .admitRequest .. | .store _ => true
  | _ => false

-- The rest of the transaction, and its end where one is open.
def Tracker.follow (t : Tracker) (rest : List Op) : Tracker :=
  rest.foldl (fun t op => (t.call op false).2) t

def Tracker.settle (t : Tracker) : Tracker := if t.txn.isSome then t.commit else t

-- A dispatch as `execute_command` records it, its acceptance and the final.
def closingRound (r : RequestId) (a : AgentId) (g : Int) (bootId : Option String) (item : Item)
    (dispatched accepted finished : Time) : List Action :=
  [.begin, .call (.confirmAdmission r bootId dispatched) false,
   .call (.bindSubagent r a g dispatched) false, .commit,
   .call (.recordSubagentEvent a .accepted (some g) (some r) "" accepted) false,
   .call (.recordFinal r item finished) false]

def Completable (t : Tracker) (r : RequestId) : Prop :=
  ∀ a g bootId item dispatched accepted finished, t.requestForSubagent a = none →
    ∃ t', (conductorMachine t.maxWorkflows true).run t
        (closingRound r a g bootId item dispatched accepted finished) = some t' ∧
      (t'.find r).map WorkflowState.terminalEvent = some (some .workflowCompleted)

-- The request is open and can be completed, in this process and in the next one.
def ReopenTakesEffect (t : Tracker) (r : RequestId) : Prop :=
  (t.isOpen r = true ∧ Completable t r) ∧
    ∀ active recent t', t.next (.restart active recent) = some t' → t'.isOpen r = true ∧ Completable t' r

section Owners

variable {t : Tracker} {r q : RequestId} {a : AgentId} {w : WorkflowState}

theorem row_lists (h : Synced t) (hclosed : t.closed = true) (hfind : t.find q = some w) :
    ∃ row, t.db.workflows.get? q = some row ∧ (row.lists a = true ↔ a ∈ w.workers.keys) := by
  rw [h.find_closed hclosed] at hfind
  obtain ⟨row, hrow, rfl⟩ := Option.map_eq_some_iff.mp hfind
  obtain ⟨v, rfl, _⟩ := h.rows q row hrow
  refine ⟨v.asdict, hrow, ?_⟩
  rw [WorkflowState.decodeState_asdict]
  exact decide_eq_true_iff

theorem workerOwner_listed (h : Synced t) (hclosed : t.closed = true)
    (hown : t.db.workerOwner a = some q) : ∃ w, t.find q = some w ∧ a ∈ w.workers.keys := by
  obtain ⟨e, hlast, rfl⟩ := Option.map_eq_some_iff.mp hown
  obtain ⟨hmem, hlists⟩ := List.mem_filter.mp (List.mem_of_getLast? hlast)
  have hrow := Dict.mem_entries_iff.mp hmem
  have hfind : t.find e.1 = some (.decodeState e.2) := by
    rw [h.find_closed hclosed]
    exact congrArg (Option.map _) hrow
  obtain ⟨row, hrow', hiff⟩ := row_lists (a := a) h hclosed hfind
  cases hrow.symm.trans hrow'
  exact ⟨_, hfind, hiff.mp hlists⟩

theorem unlisted_of_unowned (h : Synced t) (hclosed : t.closed = true)
    (hown : t.requestForSubagent a = none) (hfind : t.find q = some w) : a ∉ w.workers.keys := by
  intro ha
  obtain ⟨row, hrow, hiff⟩ := row_lists (a := a) h hclosed hfind
  have hrows : t.db.workerOwner a = none := by
    unfold Tracker.requestForSubagent at hown
    split at hown
    · split at hown
      · exact hown
      · cases hown
    · exact hown
  rw [Db.workerOwner, Option.map_eq_none_iff, List.getLast?_eq_none_iff, List.filter_eq_nil_iff] at hrows
  exact hrows (q, row) (Dict.mem_entries_iff.mpr hrow) (hiff.mpr ha)

theorem exists_unowned (t : Tracker) : ∃ a, t.requestForSubagent a = none := by
  let listed := t.owners.keys ++ t.db.workflows.values.flatMap fun row => row.workers.map Prod.fst
  obtain ⟨a, ha⟩ := Infinite.exists_notMem_finset listed.toFinset
  simp only [listed, List.mem_toFinset, List.mem_append, not_or] at ha
  refine ⟨a, ?_⟩
  have hnone : t.owners.get? a = none := Dict.get?_eq_none_iff.mpr ha.1
  unfold Tracker.requestForSubagent
  rw [hnone]
  simp only [Db.workerOwner, Option.map_eq_none_iff, List.getLast?_eq_none_iff, List.filter_eq_nil_iff]
  intro e he hlists
  exact ha.2 (List.mem_flatMap.mpr ⟨e.2, List.mem_map_of_mem he, of_decide_eq_true hlists⟩)

theorem commit_owners (hopen : t.txn.isSome = true) (a : AgentId) :
    t.commit.owners.get? a = none ∨ t.commit.owners.get? a = t.owners.get? a := by
  obtain ⟨s, x, hs, hx⟩ := open_store hopen
  rw [commit_eq hs hx]
  change (Dict.filter _ t.owners).get? a = none ∨ (Dict.filter _ t.owners).get? a = t.owners.get? a
  rw [Dict.get?_filter]
  cases t.owners.get? a with
  | none => exact Or.inl rfl
  | some q =>
      by_cases hq : q ∉ Tracker.pruned (t.written s x).workflows (t.written s x).maxWorkflows
      · exact Or.inr (by simp [Option.filter, hq])
      · exact Or.inl (by simp [Option.filter, hq])

end Owners

section Round

variable {t : Tracker} {r : RequestId} {a : AgentId} {w : WorkflowState}

-- An open workflow that has gained one worker over another.
structure Joined (w w' : WorkflowState) (a : AgentId) (worker : WorkerState) : Prop where
  terminalEvent : w'.terminalEvent = none
  finalItem : w'.finalItem = none
  workers : ∀ b, w'.workers.get? b = if b = a then some worker else w.workers.get? b

theorem closed_iff (w : WorkflowState) :
    w.closed = true ↔ ∀ a worker, w.workers.get? a = some worker → worker.state.closed = true := by
  unfold WorkflowState.closed
  rw [List.all_eq_true]
  constructor
  · intro h a worker hworker
    exact h worker (Dict.mem_values_iff.mpr ⟨a, hworker⟩)
  · intro h worker hworker
    obtain ⟨a, ha⟩ := Dict.mem_values_iff.mp hworker
    exact h a worker ha

theorem Joined.closed_iff {w' : WorkflowState} {g : Int} (h : Joined w w' a ⟨g, .accepted⟩)
    (ha : a ∉ w.workers.keys) : w'.closed = true ↔ w.closed = true := by
  have hnone := Dict.get?_eq_none_iff.mpr ha
  rw [Conductor.closed_iff, Conductor.closed_iff]
  refine forall_congr' fun b => ?_
  rw [h.workers]
  by_cases hb : b = a
  · subst hb
    simp [hnone, WorkerStatus.closed]
  · simp [hb]

theorem Joined.someAccepted {w' : WorkflowState} {g : Int} (h : Joined w w' a ⟨g, .accepted⟩) :
    w'.someAccepted = true := by
  refine List.any_eq_true.mpr ⟨⟨g, .accepted⟩, Dict.mem_values_iff.mpr ⟨a, ?_⟩, rfl⟩
  rw [h.workers, if_pos rfl]

theorem bindWorker_joined (hopen : w.terminalEvent = none) (hitem : w.finalItem = none)
    (ha : a ∉ w.workers.keys) (g : Int) : Joined w (w.bindWorker a g) a ⟨g, .running⟩ := by
  unfold WorkflowState.bindWorker
  rw [Dict.get?_eq_none_iff.mpr ha]
  exact ⟨hopen, hitem, fun b => Dict.get?_set ..⟩

theorem accept_joined {w' : WorkflowState} {g : Int} (h : Joined w w' a ⟨g, .running⟩) (now : Time) :
    w'.noteWorker a (some g) = some w' ∧ Joined w (w'.applyEvent a .accepted "" now).1 a ⟨g, .accepted⟩ := by
  have hworker : w'.workers.get? a = some ⟨g, .running⟩ := by rw [h.workers, if_pos rfl]
  refine ⟨by simp [WorkflowState.noteWorker, hworker], ?_⟩
  have hset : w'.setWorker a .accepted = { w' with workers := w'.workers.set a ⟨g, .accepted⟩ } := by
    simp [WorkflowState.setWorker, hworker]
  have hnone : (w'.setWorker a .accepted).completeIfReady now = none := by
    simp [WorkflowState.completeIfReady, hset, h.finalItem]
  have happly : (w'.applyEvent a .accepted "" now).1 = w'.setWorker a .accepted := by
    simp only [WorkflowState.applyEvent, WorkflowState.observe, hnone]
  rw [happly, hset]
  refine ⟨h.terminalEvent, h.finalItem, fun b => ?_⟩
  rw [Dict.get?_set, h.workers]
  split <;> rfl

theorem dispatch_round (h : Synced t) (hclosed : t.closed = true) (hfind : t.find r = some w)
    (hopen : w.terminalEvent = none) (hitem : w.finalItem = none) (hown : t.requestForSubagent a = none)
    (g : Int) (bootId : Option String) (now : Time) (M : Machine Tracker Action)
    (hM : M.next = Tracker.next) :
    ∃ t' w', M.run t [.begin, .call (.confirmAdmission r bootId now) false,
        .call (.bindSubagent r a g now) false, .commit] = some t' ∧
      Synced t' ∧ t'.closed = true ∧ t'.find r = some w' ∧ Joined w w' a ⟨g, .running⟩ ∧
      ∀ o, t'.requestForSubagent a = some o → o = r := by
  obtain ⟨s, hs, _⟩ := closed_store hclosed
  have hstore : t.begin.store.isSome = true := by simp [Tracker.begin, hs]
  have hfind₀ : t.begin.find r = some w := (begin_find t r).trans hfind
  obtain ⟨_, hwrote₁, howners₁⟩ := confirmAdmission_wrote hstore hfind₀ bootId now
  obtain ⟨_, hsync₁, htxn₁⟩ := call_opened h hclosed (.confirmAdmission r bootId now)
  change Synced (t.begin.confirmAdmission r bootId now).2 at hsync₁
  change (t.begin.confirmAdmission r bootId now).2.txn.isSome = true at htxn₁
  generalize ht₁ : (t.begin.confirmAdmission r bootId now).2 = t₁ at *
  -- the confirmation rewrites neither the workers nor the end of the round
  obtain ⟨w₁, hw₁, hopen₁, hitem₁, hworkers₁⟩ : ∃ w₁, t₁.find r = some w₁ ∧ w₁.terminalEvent = none ∧
      w₁.finalItem = none ∧ w₁.workers = w.workers := by
    refine ⟨_, hwrote₁.here, ?_⟩
    split
    · exact ⟨hopen, hitem, rfl⟩
    · exact ⟨hopen, hitem, rfl⟩
  have ha : a ∉ w₁.workers.keys := hworkers₁ ▸ unlisted_of_unowned h hclosed hown hfind
  obtain ⟨_, hwrote₂, howners₂⟩ := bindSubagent_wrote hw₁ hopen₁ hitem₁ a g now
  have hready₁ : t₁.Ready := fun _ => htxn₁
  have hsync₂ : Synced (t₁.bindSubagent r a g now).2 :=
    @run_synced t₁ (.bindSubagent r a g now) hsync₁ hready₁
  have hwithin₂ : Within t₁ (t₁.bindSubagent r a g now).2 :=
    @run_within t₁ (.bindSubagent r a g now) hready₁ hsync₁.named
  have htxn₂ : (t₁.bindSubagent r a g now).2.txn.isSome = true := hwithin₂.txn.trans htxn₁
  generalize ht₂ : (t₁.bindSubagent r a g now).2 = t₂ at *
  have hjoined : Joined w (w₁.bindWorker a g) a ⟨g, .running⟩ := by
    have hj := bindWorker_joined hopen₁ hitem₁ ha g
    exact ⟨hj.terminalEvent, hj.finalItem, hworkers₁ ▸ hj.workers⟩
  refine ⟨t₂.commit, _, ?_, hsync₂.commit htxn₂, commit_closed htxn₂,
    (commit_find hsync₂ htxn₂ r).trans hwrote₂.here, hjoined, fun o ho => ?_⟩
  · have hcall₁ : (t.begin.call (.confirmAdmission r bootId now) false).2 = t₁ := by
      rw [call_inside (begin_txn hclosed)]
      exact ht₁
    have hcall₂ : (t₁.call (.bindSubagent r a g now) false).2 = t₂ := by
      rw [call_inside htxn₁]
      exact ht₂
    simp [Machine.run, hM, Tracker.next, hclosed, Op.onStore, hcall₁, hcall₂, htxn₂]
  · -- an owner other than `r` would list the worker already
    have hrow : t₂.commit.db.workerOwner a = some o → o = r := by
      intro hrow
      obtain ⟨v, hv, hlisted⟩ := workerOwner_listed (hsync₂.commit htxn₂) (commit_closed htxn₂) hrow
      by_contra hne
      rw [commit_find hsync₂ htxn₂, hwrote₂.apart o hne, hwrote₁.apart o hne, begin_find] at hv
      exact unlisted_of_unowned h hclosed hown hv hlisted
    have hindex : t₂.owners.get? a = some r := by
      rw [howners₂]
      exact Dict.get?_set_self ..
    unfold Tracker.requestForSubagent at ho
    rcases commit_owners htxn₂ a with hnone | hsame
    · rw [hnone] at ho
      exact hrow ho
    · rw [hsame, hindex] at ho
      dsimp only at ho
      split at ho
      · exact hrow ho
      · exact (Option.some.inj ho).symm

theorem call_wrote {op : Op} {reply : Reply} (h : Synced t) (hclosed : t.closed = true)
    (hopens : op.opens t = true) (hrun : (t.begin.run op).1 = .ok reply)
    (hwrote : Wrote t.begin (t.begin.run op).2 r w) :
    Synced (t.call op false).2 ∧ (t.call op false).2.closed = true ∧
      (t.call op false).2.find r = some w := by
  obtain ⟨_, hsync, htxn⟩ := call_opened h hclosed op
  rw [call_ok hclosed hopens hrun]
  exact ⟨hsync.commit htxn, commit_closed htxn, (commit_find hsync htxn r).trans hwrote.here⟩

theorem accept_round {w' : WorkflowState} {g : Int} (h : Synced t) (hclosed : t.closed = true)
    (hfind : t.find r = some w') (hjoined : Joined w w' a ⟨g, .running⟩)
    (hown : ∀ o, t.requestForSubagent a = some o → o = r) (now : Time) :
    ∃ t' w'', (t.call (.recordSubagentEvent a .accepted (some g) (some r) "" now) false).2 = t' ∧
      Synced t' ∧ t'.closed = true ∧ t'.find r = some w'' ∧ Joined w w'' a ⟨g, .accepted⟩ := by
  obtain ⟨hnote, hjoined'⟩ := accept_joined hjoined now
  obtain ⟨hrun, hwrote⟩ := recordSubagentEvent_wrote ((begin_find t r).trans hfind) hjoined.terminalEvent
    hnote (fun o ho hne => absurd (hown o (((like_begin t).requestForSubagent a).symm.trans ho)) hne)
    .accepted "" now
  obtain ⟨hsync, hclosed', hfind'⟩ := @call_wrote t r _ (.recordSubagentEvent a .accepted (some g) (some r) "" now)
    _ h hclosed rfl hrun hwrote
  exact ⟨_, _, rfl, hsync, hclosed', hfind', hjoined'⟩

theorem final_round_iff {w' : WorkflowState} {g : Int} (h : Synced t) (hclosed : t.closed = true)
    (hfind : t.find r = some w') (hjoined : Joined w w' a ⟨g, .accepted⟩) (ha : a ∉ w.workers.keys)
    (item : Item) (now : Time) :
    ((t.call (.recordFinal r item now) false).2.find r).map WorkflowState.terminalEvent =
      some (some .workflowCompleted) ↔ w.closed = true := by
  have hfind₀ : t.begin.find r = some w' := (begin_find t r).trans hfind
  have hiff := assertReadyForFinal_iff hjoined.terminalEvent hjoined.someAccepted
  rw [hjoined.closed_iff ha] at hiff
  rw [← hiff]
  cases hready : w'.assertReadyForFinal with
  | ok done =>
      obtain ⟨transition, v, hrun, hwrote, hterm⟩ := recordFinal_wrote hfind₀ hjoined.finalItem hready item now
      obtain ⟨_, _, hfind'⟩ := @call_wrote t r v (.recordFinal r item now) _ h hclosed rfl hrun hwrote
      simp [hfind', hterm]
  | error e =>
      have hrun := recordFinal_refused hfind₀ hjoined.finalItem hready item now
      rw [@call_failed t (.recordFinal r item now) h hclosed rfl e hrun r, hfind]
      simp [hjoined.terminalEvent]

theorem completable_iff (h : Synced t) (hclosed : t.closed = true) (hfind : t.find r = some w)
    (hopen : w.terminalEvent = none) (hitem : w.finalItem = none) :
    Completable t r ↔ w.closed = true := by
  have hround : ∀ a g bootId item dispatched accepted finished, t.requestForSubagent a = none →
      ∃ t', (conductorMachine t.maxWorkflows true).run t
          (closingRound r a g bootId item dispatched accepted finished) = some t' ∧
        ((t'.find r).map WorkflowState.terminalEvent = some (some .workflowCompleted) ↔
          w.closed = true) := by
    intro a g bootId item dispatched accepted finished hown
    obtain ⟨t₁, w₁, hrun, hsync₁, hclosed₁, hfind₁, hjoined₁, hown₁⟩ :=
      dispatch_round h hclosed hfind hopen hitem hown g bootId dispatched
        (conductorMachine t.maxWorkflows true) rfl
    obtain ⟨t₂, w₂, hcall, hsync₂, hclosed₂, hfind₂, hjoined₂⟩ :=
      accept_round hsync₁ hclosed₁ hfind₁ hjoined₁ hown₁ accepted
    have ha := unlisted_of_unowned h hclosed hown hfind
    refine ⟨_, ?_, final_round_iff hsync₂ hclosed₂ hfind₂ hjoined₂ ha item finished⟩
    have hsplit : closingRound r a g bootId item dispatched accepted finished =
        [.begin, .call (.confirmAdmission r bootId dispatched) false,
          .call (.bindSubagent r a g dispatched) false, .commit] ++
        [.call (.recordSubagentEvent a .accepted (some g) (some r) "" accepted) false,
          .call (.recordFinal r item finished) false] := rfl
    rw [hsplit, Machine.run_append, hrun]
    simp [Machine.run, conductorMachine, Tracker.next, Op.onStore, hcall]
  constructor
  · intro hcompletable
    obtain ⟨a, ha⟩ := exists_unowned t
    obtain ⟨t₁, hrun₁, hiff⟩ := hround a 1 none ⟨none, ""⟩ 0 0 0 ha
    obtain ⟨t₂, hrun₂, hterm⟩ := hcompletable a 1 none ⟨none, ""⟩ 0 0 0 ha
    cases hrun₁.symm.trans hrun₂
    exact hiff.mp hterm
  · intro hall a g bootId item dispatched accepted finished hown
    obtain ⟨t', hrun, hiff⟩ := hround a g bootId item dispatched accepted finished hown
    exact ⟨t', hrun, hiff.mpr hall⟩

end Round

section Reopen

variable {t : Tracker} {r : RequestId} {w : WorkflowState}

theorem follows_find {op : Op} (h : Synced t) (hop : op.follows = true) (hstore : t.store.isSome = true)
    (hfind : t.find r = some w) : (t.call op false).2.find r = some w := by
  have hcourse := call_course h op false
  generalize t.call op false = result at hcourse ⊢
  cases hcourse with
  | failed hsame => exact (hsame r).trans hfind
  | idle _ hsame => exact (hsame r).trans hfind
  | @ran u t' hlike hready hsync hsame =>
      have hstore' : u.store.isSome = true := hlike.store.trans hstore
      have hfind' : u.find r = some w := (hlike.find r).trans hfind
      change t'.find r = some w
      rw [hsame]
      cases op with
      | admitRequest q admissionState bootId now =>
          change (u.admitRequest q admissionState bootId now).find r = some w
          by_cases hq : r = q
          · subst hq
            exact (admitRequest_wrote hstore' hfind' admissionState bootId now).1.here
          · exact (admitRequest_apart hstore' hq admissionState bootId now).trans hfind'
      | store op =>
          obtain ⟨s, hs⟩ := Option.isSome_iff_exists.mp hstore'
          have htxn : s.txn.isSome = true := by simpa [Tracker.txn, hs] using hready hstore'
          have haside : Aside u (u.runStore s op).2 := runStore_aside hs htxn
          simp only [Tracker.run, hs]
          exact (Tracker.find_congr haside.workflows haside.rows r).trans hfind'
      | _ => cases hop

theorem next_call {op : Op} (hstore : t.store.isSome = true) :
    t.next (.call op false) = some (t.call op false).2 := by
  cases hs : t.store with
  | none => simp [hs] at hstore
  | some s => simp [Tracker.next, hs]

theorem next_synced {a : Action} {t' : Tracker} (h : Synced t) (hnext : t.next a = some t') : Synced t' :=
  (@pieces_invariant (fun _ => True) (fun _ => True) t t' (fun _ _ _ _ _ => trivial) ⟨h, trivial⟩
    (next_pieces h.named (fun _ _ => trivial) hnext)).1

theorem stored_reachable {maxWorkflows : Nat} (h : (conductorMachine maxWorkflows true).Reachable t) :
    Synced t ∧ t.store.isSome = true :=
  conductor_pieces (P := fun t => t.store.isSome = true) rfl
    (fun _ _ _ hstore hpiece => piece_store hpiece hstore) h

theorem call_stored (h : Synced t) (hstore : t.store.isSome = true) (op : Op) :
    Synced (t.call op false).2 ∧ (t.call op false).2.store.isSome = true :=
  @pieces_invariant (fun _ => True) (fun t => t.store.isSome = true) t _
    (fun _ _ _ hstore hpiece => piece_store hpiece hstore) ⟨h, hstore⟩
    (next_pieces h.named (fun _ _ => trivial) (next_call hstore))

theorem follow_find (rest : List Op) (hrest : ∀ op ∈ rest, op.follows = true) :
    ∀ {t : Tracker}, Synced t → t.store.isSome = true → t.find r = some w →
      Synced (t.follow rest) ∧ (t.follow rest).store.isSome = true ∧ (t.follow rest).find r = some w := by
  induction rest with
  | nil => exact fun h hstore hfind => ⟨h, hstore, hfind⟩
  | cons op rest ih =>
      intro t h hstore hfind
      obtain ⟨hop, hrest⟩ := List.forall_mem_cons.mp hrest
      obtain ⟨h', hstore'⟩ := call_stored h hstore op
      exact ih hrest h' hstore' (follows_find h hop hstore hfind)

theorem settle_find (h : Synced t) (hstore : t.store.isSome = true) :
    Synced t.settle ∧ t.settle.closed = true ∧ t.settle.find r = t.find r := by
  unfold Tracker.settle
  split
  · rename_i hopen
    exact ⟨h.commit hopen, commit_closed hopen, commit_find h hopen r⟩
  · rename_i hopen
    exact ⟨h, by simpa [Tracker.closed, hstore] using hopen, rfl⟩

theorem restart_find {active recent : List RequestId} {t' : Tracker} (h : Synced t)
    (hclosed : t.closed = true) (hstep : t.next (.restart active recent) = some t') :
    Synced t' ∧ t'.closed = true ∧ t'.find r = t.find r := by
  obtain ⟨s, hs, hx⟩ := closed_store hclosed
  have hsync := next_synced h hstep
  simp only [Tracker.next, hs] at hstep
  split at hstep
  · cases hstep
    have hrows : (t.restart s active recent).rows = t.rows := by
      rw [restart_rows hs]
      simp [Tracker.saved, Tracker.txn, Tracker.rows, hs, hx]
    refine ⟨hsync, rfl, ?_⟩
    rw [hsync.find_closed rfl, h.find_closed hclosed, hrows]
  · cases hstep

theorem reopen_find {t₁ : Tracker} {p : Payload} (h : Synced t)
    (hcall : t.call (.reopen r) false = (.ok (.reopened (some p)), t₁)) :
    ∃ w, t.find r = some w ∧ w.terminalEvent.isSome = true ∧
      t₁.find r = some (if (t.workflows.get? r).isSome then w.reopen else w) := by
  have hcourse := call_course h (.reopen r) false
  rw [hcall] at hcourse
  have hbody : ∀ u : Tracker, u.workflows = t.workflows → (∀ q, u.find q = t.find q) →
      (u.reopen r).1 = .ok (.reopened (some p)) →
      ∃ w, t.find r = some w ∧ w.terminalEvent.isSome = true ∧
        (u.reopen r).2.find r = some (if (t.workflows.get? r).isSome then w.reopen else w) := by
    intro u hworkflows hsame hrun
    unfold Tracker.reopen at hrun ⊢
    split at hrun
    · cases hrun
    · simp only [touch_find, hsame] at hrun ⊢
      cases hfind : t.find r with
      | none => simp [hfind] at hrun
      | some w =>
          simp only [hfind] at hrun ⊢
          split at hrun
          · cases hrun
          · rename_i hterm
            have hterm' : w.terminalEvent.isSome = true := by simpa [Option.isSome_iff_ne_none] using hterm
            refine ⟨w, rfl, hterm', ?_⟩
            rw [if_neg ‹_›, if_neg hterm, Tracker.touch_workflows, hworkflows]
            split
            · rw [hold_find, if_pos rfl]
            · rw [touch_find, hsame, hfind]
  generalize hresult : ((.ok (.reopened (some p)) : Except ConductorError Reply), t₁) = result at hcourse
  cases hcourse with
  | failed _ => cases hresult
  | idle hidle _ =>
      have hburied : r ∈ t.tombstones := by simpa [Op.opens] using hidle
      have hnone : (t.run (.reopen r)).1 = .ok (.reopened none) := by
        simp [Tracker.run, Tracker.reopen, hburied]
      rw [hnone] at hresult
      cases hresult
  | @ran u t' hlike _ _ hfind =>
      obtain ⟨w, hw, hterm, hleft⟩ := hbody u hlike.workflows hlike.find (congrArg Prod.fst hresult).symm
      have ht₁ : t₁ = t' := congrArg Prod.snd hresult
      refine ⟨w, hw, hterm, ?_⟩
      rw [ht₁, hfind]
      exact hleft

end Reopen

-- Reopening takes effect exactly for a workflow in memory none of whose workers is left open.
theorem reopen_takes_effect_iff {maxWorkflows : Nat} {t t₁ : Tracker} {r : RequestId} {p : Payload}
    {rest : List Op} (h : (conductorMachine maxWorkflows true).Reachable t)
    (hcall : t.call (.reopen r) false = (.ok (.reopened (some p)), t₁))
    (hrest : ∀ op ∈ rest, op.follows = true) :
    ReopenTakesEffect (t₁.follow rest).settle r ↔
      ∃ w, t.workflows.get? r = some w ∧ w.closed = true := by
  obtain ⟨hsync, hstore⟩ := stored_reachable h
  obtain ⟨w, hfind, hterm, hleft⟩ := reopen_find hsync hcall
  obtain ⟨hsync₁, hstore₁⟩ := call_stored hsync hstore (.reopen r)
  rw [hcall] at hsync₁ hstore₁
  obtain ⟨hsync₂, hstore₂, hfind₂⟩ := follow_find rest hrest hsync₁ hstore₁ hleft
  obtain ⟨hsync₃, hclosed₃, hfind₃⟩ := settle_find (r := r) hsync₂ hstore₂
  rw [hfind₂] at hfind₃
  generalize (t₁.follow rest).settle = u at *
  cases hheld : t.workflows.get? r with
  | none =>
      have hshut : u.isOpen r = false := by
        rw [hheld] at hfind₃
        simpa [Tracker.isOpen, hfind₃] using hterm
      refine ⟨fun heffect => ?_, fun hex => ?_⟩
      · rw [heffect.1.1] at hshut
        cases hshut
      · obtain ⟨v, hv, _⟩ := hex
        cases hv
  | some v =>
      cases (Tracker.find_of_held hheld).symm.trans hfind
      rw [hheld, Option.isSome_some, if_pos rfl] at hfind₃
      have hopen : ∀ u : Tracker, u.find r = some w.reopen → u.isOpen r = true := fun u hu => by
        simp [Tracker.isOpen, hu, WorkflowState.reopen]
      have hiff : ∀ u : Tracker, Synced u → u.closed = true → u.find r = some w.reopen →
          (Completable u r ↔ w.closed = true) := fun u hs hc hf =>
        @completable_iff u r w.reopen hs hc hf rfl rfl
      constructor
      · exact fun heffect => ⟨w, rfl, (hiff u hsync₃ hclosed₃ hfind₃).mp heffect.1.2⟩
      · rintro ⟨v, hv, hall⟩
        cases hv
        refine ⟨⟨hopen u hfind₃, (hiff u hsync₃ hclosed₃ hfind₃).mpr hall⟩, fun active recent u' hstep => ?_⟩
        obtain ⟨hsync', hclosed', hfind'⟩ := restart_find (r := r) hsync₃ hclosed₃ hstep
        rw [hfind₃] at hfind'
        exact ⟨hopen u' hfind', (hiff u' hsync' hclosed' hfind').mpr hall⟩

def evictedRun : List Action :=
  [.call (.admitRequest "a" .admitted none 1) false, .call (.bindSubagent "a" "x" 1 2) false,
   .call (.recordSubagentEvent "x" .accepted (some 1) none "" 3) false,
   .call (.recordFinal "a" ⟨some "f", "done"⟩ 4) false,
   .call (.admitRequest "b" .admitted none 5) false]

-- On a larger board "a" stays in memory, and a follow-up reopens it.
theorem reopen_takes_effect_evictedRun :
    ∃ t t₁ p, (conductorMachine 2 true).run (conductorMachine 2 true).start evictedRun = some t ∧
      t.isOpen "a" = false ∧ t.begin.call (.reopen "a") false = (.ok (.reopened (some p)), t₁) ∧
      ReopenTakesEffect (t₁.follow [.admitRequest "a" .submitting none 6]).settle "a" := by
  refine ⟨_, _, _, rfl, by decide, rfl, ?_⟩
  refine (@reopen_takes_effect_iff 2 _ _ "a" _ [.admitRequest "a" .submitting none 6]
    ⟨evictedRun ++ [.begin], rfl⟩ rfl (by decide)).mpr ?_
  exact ⟨_, rfl, by decide⟩

-- Reopened as a row, "a" stays closed although the caller is told otherwise.
theorem reopen_takes_no_effect_evictedRun :
    ∃ t t₁ p, (conductorMachine 1 true).run (conductorMachine 1 true).start evictedRun = some t ∧
      t.call (.reopen "a") false = (.ok (.reopened (some p)), t₁) ∧ p.terminalEvent = none ∧
      t₁.txn.isNone = true ∧ t₁.isOpen "a" = false ∧ ¬ReopenTakesEffect (t₁.follow []).settle "a" := by
  refine ⟨_, _, _, rfl, rfl, rfl, rfl, by decide, fun h => ?_⟩
  exact absurd h.1.1 (by decide)

end GaHub.Conductor
