import GaHub.Conductor.Calls

namespace GaHub.Conductor

open Lib

structure Outcome where
  state : WorkflowStatus
  workers : Dict AgentId WorkerState
  finalItem : Option Item
  completedAt : Option Time
  terminalEvent : Option TerminalEvent
  phase : Option String
  error : Option String
  deriving DecidableEq

def WorkflowState.outcome (w : WorkflowState) : Outcome where
  state := w.state
  workers := w.workers
  finalItem := w.finalItem
  completedAt := w.completedAt
  terminalEvent := w.terminalEvent
  phase := w.phase
  error := w.error

-- A closed workflow keeps its outcome. Without a store it may be trimmed.
def Frozen (t t' : Tracker) : Prop :=
  ∀ r w, t.find r = some w → w.terminalEvent.isSome = true →
    (∀ w', t'.find r = some w' → w'.outcome = w.outcome) ∧
      (t.store.isSome = true → (t'.find r).isSome = true)

def Op.unseals : Op → Bool
  | .reopen _ | .forgetWorkflow .. => true
  | _ => false

-- The worker is new to the workflow, or the event opens a new generation of it.
def WorkflowState.renews (w : WorkflowState) (agent : AgentId) (generation : Option Int) : Bool :=
  match w.workers.get? agent with
  | none => true
  | some worker => generation.any fun g => decide (worker.generation < g)

-- An event without a request whose owner is in memory, closed, and does not know
-- the worker in that generation.
def Tracker.disturbs (t : Tracker) : Op → Bool
  | .recordSubagentEvent agent _ generation none _ _ =>
      (t.requestForSubagent agent).any fun owner => (t.workflows.get? owner).any fun w =>
        w.terminalEvent.isSome && w.renews agent generation
  | _ => false

section Frozen

variable {t u : Tracker} {op : Op} {r : RequestId} {w w' noted : WorkflowState}

theorem change_outcome (h : Change op w w') (hterm : w.terminalEvent.isSome = true)
    (hop : op.unseals = false) (hnamed : ∀ a ev g error now, op ≠ .recordSubagentEvent a ev g none error now) :
    w'.outcome = w.outcome := by
  have hclosed : w.terminalEvent ≠ none := Option.isSome_iff_ne_none.mp hterm
  cases h with
  | titled =>
      unfold WorkflowState.setTitle
      split <;> rfl
  | confirmed => rfl
  | reopened _ => cases hop
  | bound hopen _ | observed hopen _ | failed hopen => exact absurd hopen hclosed
  | disturbed _ _ => exact absurd rfl (hnamed _ _ _ _ _)
  | final hready _ => exact absurd (assertReadyForFinal_ok hready).1 hclosed
  | abandoned hstranded =>
      simp only [WorkflowState.stranded, Bool.and_eq_true, Option.isNone_iff_eq_none] at hstranded
      exact absurd hstranded.1.1 hclosed

-- What is found of a closed workflow in the middle of an operation.
def Kept (w : WorkflowState) (r : RequestId) (u : Tracker) : Prop :=
  u.find r = none ∧ u.store = none ∨ ∃ w', u.find r = some w' ∧ w'.outcome = w.outcome

theorem Kept.edit {u' : Tracker} (h : Kept w r u) (hterm : w.terminalEvent.isSome = true)
    (hop : op.unseals = false) (hnamed : ∀ a ev g error now, op ≠ .recordSubagentEvent a ev g none error now)
    (hedit : Edit op u u') : Kept w r u' := by
  cases hedit with
  | touched _ =>
      unfold Kept
      rw [touch_find]
      exact h.imp_left fun hnone => ⟨hnone.1, by simp [Tracker.touch, hnone.2]⟩
  | @changed q v v' hheld _ hchange =>
      unfold Kept
      rw [hold_find]
      split
      · rename_i hr
        subst hr
        have hfind := Tracker.find_of_held hheld
        obtain ⟨hnone, _⟩ | ⟨w', hw', hout⟩ := h
        · cases hnone.symm.trans hfind
        · cases hfind.symm.trans hw'
          have hterm' : v.terminalEvent.isSome = true :=
            (congrArg (fun o => o.terminalEvent.isSome) hout).trans hterm
          exact Or.inr ⟨v', rfl, (change_outcome hchange hterm' hop hnamed).trans hout⟩
      · exact h
  | owned => exact h
  | pruned hstore =>
      have hrows : u.rows.get? r = none := by simp [Tracker.rows, Tracker.db, hstore]
      have hrows' : u.prune.rows.get? r = none := hrows
      cases hheld : u.prune.workflows.get? r with
      | none => exact Or.inl ⟨Tracker.find_eq_none.mpr ⟨hheld, hrows'⟩, hstore⟩
      | some v =>
          obtain ⟨hnone, _⟩ | ⟨w', hw', hout⟩ := h
          · cases hnone.symm.trans (Tracker.find_of_held (prune_held hheld))
          · cases (Tracker.find_of_held (prune_held hheld)).symm.trans hw'
            exact Or.inr ⟨v, Tracker.find_of_held hheld, hout⟩

theorem run_kept (hready : u.Ready) (hsync : Synced u) (hfind : u.find r = some w)
    (hterm : w.terminalEvent.isSome = true) (hop : op.unseals = false)
    (hnamed : ∀ a ev g error now, op ≠ .recordSubagentEvent a ev g none error now) :
    Kept w r (u.run op).2 := by
  cases hstore : op.onStore with
  | false =>
      obtain ⟨u₁, harr, hedits⟩ := run_edits hstore hready hsync.named
      have hfirst : Kept w r u₁ := by
        rcases arrive_find harr r with hsame | ⟨_, hnone, _⟩ | ⟨⟨allow, rfl⟩, _⟩
        · exact Or.inr ⟨w, hsame.trans hfind, rfl⟩
        · cases hnone.symm.trans hfind
        · cases hop
      generalize (u.run op).2 = u' at hedits
      induction hedits with
      | refl => exact hfirst
      | tail _ hedit ih => exact ih.edit hterm hop hnamed hedit
  | true =>
      cases op with
      | store op =>
          simp only [Tracker.run]
          split
          · exact Or.inr ⟨w, hfind, rfl⟩
          · rename_i s hs
            have htxn : s.txn.isSome = true := by simpa [Tracker.txn, hs] using hready (by simp [hs])
            have haside : Aside u (u.runStore s op).2 := runStore_aside hs htxn
            exact Or.inr ⟨w, (Tracker.find_congr haside.workflows haside.rows r).trans hfind, rfl⟩
      | _ => cases hstore

theorem run_frozen (hready : u.Ready) (hsync : Synced u) (hop : op.unseals = false)
    (hnamed : ∀ a ev g error now, op ≠ .recordSubagentEvent a ev g none error now) :
    Frozen u (u.run op).2 := by
  intro r w hfind hterm
  obtain ⟨hnone, hstore⟩ | ⟨w', hw', hout⟩ := run_kept hready hsync hfind hterm hop hnamed
  · rw [hnone]
    refine ⟨by simp, fun hs => ?_⟩
    rw [← (run_within hready hsync.named).store, hstore] at hs
    cases hs
  · rw [hw']
    exact ⟨fun v hv => Option.some.inj hv ▸ hout, fun _ => rfl⟩

theorem noteWorker_outcome (w : WorkflowState) (a : AgentId) (g : Option Int) :
    ((w.noteWorker a g).getD w).outcome = w.outcome ↔ w.renews a g = false := by
  have hset : ∀ worker, w.workers.get? a ≠ some worker →
      { w with workers := w.workers.set a worker }.outcome ≠ w.outcome := by
    intro worker hne heq
    refine hne ?_
    rw [← show w.workers.set a worker = w.workers from congrArg Outcome.workers heq]
    exact Dict.get?_set_self ..
  unfold WorkflowState.noteWorker WorkflowState.renews
  cases hworker : w.workers.get? a with
  | none => simpa using hset _ (by rw [hworker]; simp)
  | some worker =>
      cases g with
      | none => simp
      | some g =>
          by_cases hstale : g < worker.generation
          · simp [hstale, Int.le_of_lt hstale]
          · by_cases hnew : worker.generation < g
            · have hne : worker ≠ { generation := g } := by
                rintro rfl
                exact absurd hnew (lt_irrefl _)
              simpa [hstale, hnew] using hset { generation := g } (by rw [hworker]; simpa using hne)
            · simp [hstale, hnew]

theorem observe_find {o : RequestId} {a : AgentId} {ev : WorkerEvent} {g : Option Int} {error : String}
    {now : Time} (hr : r ≠ o) : (u.observe o a ev g error now).2.find r = u.find r := by
  unfold Tracker.observe
  split
  · rfl
  · dsimp only
    split
    · exact touch_find u o r
    · split
      · rw [hold_find, if_neg hr, touch_find]
      · rw [hold_find, if_neg hr, touch_find]

theorem observe_closed {o : RequestId} {a : AgentId} {ev : WorkerEvent} {g : Option Int} {error : String}
    {now : Time} (hheld : u.workflows.get? o = some w) (hterm : w.terminalEvent.isSome = true) :
    (u.observe o a ev g error now).2.find o = some ((w.noteWorker a g).getD w) := by
  simp only [Tracker.observe, hheld]
  cases hnote : w.noteWorker a g with
  | none =>
      rw [touch_find, Tracker.find_of_held hheld]
      rfl
  | some noted =>
      have hsame : noted.terminalEvent.isSome = true := by
        obtain ⟨workers, rfl⟩ := noteWorker_eq hnote
        exact hterm
      simp only [hsame, if_true]
      rw [hold_find, if_pos rfl]
      rfl

theorem Frozen.of_find {t' : Tracker} (h : ∀ r, t'.find r = t.find r) : Frozen t t' := by
  intro r w hfind _
  rw [h, hfind]
  exact ⟨fun w' hw' => congrArg _ (Option.some.inj hw').symm, fun _ => rfl⟩

theorem event_frozen_iff (a : AgentId) (ev : WorkerEvent) (g : Option Int) (error : String) (now : Time) :
    Frozen u (u.run (.recordSubagentEvent a ev g none error now)).2 ↔
      u.disturbs (.recordSubagentEvent a ev g none error now) = false := by
  simp only [Tracker.run, Tracker.recordSubagentEvent, Tracker.disturbs]
  cases howner : u.requestForSubagent a with
  | none => simpa using Frozen.of_find fun _ => rfl
  | some o =>
      simp only [Option.any_some]
      cases hheld : u.workflows.get? o with
      | none => simpa [Tracker.observe, hheld] using Frozen.of_find fun _ => rfl
      | some v =>
          simp only [Option.any_some]
          have hother : ∀ r w, r ≠ o → u.find r = some w →
              (u.observe o a ev g error now).2.find r = some w := fun r w hr hfind =>
            (observe_find hr).trans hfind
          cases hterm : v.terminalEvent.isSome with
          | false =>
              simp only [Bool.false_and, iff_true]
              intro r w hfind hclosed
              have hr : r ≠ o := by
                rintro rfl
                cases (Tracker.find_of_held hheld).symm.trans hfind
                cases hterm.symm.trans hclosed
              rw [hother r w hr hfind]
              exact ⟨fun w' hw' => congrArg _ (Option.some.inj hw').symm, fun _ => rfl⟩
          | true =>
              have hnoted : (u.observe o a ev g error now).2.find o = some ((v.noteWorker a g).getD v) :=
                observe_closed hheld hterm
              rw [Bool.true_and, ← noteWorker_outcome]
              constructor
              · intro hfrozen
                exact (hfrozen o v (Tracker.find_of_held hheld) hterm).1 _ hnoted
              · intro hsame r w hfind _
                by_cases hr : r = o
                · subst hr
                  cases (Tracker.find_of_held hheld).symm.trans hfind
                  rw [hnoted]
                  exact ⟨fun w' hw' => Option.some.inj hw' ▸ hsame, fun _ => rfl⟩
                · rw [hother r w hr hfind]
                  exact ⟨fun w' hw' => congrArg _ (Option.some.inj hw').symm, fun _ => rfl⟩

theorem event_ok (a : AgentId) (ev : WorkerEvent) (g : Option Int) (error : String) (now : Time) :
    ∃ reply, (u.run (.recordSubagentEvent a ev g none error now)).1 = .ok reply := by
  simp only [Tracker.run, Tracker.recordSubagentEvent]
  split
  · exact ⟨_, rfl⟩
  · unfold Tracker.observe
    split
    · exact ⟨_, rfl⟩
    · dsimp only
      split
      · exact ⟨_, rfl⟩
      · split <;> exact ⟨_, rfl⟩

theorem Frozen.congr {t' u' : Tracker} (hlike : Like t u) (h : ∀ r, t'.find r = u'.find r) :
    Frozen t t' ↔ Frozen u u' := by
  unfold Frozen
  simp only [h, hlike.find, hlike.store]

theorem disturbs_like (h : Like t u) (op : Op) : u.disturbs op = t.disturbs op := by
  unfold Tracker.disturbs
  split
  · rw [h.requestForSubagent, h.workflows]
  · rfl

theorem event_call_iff (hsync : Synced t) (a : AgentId) (ev : WorkerEvent) (g : Option Int)
    (error : String) (now : Time) (fault : Bool) :
    Frozen t (t.call (.recordSubagentEvent a ev g none error now) fault).2 ↔
      ¬(t.disturbs (.recordSubagentEvent a ev g none error now) = true ∧
        (t.closed = true → fault = false)) := by
  cases hclosed : t.closed with
  | false =>
      have hcall : t.call (.recordSubagentEvent a ev g none error now) fault =
          t.run (.recordSubagentEvent a ev g none error now) := by
        simp [Tracker.call, hclosed]
      rw [hcall, event_frozen_iff]
      simp
  | true =>
      have hbegin := hsync.begin hclosed
      have hready := ready_begin t
      obtain ⟨s, hs, _⟩ := closed_store hclosed
      obtain ⟨reply, hreply⟩ := @event_ok t.begin a ev g error now
      cases hrun : t.begin.run (.recordSubagentEvent a ev g none error now) with
      | mk result u =>
          rw [hrun] at hreply
          cases hreply
          have hu : u = (t.begin.run (.recordSubagentEvent a ev g none error now)).2 := by rw [hrun]
          have hsync' : Synced u := hu ▸ run_synced hbegin hready
          have hwithin : Within t.begin u := hu ▸ run_within hready hbegin.named
          have hopen : u.txn.isSome = true := by
            rw [hwithin.txn]
            simp [Tracker.begin, Tracker.txn, hs]
          simp only [Tracker.call, hclosed, Op.opens, Bool.and_self, if_true, hrun]
          cases fault with
          | true =>
              simp only [if_true, reduceCtorEq, imp_false, not_true_eq_false, and_false, not_false_eq_true,
                iff_true]
              exact .of_find (rollback_find hsync hclosed hsync' hwithin)
          | false =>
              simp only [Bool.false_eq_true, if_false, implies_true, and_true, Bool.not_eq_true]
              rw [Frozen.congr (like_begin t) (commit_find hsync' hopen), hu, event_frozen_iff,
                disturbs_like (like_begin t)]

end Frozen

-- A closed workflow is frozen by every operation but an event that reaches it
-- through the index with a worker, or a generation, it does not know.
theorem closed_workflow_frozen_iff {maxWorkflows : Nat} {stored : Bool} {t : Tracker} {op : Op}
    {fault : Bool} (h : (conductorMachine maxWorkflows stored).Reachable t) (hop : op.unseals = false) :
    Frozen t (t.call op fault).2 ↔ ¬(t.disturbs op = true ∧ (t.closed = true → fault = false)) := by
  have hsync : Synced t :=
    (conductor_pieces (P := fun _ => True) trivial (fun _ _ _ _ _ => trivial) h).1
  by_cases hevent : ∃ a ev g error now, op = .recordSubagentEvent a ev g none error now
  · obtain ⟨a, ev, g, error, now, rfl⟩ := hevent
    exact event_call_iff hsync a ev g error now fault
  · have hnamed : ∀ a ev g error now, op ≠ .recordSubagentEvent a ev g none error now :=
      fun a ev g error now heq => hevent ⟨a, ev, g, error, now, heq⟩
    have hquiet : t.disturbs op = false := by
      unfold Tracker.disturbs
      split
      · exact absurd rfl (hnamed _ _ _ _ _)
      · rfl
    simp only [hquiet, Bool.false_eq_true, false_and, not_false_eq_true, iff_true]
    have hcourse := call_course hsync op fault
    generalize t.call op fault = result at hcourse ⊢
    cases hcourse with
    | failed hfind => exact .of_find hfind
    | idle _ hfind => exact .of_find hfind
    | ran hlike hready hsync' hfind =>
        rw [Frozen.congr hlike hfind]
        exact run_frozen hready hsync' hop hnamed

def deliveredRun : List Action :=
  [.call (.admitRequest "a" .admitted none 1) false, .call (.bindSubagent "a" "x" 1 2) false,
   .call (.recordSubagentEvent "x" .accepted (some 1) none "" 3) false,
   .call (.recordFinal "a" ⟨some "f", "done"⟩ 4) false]

theorem closed_workflow_frozen_deliveredRun :
    ∃ t, (conductorMachine 3 true).run (conductorMachine 3 true).start deliveredRun = some t ∧
      t.requestForSubagent "x" = some "a" ∧ t.isOpen "a" = false ∧
      Frozen t (t.call (.recordSubagentEvent "x" .killed (some 1) none "late" 5) false).2 := by
  refine ⟨_, rfl, by decide, by decide, ?_⟩
  exact (@closed_workflow_frozen_iff 3 true _ _ false ⟨deliveredRun, rfl⟩ rfl).mpr (by decide)

-- An event of the next generation takes the acceptance back.
theorem closed_workflow_not_frozen :
    ∃ t, (conductorMachine 3 true).run (conductorMachine 3 true).start deliveredRun = some t ∧
      (t.find "a").map (fun w => w.workers.get? "x") = some (some ⟨1, .accepted⟩) ∧
      ((t.call (.recordSubagentEvent "x" .started (some 2) none "" 5) false).2.find "a").map
        (fun w => (w.terminalEvent, w.workers.get? "x")) =
          some (some .workflowCompleted, some ⟨2, .running⟩) ∧
      ¬Frozen t (t.call (.recordSubagentEvent "x" .started (some 2) none "" 5) false).2 := by
  refine ⟨_, rfl, by decide, by decide, fun h => ?_⟩
  exact absurd ((h "a" _ rfl rfl).1 _ rfl) (by decide)

end GaHub.Conductor
