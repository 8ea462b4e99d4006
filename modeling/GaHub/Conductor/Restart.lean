import GaHub.Conductor.Owners

namespace GaHub.Conductor

open Lib

-- The order in which a restart puts the workflows into memory.
def loadOrder (active recent : List RequestId) : List RequestId :=
  active ++ recent.filter fun r => decide (r ∉ active)

-- What the first `prune_terminal` drops again.
def Tracker.trimmed (t : Tracker) (active recent : List RequestId) : List RequestId :=
  pruned (restoreState t.db (active ++ recent)) t.maxWorkflows

-- Where the rebuilt index sends an agent: to the last workflow read that lists
-- it, or, if that one is trimmed or has no name, to the last row inserted.
inductive Tracker.RestartOwner (t : Tracker) (active recent : List RequestId) (a : AgentId)
    (r : RequestId) : Prop where
  | last (h : lastLister t.db (loadOrder active recent) a = some r) (hname : r ≠ "")
  | row (hgone : ∀ q, lastLister t.db (loadOrder active recent) a = some q →
      q = "" ∨ q ∈ t.trimmed active recent) (h : t.db.workerOwner a = some r)

def OwnersSurvive (t t' : Tracker) : Prop :=
  ∀ a r w, t.requestForSubagent a = some r → t.find r = some w → w.terminalEvent = none →
    t'.requestForSubagent a = some r

section Restart

variable {t : Tracker} {s : Store} {active recent : List RequestId}

theorem restoreState_concat {db : Db} (henc : ∀ r row, db.workflows.get? r = some row → row.Encodes r)
    (order : List RequestId) {r : RequestId} {row : Row} (hrow : db.workflows.get? r = some row) :
    Tracker.restoreState db (order ++ [r]) =
      (Tracker.restoreState db order).set r (.decodeState row) := by
  have hid : row.requestId = r := (henc r row hrow).decode.1
  simp [Tracker.restoreState, List.filterMap_append, hrow, hid]

theorem restoreState_keys {db : Db} (henc : ∀ r row, db.workflows.get? r = some row → row.Encodes r)
    {first : List RequestId} (hkeys : (Tracker.restoreState db first).keys = first)
    (order : List RequestId) (hnd : order.Nodup) (horder : ∀ r ∈ order, r ∈ db.workflows.keys) :
    (Tracker.restoreState db (first ++ order)).keys = loadOrder first order := by
  induction order using List.reverseRecOn with
  | nil => simpa [loadOrder] using hkeys
  | append_singleton order r ih =>
      obtain ⟨hnd', _, hfresh⟩ := List.nodup_append.mp hnd
      have hout : r ∉ order := fun hin => hfresh r hin r (by simp) rfl
      obtain ⟨row, hrow⟩ := Dict.mem_keys_iff.mp (horder r (by simp))
      rw [← List.append_assoc, restoreState_concat henc _ hrow, Dict.keys_set,
        ih hnd' fun q hq => horder q (by simp [hq])]
      by_cases hin : r ∈ first <;> simp [loadOrder, List.filter_append, hin, hout]

theorem Tracker.LoadOrder.active_nodup {db : Db} {limit : Nat}
    (h : Tracker.LoadOrder db limit active recent) :
    active.Nodup ∧ ∀ r ∈ active, r ∈ db.workflows.keys := by
  have hsub : ∀ es : List (RequestId × Row), (es.filterMap fun e =>
      if e.2.terminalEvent.isNone then some e.1 else none).Sublist (es.map Prod.fst) := by
    intro es
    induction es with
    | nil => exact .slnil
    | cons e es ih =>
        cases hterm : e.2.terminalEvent with
        | none => simpa [List.filterMap_cons, hterm] using ih
        | some _ => simpa [List.filterMap_cons, hterm] using ih.trans (List.sublist_cons_self ..)
  exact ⟨h.active.nodup_iff.mpr (db.workflows.nodup_keys.sublist (hsub _)),
    fun r hr => (hsub _).subset (h.active.mem_iff.mp hr)⟩

theorem loaded_keys (hsync : Synced t)
    (horder : Tracker.LoadOrder t.db t.maxWorkflows active recent) :
    (Tracker.restoreState t.db (active ++ recent)).keys = loadOrder active recent := by
  obtain ⟨hnd, hrows⟩ := horder.active_nodup
  have hempty : (Tracker.restoreState t.db []).keys = [] := rfl
  have hactive := restoreState_keys hsync.rows hempty active hnd hrows
  refine restoreState_keys hsync.rows ?_ recent horder.nodup fun r hr => (horder.known r hr).1
  simpa [loadOrder] using hactive

theorem restart_owner (hsync : Synced t) (hs : t.store = some s) (hx : s.txn = none)
    (horder : Tracker.LoadOrder t.db t.maxWorkflows active recent) (a : AgentId) :
    (t.restart s active recent).requestForSubagent a =
      orLastRow t.db a ((lastLister t.db (loadOrder active recent) a).filter fun q =>
        decide (q ∉ t.trimmed active recent)) := by
  have hdb : (s.txn.map Txn.saved).getD s.db = t.db := by simp [hx, Tracker.db, hs]
  have hsaved : t.saved = t.db := by rw [← restart_saved hs, hdb]
  have hheld : ∀ r w, (Tracker.restoreState t.db (active ++ recent)).get? r = some w →
      w.requestId = r ∧ t.db.workflows.get? r = some w.asdict := by
    intro r w hw
    have hload : (t.reloaded s active recent).workflows.get? r = some w := by
      simpa only [Tracker.reloaded, hdb] using hw
    simpa only [hsaved] using reloaded_held hsync hs hload
  have howners : (t.restart s active recent).owners =
      (Tracker.ownersOf (Tracker.restoreState t.db (active ++ recent))).filter fun e =>
        decide (e.2 ∉ t.trimmed active recent) := by
    simp only [restart_eq, Tracker.reloaded, hdb]
    rfl
  have hsame : (t.restart s active recent).db = t.db := hdb
  rw [requestForSubagent_eq, hsame, howners, Dict.get?_filter, ownersOf_eq_lastLister hheld,
    loaded_keys hsync horder]

theorem not_trimmed (hsync : Synced t) (hclosed : t.closed = true) {r : RequestId} {w : WorkflowState}
    (hfind : t.find r = some w) (hopen : w.terminalEvent = none) : r ∉ t.trimmed active recent := by
  intro hin
  have hload := restoreState_get? hsync.rows (active ++ recent)
  have hnamed : ∀ q v, (Tracker.restoreState t.db (active ++ recent)).get? q = some v →
      v.requestId = q := by
    intro q v hv
    rw [hload] at hv
    split at hv
    · obtain ⟨row, hrow, rfl⟩ := Option.map_eq_some_iff.mp hv
      exact (hsync.rows q row hrow).decode.1
    · cases hv
  obtain ⟨v, hv, hterm⟩ := pruned_terminal hnamed hin
  rw [hload] at hv
  split at hv
  · rw [hsync.find_closed hclosed] at hfind
    cases hfind.symm.trans hv
    rw [hopen] at hterm
    cases hterm
  · cases hv

theorem orLastRow_filter_iff {db : Db} {a : AgentId} {r : RequestId} {gone : List RequestId}
    (hr : r ∉ gone) (owner : Option RequestId) :
    orLastRow db a (owner.filter fun q => decide (q ∉ gone)) = some r ↔
      owner = some r ∧ r ≠ "" ∨
        (∀ q, owner = some q → q = "" ∨ q ∈ gone) ∧ db.workerOwner a = some r := by
  cases owner with
  | none => simp [orLastRow]
  | some q =>
      by_cases hq : q ∈ gone
      · have hne : q ≠ r := fun heq => hr (heq ▸ hq)
        have hdrop : (some q).filter (fun q => decide (q ∉ gone)) = none := by simp [hq]
        rw [hdrop]
        simp [orLastRow, hq, hne]
      · have hkeep : (some q).filter (fun q => decide (q ∉ gone)) = some q := by simp [hq]
        rw [hkeep]
        by_cases hname : q = ""
        · subst hname
          simp only [orLastRow, if_true, Option.some.injEq, forall_eq', true_or, true_and]
          exact ⟨Or.inr, fun hor => hor.resolve_left fun hempty => hempty.2 hempty.1.symm⟩
        · simp only [orLastRow, hname, if_false, Option.some.injEq, forall_eq', hq, or_self,
            false_and, or_false]
          exact ⟨fun heq => ⟨heq, heq ▸ hname⟩, fun heq => heq.1⟩

end Restart

-- A restart keeps every live workflow's agents exactly when the order of
-- reading puts no other workflow that lists them in its place.
theorem owners_survive_restart_iff {maxWorkflows : Nat} {t t' : Tracker} {active recent : List RequestId}
    (h : (committingMachine maxWorkflows).Reachable t) (hclosed : t.closed = true)
    (hstep : t.next (.restart active recent) = some t') :
    OwnersSurvive t t' ↔ ∀ a r w, t.requestForSubagent a = some r → t.find r = some w →
      w.terminalEvent = none → t.RestartOwner active recent a r := by
  have hsync := (committing_invariant h).1
  obtain ⟨s, hs, hx⟩ := closed_store hclosed
  have hdb : (s.txn.map Txn.saved).getD s.db = t.db := by simp [hx, Tracker.db, hs]
  simp only [Tracker.next, hs, hdb] at hstep
  split at hstep
  · rename_i horder
    cases hstep
    have hiff : ∀ a r w, t.find r = some w → w.terminalEvent = none →
        ((t.restart s active recent).requestForSubagent a = some r ↔
          t.RestartOwner active recent a r) := by
      intro a r w hfind hopen
      rw [restart_owner hsync hs hx horder, orLastRow_filter_iff (not_trimmed hsync hclosed hfind hopen)]
      constructor
      · rintro (⟨hlast, hname⟩ | ⟨hgone, hrow⟩)
        · exact .last hlast hname
        · exact .row hgone hrow
      · rintro (⟨hlast, hname⟩ | ⟨hgone, hrow⟩)
        · exact Or.inl ⟨hlast, hname⟩
        · exact Or.inr ⟨hgone, hrow⟩
    constructor
    · intro hsurvive a r w howner hfind hopen
      exact (hiff a r w hfind hopen).mp (hsurvive a r w howner hfind hopen)
    · intro hall a r w howner hfind hopen
      exact (hiff a r w hfind hopen).mpr (hall a r w howner hfind hopen)
  · cases hstep

def apartRun : List Action :=
  [.call (.admitRequest "a" .admitted none 1) false, .call (.bindSubagent "a" "y" 1 2) false,
   .call (.failSupervisor "a" "supervise" "lost" 3) false,
   .call (.admitRequest "b" .admitted none 4) false, .call (.bindSubagent "b" "x" 1 5) false]

theorem owners_survive_restart_apartRun :
    ∃ t t', (committingMachine 3).run (committingMachine 3).start apartRun = some t ∧
      t.next (.restart ["b"] ["b", "a"]) = some t' ∧ t.requestForSubagent "x" = some "b" ∧
      t.isOpen "b" = true ∧ OwnersSurvive t t' := by
  refine ⟨_, _, rfl, rfl, by decide, by decide, ?_⟩
  refine (@owners_survive_restart_iff 3 _ _ ["b"] ["b", "a"] ⟨apartRun, rfl⟩ rfl rfl).mpr ?_
  intro a r w howner hfind hopen
  have ha : a ∈ ["x", "y"] := agent_of_owned _ (by decide) (by decide) howner
  simp only [List.mem_cons, List.not_mem_nil, or_false] at ha
  rcases ha with rfl | rfl
  · cases howner
    exact .last (by decide) (by decide)
  · cases howner
    cases hfind
    cases hopen

def reusedRun : List Action :=
  [.call (.admitRequest "a" .admitted none 1) false, .call (.bindSubagent "a" "x" 1 2) false,
   .call (.recordSubagentEvent "x" .accepted (some 1) none "" 3) false,
   .call (.recordFinal "a" ⟨some "f", "done"⟩ 4) false, .call (.admitRequest "b" .admitted none 5) false,
   .call (.recordSubagentEvent "x" .started (some 2) (some "b") "" 6) false]

theorem owners_not_survive_reusedRun :
    ∃ t t', (committingMachine 3).run (committingMachine 3).start reusedRun = some t ∧
      t.closed = true ∧ t.next (.restart ["b"] ["b", "a"]) = some t' ∧
      t.requestForSubagent "x" = some "b" ∧ t.isOpen "b" = true ∧
      t'.requestForSubagent "x" = some "a" ∧ ¬OwnersSurvive t t' := by
  refine ⟨_, _, rfl, rfl, rfl, by decide, by decide, by decide, fun h => ?_⟩
  exact absurd (h "x" "b" _ rfl rfl rfl) (by decide)

end GaHub.Conductor
