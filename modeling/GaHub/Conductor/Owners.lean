import GaHub.Conductor.Projection

namespace GaHub.Conductor

open Lib

def lastLister (db : Db) (order : List RequestId) (agent : AgentId) : Option RequestId :=
  (order.filter fun r => (db.workflows.get? r).any fun row => row.lists agent).getLast?

-- An owner as the index names it; an empty name counts as none there.
def orLastRow (db : Db) (agent : AgentId) (owner : Option RequestId) : Option RequestId :=
  match owner with
  | some r => if r = "" then db.workerOwner agent else some r
  | none => db.workerOwner agent

theorem requestForSubagent_eq (t : Tracker) (a : AgentId) :
    t.requestForSubagent a = orLastRow t.db a (t.owners.get? a) := rfl

theorem listing_pairs {agents : List AgentId} (hnd : agents.Nodup) (r : RequestId) (a : AgentId) :
    ((agents.map fun agent => (agent, r)).filter fun e => decide (e.1 = a)) =
      if a ∈ agents then [(a, r)] else [] := by
  induction agents with
  | nil => rfl
  | cons k agents ih =>
      rw [List.nodup_cons] at hnd
      by_cases hk : k = a
      · subst hk
        simp [ih hnd.2, hnd.1]
      · simp [hk, Ne.symm hk, ih hnd.2]

theorem ownersOf_get? (workflows : Dict RequestId WorkflowState) (a : AgentId) :
    (Tracker.ownersOf workflows).get? a =
      ((workflows.values.filter fun w => decide (a ∈ w.workers.keys)).getLast?).map
        WorkflowState.requestId := by
  have hflat : ∀ ws : List WorkflowState, ((ws.flatMap fun w => w.workers.keys.map fun agent =>
      (agent, w.requestId)).filter fun e => decide (e.1 = a)) =
        (ws.filter fun w => decide (a ∈ w.workers.keys)).map fun w => (a, w.requestId) := by
    intro ws
    induction ws with
    | nil => rfl
    | cons w ws ih =>
        rw [List.flatMap_cons, List.filter_append, ih, listing_pairs w.workers.keys_nodup]
        by_cases ha : a ∈ w.workers.keys <;> simp [ha]
  rw [Tracker.ownersOf, Dict.get?_ofList, hflat, List.getLast?_map, Option.map_map]
  rfl

theorem ownersOf_eq_lastLister {workflows : Dict RequestId WorkflowState} {db : Db}
    (h : ∀ r w, workflows.get? r = some w →
      w.requestId = r ∧ db.workflows.get? r = some w.asdict) (a : AgentId) :
    (Tracker.ownersOf workflows).get? a = lastLister db workflows.keys a := by
  have hvalues : (workflows.values.filter fun w => decide (a ∈ w.workers.keys)).map
      WorkflowState.requestId =
        workflows.keys.filter fun r => (db.workflows.get? r).any fun row => row.lists a := by
    unfold Dict.values Dict.keys
    rw [List.filter_map, List.map_map, List.filter_map]
    have hmem : ∀ e ∈ workflows.entries, e.2.requestId = e.1 ∧
        db.workflows.get? e.1 = some e.2.asdict := fun e he => h e.1 e.2 (Dict.mem_entries_iff.mp he)
    have hsame : workflows.entries.filter ((fun w => decide (a ∈ w.workers.keys)) ∘ Prod.snd) =
        workflows.entries.filter
          ((fun r => (db.workflows.get? r).any fun row => row.lists a) ∘ Prod.fst) := by
      refine List.filter_congr fun e he => ?_
      rw [Function.comp_apply, Function.comp_apply, (hmem e he).2]
      rfl
    rw [← hsame]
    refine List.map_congr_left fun e he => ?_
    exact (hmem e (List.mem_of_mem_filter he)).1
  rw [ownersOf_get?, ← List.getLast?_map, hvalues]
  rfl

theorem unowned {t : Tracker} {agents : List AgentId} {a : AgentId}
    (hrows : ∀ e ∈ t.db.workflows.entries, ∀ member ∈ e.2.workers, member.1 ∈ agents)
    (hindex : ∀ a ∈ t.owners.keys, a ∈ agents) (ha : a ∉ agents) :
    (∀ order, lastLister t.db order a = none) ∧ t.db.workerOwner a = none ∧ t.owners.get? a = none := by
  have hunlisted : ∀ e ∈ t.db.workflows.entries, e.2.lists a = false := by
    intro e he
    refine decide_eq_false fun hin => ha ?_
    obtain ⟨member, hm, rfl⟩ := List.mem_map.mp hin
    exact hrows e he member hm
  refine ⟨fun order => ?_, ?_, Dict.get?_eq_none_iff.mpr fun hin => ha (hindex a hin)⟩
  · rw [lastLister, List.getLast?_eq_none_iff, List.filter_eq_nil_iff]
    intro r _
    cases hrow : t.db.workflows.get? r with
    | none => simp
    | some row => simp [hunlisted (r, row) (Dict.mem_entries_iff.mpr hrow)]
  · rw [Db.workerOwner, Option.map_eq_none_iff, List.getLast?_eq_none_iff, List.filter_eq_nil_iff]
    intro e he
    simp [hunlisted e he]

theorem owners_settled {t : Tracker} {order : List RequestId} (agents : List AgentId)
    (hrows : ∀ e ∈ t.db.workflows.entries, ∀ member ∈ e.2.workers, member.1 ∈ agents)
    (hindex : ∀ a ∈ t.owners.keys, a ∈ agents)
    (hsame : ∀ a ∈ agents, orLastRow t.db a (lastLister t.db order a) = t.requestForSubagent a)
    (a : AgentId) : orLastRow t.db a (lastLister t.db order a) = t.requestForSubagent a := by
  by_cases ha : a ∈ agents
  · exact hsame a ha
  · obtain ⟨hlast, _, howner⟩ := unowned hrows hindex ha
    rw [requestForSubagent_eq, hlast, howner]

theorem agent_of_owned {t : Tracker} (agents : List AgentId)
    (hrows : ∀ e ∈ t.db.workflows.entries, ∀ member ∈ e.2.workers, member.1 ∈ agents)
    (hindex : ∀ a ∈ t.owners.keys, a ∈ agents) {a : AgentId} {r : RequestId}
    (howner : t.requestForSubagent a = some r) : a ∈ agents := by
  by_contra ha
  obtain ⟨_, hrow, hnone⟩ := unowned hrows hindex ha
  rw [requestForSubagent_eq, hnone] at howner
  cases hrow.symm.trans howner

end GaHub.Conductor
