import GaHub.Conductor.Tracker
import Mathlib.Logic.Relation

namespace GaHub.Conductor

open Lib

namespace Tracker

variable (t : Tracker)

-- The rollback points of the open transaction, and the rows `BEGIN` found.
def before : Dict RequestId (Option WorkflowState) := (t.txn.map Txn.before).getD .empty

def saved : Db := (t.txn.map Txn.saved).getD t.db

-- The request may be edited: its rollback point is taken, or there is no store.
def Touched (request : RequestId) : Prop :=
  t.store.isSome = true → (t.before.get? request).isSome = true

-- An operation that edits runs in a transaction, if there is a store.
def Ready : Prop := t.store.isSome = true → t.txn.isSome = true

section Fields

variable (r : RequestId) (w : WorkflowState)

@[simp] theorem hold_workflows : (t.hold r w).workflows = t.workflows.set r w := rfl
@[simp] theorem hold_owners : (t.hold r w).owners = t.owners := rfl
@[simp] theorem hold_tombstones : (t.hold r w).tombstones = t.tombstones := rfl
@[simp] theorem hold_store : (t.hold r w).store = t.store := rfl
@[simp] theorem hold_db : (t.hold r w).db = t.db := rfl
@[simp] theorem hold_rows : (t.hold r w).rows = t.rows := rfl
@[simp] theorem hold_txn : (t.hold r w).txn = t.txn := rfl
@[simp] theorem hold_before : (t.hold r w).before = t.before := rfl
@[simp] theorem hold_saved : (t.hold r w).saved = t.saved := rfl

@[simp] theorem touch_workflows : (t.touch r).workflows = t.workflows := rfl
@[simp] theorem touch_owners : (t.touch r).owners = t.owners := rfl
@[simp] theorem touch_tombstones : (t.touch r).tombstones = t.tombstones := rfl
@[simp] theorem touch_maxWorkflows : (t.touch r).maxWorkflows = t.maxWorkflows := rfl

@[simp] theorem touch_store_isSome : (t.touch r).store.isSome = t.store.isSome := by
  simp [touch]

@[simp] theorem touch_db : (t.touch r).db = t.db := by
  unfold touch db
  cases t.store <;> rfl

@[simp] theorem touch_rows : (t.touch r).rows = t.rows := congrArg Db.workflows (t.touch_db r)

theorem touch_txn : (t.touch r).txn = t.txn.map fun x =>
    if (x.before.get? r).isSome then x
    else { x with before := x.before.set r (t.workflows.get? r) } := by
  unfold touch txn
  cases t.store <;> rfl

@[simp] theorem touch_txn_isSome : (t.touch r).txn.isSome = t.txn.isSome := by
  simp [touch_txn]

@[simp] theorem touch_saved : (t.touch r).saved = t.saved := by
  unfold saved
  rw [touch_txn, touch_db]
  cases t.txn with
  | none => rfl
  | some x =>
      simp only [Option.map_some, Option.getD_some]
      split <;> rfl

theorem touch_before (q : RequestId) : (t.touch r).before.get? q =
    if q = r ∧ t.before.get? r = none ∧ t.txn.isSome then some (t.workflows.get? r)
    else t.before.get? q := by
  unfold before
  rw [touch_txn]
  cases t.txn with
  | none => simp
  | some x =>
      simp only [Option.map_some, Option.getD_some, Option.isSome_some, and_true]
      by_cases hq : q = r
      · subst hq
        cases hb : x.before.get? q with
        | none => simp
        | some p => simp [hb]
      · simp only [hq, false_and, if_false]
        split
        · rfl
        · exact Dict.get?_set_ne _ _ hq

theorem touched_touch (h : t.Ready) : (t.touch r).Touched r := by
  intro hs
  rw [touch_store_isSome] at hs
  rw [touch_before]
  have ht := h hs
  cases hb : t.before.get? r <;> simp [ht]

end Fields

theorem find_of_held {t : Tracker} {r : RequestId} {w : WorkflowState}
    (h : t.workflows.get? r = some w) : t.find r = some w := by
  simp [find, h]

theorem find_of_row {t : Tracker} {r : RequestId} {row : Row} (h : t.workflows.get? r = none)
    (hrow : t.rows.get? r = some row) : t.find r = some (.decodeState row) := by
  simp [find, h, hrow]

theorem find_eq_none {t : Tracker} {r : RequestId} :
    t.find r = none ↔ t.workflows.get? r = none ∧ t.rows.get? r = none := by
  simp [find]

theorem find_congr {t t' : Tracker} (hw : t'.workflows = t.workflows) (hr : t'.rows = t.rows)
    (r : RequestId) : t'.find r = t.find r := by
  simp [find, hw, hr]

end Tracker

inductive Change : Op → WorkflowState → WorkflowState → Prop where
  | titled {r : RequestId} {title : String} {w : WorkflowState} :
      Change (.setTitle r title) w (w.setTitle title)
  | confirmed {r : RequestId} {bootId : Option String} {now : Time} {w : WorkflowState} :
      Change (.confirmAdmission r bootId now) w (w.confirmAdmission bootId)
  | reopened {r : RequestId} {w : WorkflowState} (hterm : w.terminalEvent.isSome = true) :
      Change (.reopen r) w w.reopen
  | bound {r : RequestId} {a : AgentId} {g : Int} {now : Time} {w w' : WorkflowState}
      (hopen : w.terminalEvent = none)
      (hw : w' = ((w.bindWorker a g).completeIfReady now).getD (w.bindWorker a g)) :
      Change (.bindSubagent r a g now) w w'
  | observed {a : AgentId} {ev : WorkerEvent} {g : Option Int} {request : Option RequestId}
      {error : String} {now : Time} {w noted : WorkflowState} (hopen : w.terminalEvent = none)
      (hnote : w.noteWorker a g = some noted) :
      Change (.recordSubagentEvent a ev g request error now) w (noted.applyEvent a ev error now).1
  -- an event without a request reaches a closed workflow through the index
  | disturbed {a : AgentId} {ev : WorkerEvent} {g : Option Int} {error : String} {now : Time}
      {w noted : WorkflowState} (hterm : w.terminalEvent.isSome = true)
      (hnote : w.noteWorker a g = some noted) :
      Change (.recordSubagentEvent a ev g none error now) w noted
  | final {r : RequestId} {item : Item} {now : Time} {w w' : WorkflowState}
      (hready : w.assertReadyForFinal = .ok ())
      (hw : w' = ({ w with finalItem := some item }.completeIfReady now).getD
        { w with finalItem := some item }) :
      Change (.recordFinal r item now) w w'
  | failed {r : RequestId} {phase error : String} {now : Time} {w : WorkflowState}
      (hopen : w.terminalEvent = none) :
      Change (.failSupervisor r phase error now) w (w.failSupervisor phase error now)
  | abandoned {reason : String} {now : Time} {w : WorkflowState} (hstranded : w.stranded = true) :
      Change (.abandonStranded reason now) w (w.failSupervisor "stopped_by_user" reason now)

-- The edits of an operation after its request, if any, is in memory.
inductive Edit (op : Op) (t : Tracker) : Tracker → Prop where
  | touched {r : RequestId} {w : WorkflowState} (hheld : t.workflows.get? r = some w) :
      Edit op t (t.touch r)
  | changed {r : RequestId} {w w' : WorkflowState} (hheld : t.workflows.get? r = some w)
      (htouched : t.Touched r) (hchange : Change op w w') : Edit op t (t.hold r w')
  | owned {a : AgentId} {r : RequestId} : Edit op t { t with owners := t.owners.set a r }
  | pruned (hstore : t.store = none) : Edit op t t.prune

def Op.loads : Op → Option RequestId
  | .setTitle request _ | .admitRequest request .. | .confirmAdmission request .. | .bindSubagent request ..
  | .recordSubagentEvent _ _ _ (some request) .. | .recordFinal request .. | .assertReadyForFinal request =>
      some request
  | _ => none

def Op.admits : Op → Option RequestId
  | .admitRequest request .. | .confirmAdmission request .. => some request
  | _ => none

inductive Arrival (op : Op) (t : Tracker) : Tracker → Prop where
  | stayed (hload : ∀ r, op.loads = some r → t.find r = none ∨ r ∈ t.tombstones)
      (hreopen : ∀ r, op = .reopen r → r ∈ t.tombstones)
      (hforget : ∀ r allow, op = .forgetWorkflow r allow → ∃ w, t.find r = some w ∧
        w.terminalEvent = none ∧ allow = false) : Arrival op t t
  | held {r : RequestId} {w : WorkflowState} (hop : op.loads = some r ∨ op = .reopen r)
      (hheld : t.workflows.get? r = some w) : Arrival op t (t.touch r)
  | loaded {r : RequestId} {row : Row} (hop : op.loads = some r)
      (hnone : t.workflows.get? r = none) (hrow : t.rows.get? r = some row) :
      Arrival op t ((t.hold r (.decodeState row)).touch r)
  | created {r : RequestId} {w : WorkflowState} (hop : op.admits = some r)
      (hnone : t.find r = none) (hburied : r ∉ t.tombstones) (hid : w.requestId = r)
      (hopen : w.terminalEvent = none) (hitem : w.finalItem = none) (hworkers : w.workers = .empty) :
      Arrival op t ((t.touch r).hold r w)
  | probed {r : RequestId} (hop : op = .reopen r) (hnone : t.workflows.get? r = none)
      (hburied : r ∉ t.tombstones) : Arrival op t (t.touch r)
  | forgotten {r : RequestId} {allow : Bool} (hop : op = .forgetWorkflow r allow)
      (hok : ∀ w, t.find r = some w → w.terminalEvent = none → allow = true) :
      Arrival op t (t.forgetWorkflow r true).2

theorem loads_of_admits {op : Op} {r : RequestId} (h : op.admits = some r) : op.loads = some r := by
  cases op <;> cases h <;> rfl

-- What an operation of the tracker does, as an arrival and a run of edits.
def Edits (op : Op) (t t' : Tracker) : Prop :=
  ∃ t₁, Arrival op t t₁ ∧ Relation.ReflTransGen (Edit op) t₁ t'

section Workflows

variable {w w' : WorkflowState} {now : Time}

theorem completeIfReady_some (h : w.completeIfReady now = some w') :
    w.terminalEvent = none ∧ w.finalItem.isSome = true ∧ w.closed = true ∧
      (w.workers.values ≠ [] → w.someAccepted = true) ∧
      w' = { w with
        state := .completed
        completedAt := some now
        terminalEvent := some .workflowCompleted } := by
  unfold WorkflowState.completeIfReady at h
  split at h
  · cases h
  · rename_i hopen
    split at h
    · cases h
    · rename_i hclosed
      split at h
      · cases h
      · rename_i haccepted
        cases h
        simp only [not_or, Option.isSome_iff_ne_none, ne_eq, not_not, Option.isNone_iff_eq_none] at hopen
        refine ⟨hopen.1, Option.isSome_iff_ne_none.mpr hopen.2, ?_, fun hne => ?_, rfl⟩
        · cases hv : w.workers.values with
          | nil => simp [WorkflowState.closed, hv]
          | cons v vs => simpa [hv] using hclosed
        · simpa [hne] using haccepted

theorem assertReadyForFinal_ok (h : w.assertReadyForFinal = .ok ()) :
    w.terminalEvent = none ∧ w.closed = true ∧ (w.workers.values ≠ [] → w.someAccepted = true) := by
  unfold WorkflowState.assertReadyForFinal at h
  split at h
  · cases h
  · rename_i hopen
    refine ⟨by simpa using hopen, ?_⟩
    split at h
    · rename_i hempty
      have hnil : w.workers.values = [] := by simpa using hempty
      exact ⟨by simp [WorkflowState.closed, hnil], fun hne => absurd hnil hne⟩
    · dsimp only at h
      split at h
      · cases h
      · rename_i hclosed
        split at h
        · cases h
        · rename_i haccepted
          refine ⟨?_, fun _ => by simpa using haccepted⟩
          rw [Bool.not_eq_true, Bool.not_eq_false', List.isEmpty_iff, List.filter_eq_nil_iff] at hclosed
          refine List.all_eq_true.mpr fun worker hworker => ?_
          obtain ⟨e, he, rfl⟩ := List.mem_map.mp hworker
          simpa using hclosed e he

theorem completeIfReady_requestId (w : WorkflowState) (now : Time) :
    ((w.completeIfReady now).getD w).requestId = w.requestId := by
  cases h : w.completeIfReady now with
  | none => rfl
  | some w' =>
      obtain ⟨_, _, _, _, rfl⟩ := completeIfReady_some h
      rfl

theorem bindWorker_eq (w : WorkflowState) (a : AgentId) (g : Int) :
    ∃ workers state, w.bindWorker a g = { w with workers, state } := by
  unfold WorkflowState.bindWorker
  split
  · exact ⟨_, _, rfl⟩
  · split
    · exact ⟨_, _, rfl⟩
    · split <;> exact ⟨_, _, rfl⟩

theorem noteWorker_eq {noted : WorkflowState} {a : AgentId} {g : Option Int}
    (h : w.noteWorker a g = some noted) : ∃ workers, noted = { w with workers } := by
  unfold WorkflowState.noteWorker at h
  split at h
  · cases h
    exact ⟨_, rfl⟩
  · split at h
    · cases h
      exact ⟨_, rfl⟩
    · split at h
      · cases h
      · split at h <;> cases h <;> exact ⟨_, rfl⟩

theorem setWorker_eq (w : WorkflowState) (a : AgentId) (status : WorkerStatus) :
    ∃ workers, w.setWorker a status = { w with workers } := by
  unfold WorkflowState.setWorker
  split <;> exact ⟨_, rfl⟩

theorem observe_requestId (w : WorkflowState) (a : AgentId) (ev : WorkerEvent) (error : String)
    (now : Time) : (w.observe a ev error now).1.requestId = w.requestId := by
  have hset : ∀ status, (w.setWorker a status).requestId = w.requestId := fun status => by
    obtain ⟨workers, heq⟩ := setWorker_eq w a status
    rw [heq]
  cases ev <;> first | rfl | exact hset _

theorem applyEvent_eq (w : WorkflowState) (a : AgentId) (ev : WorkerEvent) (error : String) (now : Time) :
    (w.applyEvent a ev error now).1 = (w.observe a ev error now).1 ∨
      (w.observe a ev error now).1.completeIfReady now = some (w.applyEvent a ev error now).1 := by
  unfold WorkflowState.applyEvent
  rcases hobs : w.observe a ev error now with ⟨observed, transition⟩
  cases transition with
  | some transition => exact Or.inl rfl
  | none =>
      dsimp only
      cases hc : observed.completeIfReady now with
      | none => exact Or.inl rfl
      | some completed => exact Or.inr rfl

theorem applyEvent_requestId (w : WorkflowState) (a : AgentId) (ev : WorkerEvent) (error : String)
    (now : Time) : (w.applyEvent a ev error now).1.requestId = w.requestId := by
  rcases applyEvent_eq w a ev error now with heq | hc
  · rw [heq]
    exact observe_requestId w a ev error now
  · have hid := completeIfReady_requestId (w.observe a ev error now).1 now
    rw [hc] at hid
    exact hid.trans (observe_requestId w a ev error now)

theorem change_requestId {op : Op} (h : Change op w w') : w'.requestId = w.requestId := by
  cases h with
  | titled =>
      unfold WorkflowState.setTitle
      split <;> rfl
  | confirmed | reopened _ | failed _ | abandoned _ => rfl
  | bound _ hw =>
      rw [hw, completeIfReady_requestId]
      obtain ⟨workers, state, heq⟩ := bindWorker_eq w _ _
      rw [heq]
  | observed _ hnote =>
      obtain ⟨workers, rfl⟩ := noteWorker_eq hnote
      exact applyEvent_requestId ..
  | disturbed _ hnote =>
      obtain ⟨workers, rfl⟩ := noteWorker_eq hnote
      rfl
  | final _ hw =>
      rw [hw, completeIfReady_requestId]

end Workflows

section Runs

variable {t t₁ : Tracker} {r : RequestId} {w : WorkflowState}

theorem hold_self (h : t.workflows.get? r = some w) : t.hold r w = t := by
  unfold Tracker.hold
  rw [Dict.set_of_get? h]

theorem Tracker.Ready.touch (h : t.Ready) (r : RequestId) : (t.touch r).Ready := by
  intro hs
  rw [Tracker.touch_txn_isSome]
  exact h (by simpa using hs)

theorem Tracker.Ready.hold (h : t.Ready) (r : RequestId) (w : WorkflowState) : (t.hold r w).Ready := h

theorem stayed_of_unknown {op : Op} (hop : op.loads = some r)
    (h : t.find r = none ∨ r ∈ t.tombstones) : Arrival op t t := by
  refine .stayed (fun q hq => ?_) (fun q hq => ?_) fun q allow hq => ?_
  · cases hop.symm.trans hq
    exact h
  · rw [hq] at hop
    cases hop
  · rw [hq] at hop
    cases hop

theorem require_none {op : Op} (hop : op.loads = some r) (h : t.require r = none) : Edits op t t :=
  ⟨t, stayed_of_unknown hop (Or.inl (by simpa [Tracker.require] using h)), .refl⟩

theorem arrival_of_find {op : Op} (hop : op.loads = some r) (hfind : t.find r = some w) :
    Arrival op t ((t.hold r w).touch r) := by
  cases hheld : t.workflows.get? r with
  | some v =>
      cases (Tracker.find_of_held hheld).symm.trans hfind
      rw [hold_self hheld]
      exact .held (Or.inl hop) hheld
  | none =>
      cases hrow : t.rows.get? r with
      | none =>
          rw [Tracker.find_eq_none.mpr ⟨hheld, hrow⟩] at hfind
          cases hfind
      | some row =>
          cases (Tracker.find_of_row hheld hrow).symm.trans hfind
          exact .loaded hop hheld hrow

theorem require_some (op : Op) (hop : op.loads = some r) (h : t.require r = some (w, t₁)) :
    Arrival op t t₁ ∧ t₁.workflows.get? r = some w ∧ (t.Ready → t₁.Touched r) := by
  obtain ⟨w', hfind, heq⟩ := Option.map_eq_some_iff.mp h
  cases heq
  exact ⟨arrival_of_find hop hfind, Dict.get?_set_self .., fun hready => Tracker.touched_touch _ r hready⟩

theorem changed_edits {op : Op} {w' : WorkflowState} (harr : Arrival op t t₁)
    (hheld : t₁.workflows.get? r = some w) (htouched : t₁.Touched r) (hchange : Change op w w') :
    Edits op t (t₁.hold r w') :=
  ⟨t₁, harr, .single (.changed hheld htouched hchange)⟩

theorem setTitle_edits {title : String} (hready : t.Ready) :
    Edits (.setTitle r title) t (t.setTitle r title).2 := by
  unfold Tracker.setTitle
  split
  · exact require_none rfl ‹_›
  · rename_i hsome
    obtain ⟨harr, hheld, htouched⟩ := require_some (.setTitle r title) rfl hsome
    exact changed_edits harr hheld (htouched hready) .titled

theorem assertReadyForFinal_arrival :
    Arrival (.assertReadyForFinal r) t (t.assertReadyForFinal r).2 := by
  unfold Tracker.assertReadyForFinal
  split
  · rename_i hnone
    exact stayed_of_unknown rfl (Or.inl (by simpa [Tracker.require] using hnone))
  · rename_i hsome
    obtain ⟨harr, _⟩ := require_some (.assertReadyForFinal r) rfl hsome
    split <;> exact harr

theorem pruneTerminal_edits (op : Op) (t : Tracker) :
    Relation.ReflTransGen (Edit op) t t.pruneTerminal := by
  unfold Tracker.pruneTerminal
  split
  · exact .refl
  · rename_i hnone
    exact .single (.pruned (by simpa using hnone))

theorem admitRequest_edits {op : Op} (hop : op.admits = some r) (admissionState : AdmissionState)
    (bootId : Option String) (now : Time) : Edits op t (t.admitRequest r admissionState bootId now) := by
  unfold Tracker.admitRequest
  split
  · exact ⟨t, stayed_of_unknown (loads_of_admits hop) (Or.inr ‹_›), .refl⟩
  · rename_i hburied
    split
    · exact ⟨_, arrival_of_find (loads_of_admits hop) ‹_›, pruneTerminal_edits op _⟩
    · exact ⟨_, .created hop ‹_› hburied rfl rfl rfl rfl, pruneTerminal_edits op _⟩

theorem forgetWorkflow_edits {allow : Bool} :
    Edits (.forgetWorkflow r allow) t (t.forgetWorkflow r allow).2 := by
  by_cases hrefused : ((t.find r).any (fun w => w.terminalEvent.isNone) && !allow) = true
  · simp only [Tracker.forgetWorkflow, if_pos hrefused]
    refine ⟨t, .stayed (by simp [Op.loads]) (by simp) fun q allow' hq => ?_, .refl⟩
    cases hq
    simp only [Bool.and_eq_true, Option.any_eq_true, Option.isNone_iff_eq_none, Bool.not_eq_true'] at hrefused
    obtain ⟨⟨w, hw, hopen⟩, hallow⟩ := hrefused
    exact ⟨w, hw, hopen, hallow⟩
  · have hsame : (t.forgetWorkflow r allow).2 = (t.forgetWorkflow r true).2 := by
      simp only [Tracker.forgetWorkflow, if_neg hrefused]
      simp
    rw [hsame]
    refine ⟨_, .forgotten rfl fun w hw hopen => ?_, .refl⟩
    by_contra hallow
    exact hrefused (by simp [hw, hopen, hallow])

theorem admitRequest_held (hready : t.Ready) (hburied : r ∉ t.tombstones) {admissionState : AdmissionState}
    {bootId : Option String} {now : Time} {t₁ : Tracker}
    (ht : t₁ = t.admitRequest r admissionState bootId now) :
    t₁.Touched r ∧ ∀ w, t₁.find r = some w → t₁.workflows.get? r = some w := by
  obtain ⟨t₂, w₂, hheld, htouched, hstore, hprune⟩ : ∃ (t₂ : Tracker) (w₂ : _), t₂.workflows.get? r = some w₂ ∧
      t₂.Touched r ∧ t₂.store.isSome = t.store.isSome ∧ t₁ = t₂.pruneTerminal := by
    rw [ht, Tracker.admitRequest, if_neg hburied]
    split
    · rename_i w hfind
      exact ⟨(t.hold r w).touch r, w, Dict.get?_set_self .., Tracker.touched_touch _ r hready,
        by simp, rfl⟩
    · exact ⟨(t.touch r).hold r _, _, Dict.get?_set_self .., Tracker.touched_touch t r hready,
        by simp, rfl⟩
  cases hs : t.store.isSome with
  | true =>
      rw [hs] at hstore
      rw [hprune, Tracker.pruneTerminal, if_pos hstore]
      refine ⟨htouched, fun w hw => ?_⟩
      rw [Tracker.find_of_held hheld] at hw
      exact hheld.trans hw
  | false =>
      rw [hs] at hstore
      have hnone : t₂.store = none := by simpa using hstore
      rw [hprune, Tracker.pruneTerminal, if_neg (by simp [hnone])]
      refine ⟨fun hsome => ?_, fun w hw => ?_⟩
      · change t₂.store.isSome = true at hsome
        rw [hnone] at hsome
        cases hsome
      · have hrows : t₂.prune.rows.get? r = none := by
          change ((t₂.store.map Store.db).getD {}).workflows.get? r = none
          rw [hnone]
          rfl
        simpa [Tracker.find, hrows] using hw

theorem confirmAdmission_edits {bootId : Option String} {now : Time} (hready : t.Ready) :
    Edits (.confirmAdmission r bootId now) t (t.confirmAdmission r bootId now).2 := by
  by_cases hburied : r ∈ t.tombstones
  · simp only [Tracker.confirmAdmission, if_pos hburied]
    exact ⟨t, stayed_of_unknown rfl (Or.inr hburied), .refl⟩
  · simp only [Tracker.confirmAdmission, if_neg hburied]
    obtain ⟨t₁, harr, hedits⟩ := @admitRequest_edits t r (.confirmAdmission r bootId now) rfl .admitted bootId now
    obtain ⟨htouched, hkept⟩ := admitRequest_held hready hburied (rfl : t.admitRequest r .admitted bootId now = _)
    split
    · exact ⟨t₁, harr, hedits⟩
    · rename_i w t₂ hsome
      obtain ⟨w', hfind, heq⟩ := Option.map_eq_some_iff.mp hsome
      cases heq
      have hheld := hkept w hfind
      refine ⟨t₁, harr, (hedits.tail (.touched hheld)).tail ?_⟩
      rw [hold_self hheld]
      refine .changed hheld (fun hs => ?_) .confirmed
      rw [Tracker.touch_before]
      have hbefore := htouched (by simpa using hs)
      split
      · rfl
      · exact hbefore

theorem reopen_edits (hready : t.Ready) : Edits (.reopen r) t (t.reopen r).2 := by
  by_cases hburied : r ∈ t.tombstones
  · simp only [Tracker.reopen, if_pos hburied]
    exact ⟨t, .stayed (by simp [Op.loads]) (fun q hq => by cases hq; exact hburied) (by simp), .refl⟩
  · simp only [Tracker.reopen, if_neg hburied]
    have harr : Arrival (.reopen r) t (t.touch r) := by
      cases hheld : t.workflows.get? r with
      | none => exact .probed rfl hheld hburied
      | some w => exact .held (Or.inr rfl) hheld
    split
    · exact ⟨_, harr, .refl⟩
    · rename_i w hfind
      split
      · exact ⟨_, harr, .refl⟩
      · rename_i hterm
        dsimp only
        split
        · rename_i hheld
          obtain ⟨v, hv⟩ := Option.isSome_iff_exists.mp hheld
          cases (Tracker.find_of_held hv).symm.trans hfind
          refine changed_edits harr hv (Tracker.touched_touch t r hready) (.reopened ?_)
          simpa [Option.isSome_iff_ne_none] using hterm
        · exact ⟨_, harr, .refl⟩

theorem bindSubagent_edits {a : AgentId} {g : Int} {now : Time} (hready : t.Ready) :
    Edits (.bindSubagent r a g now) t (t.bindSubagent r a g now).2 := by
  unfold Tracker.bindSubagent
  split
  · exact require_none rfl ‹_›
  · rename_i w t₁ hsome
    obtain ⟨harr, hheld, htouched⟩ := require_some (.bindSubagent r a g now) rfl hsome
    split
    · exact ⟨t₁, harr, .refl⟩
    · rename_i hterm
      have hopen : w.terminalEvent = none := by simpa using hterm
      have hown : Edit (.bindSubagent r a g now) t₁ { t₁ with owners := t₁.owners.set a r } := .owned
      have hchange : ∀ w', w' = ((w.bindWorker a g).completeIfReady now).getD (w.bindWorker a g) →
          Edits (.bindSubagent r a g now) t
            ({ t₁ with owners := t₁.owners.set a r }.hold r w') := fun w' hw' =>
        ⟨t₁, harr, .tail (.single hown) (.changed hheld (htouched hready) (.bound hopen hw'))⟩
      dsimp only
      split <;> rename_i hcomplete <;> exact hchange _ (by rw [hcomplete]; rfl)

theorem observe_edits {owner : RequestId} {a : AgentId} {ev : WorkerEvent} {g : Option Int}
    {request : Option RequestId} {error : String} {now : Time} (hready : t.Ready)
    (hclosed : ∀ w, t.workflows.get? owner = some w → w.terminalEvent.isSome = true → request = none) :
    Relation.ReflTransGen (Edit (.recordSubagentEvent a ev g request error now)) t
      (t.observe owner a ev g error now).2 := by
  unfold Tracker.observe
  split
  · exact .refl
  · rename_i w hheld
    dsimp only
    have htouch : Edit (.recordSubagentEvent a ev g request error now) t (t.touch owner) :=
      .touched hheld
    have htouched := Tracker.touched_touch t owner hready
    split
    · exact .single htouch
    · rename_i noted hnote
      have hterm : noted.terminalEvent = w.terminalEvent := by
        obtain ⟨workers, rfl⟩ := noteWorker_eq hnote
        rfl
      split
      · rename_i hsome
        rw [hterm] at hsome
        cases hclosed w hheld hsome
        exact .tail (.single htouch) (.changed hheld htouched (.disturbed hsome hnote))
      · rename_i hopen
        refine .tail (.single htouch) (.changed hheld htouched (.observed ?_ hnote))
        rw [← hterm]
        simpa using hopen

theorem recordSubagentEvent_edits {a : AgentId} {ev : WorkerEvent} {g : Option Int}
    {request : Option RequestId} {error : String} {now : Time} (hready : t.Ready) :
    Edits (.recordSubagentEvent a ev g request error now) t
      (t.recordSubagentEvent a ev g request error now).2 := by
  cases request with
  | none =>
      unfold Tracker.recordSubagentEvent
      refine ⟨t, .stayed (by simp [Op.loads]) (by simp) (by simp), ?_⟩
      dsimp only
      split
      · exact .refl
      · exact observe_edits hready fun _ _ _ => rfl
  | some r =>
      unfold Tracker.recordSubagentEvent
      dsimp only
      split
      · exact require_none rfl ‹_›
      · rename_i w t₁ hsome
        obtain ⟨harr, hheld, htouched⟩ :=
          require_some (.recordSubagentEvent a ev g (some r) error now) rfl hsome
        split
        · exact ⟨t₁, harr, .refl⟩
        · split
          · exact ⟨t₁, harr, .refl⟩
          · rename_i hterm
            have hready₁ : t₁.Ready := by
              obtain ⟨w', _, heq⟩ := Option.map_eq_some_iff.mp hsome
              cases heq
              exact (hready.hold r w).touch r
            refine ⟨t₁, harr, .head .owned (observe_edits hready₁ fun v hv hclosed => ?_)⟩
            cases hheld.symm.trans hv
            exact absurd hclosed hterm

theorem recordFinal_edits {item : Item} {now : Time} (hready : t.Ready) :
    Edits (.recordFinal r item now) t (t.recordFinal r item now).2 := by
  unfold Tracker.recordFinal
  split
  · exact require_none rfl ‹_›
  · rename_i w t₁ hsome
    obtain ⟨harr, hheld, htouched⟩ := require_some (.recordFinal r item now) rfl hsome
    split
    · exact ⟨t₁, harr, .refl⟩
    · split
      · exact ⟨t₁, harr, .refl⟩
      · rename_i hassert
        dsimp only
        split <;> rename_i hcomplete <;>
          exact changed_edits harr hheld (htouched hready) (.final hassert (by rw [hcomplete]; rfl))

theorem failSupervisor_edits {phase error : String} {now : Time} (hready : t.Ready) :
    Edits (.failSupervisor r phase error now) t (t.failSupervisor r phase error now).2 := by
  have hstay : Arrival (.failSupervisor r phase error now) t t :=
    .stayed (by simp [Op.loads]) (by simp) (by simp)
  unfold Tracker.failSupervisor
  split
  · exact ⟨t, hstay, .refl⟩
  · rename_i w hheld
    split
    · exact ⟨t, hstay, .refl⟩
    · rename_i hterm
      refine ⟨t, hstay, .tail (.single (.touched hheld)) ?_⟩
      exact .changed hheld (Tracker.touched_touch t r hready) (.failed (by simpa using hterm))

theorem abandon_edits {reason : String} {now : Time} (ws : List WorkflowState)
    (acc : List Transition × Tracker) (hready : acc.2.Ready) (hnodup : (ws.map (·.requestId)).Nodup)
    (hheld : ∀ w ∈ ws, acc.2.workflows.get? w.requestId = some w) :
    Relation.ReflTransGen (Edit (.abandonStranded reason now)) acc.2
      (ws.foldl (Tracker.abandon reason now) acc).2 := by
  induction ws generalizing acc with
  | nil => exact .refl
  | cons w ws ih =>
      rw [List.map_cons, List.nodup_cons] at hnodup
      have hw := hheld w (by simp)
      rw [List.foldl_cons]
      by_cases hstranded : w.stranded = true
      · simp only [Tracker.abandon, if_pos hstranded]
        have htouched := Tracker.touched_touch acc.2 w.requestId hready
        refine .head (.touched hw) (.head (.changed hw htouched (.abandoned hstranded)) ?_)
        refine ih (_, _) ((hready.touch _).hold _ _) hnodup.2 fun v hv => ?_
        refine (Dict.get?_set_ne _ _ fun heq => hnodup.1 ?_).trans (hheld v (by simp [hv]))
        exact heq ▸ List.mem_map_of_mem hv
      · simp only [Tracker.abandon, if_neg hstranded]
        exact ih acc hready hnodup.2 fun v hv => hheld v (by simp [hv])

theorem abandonStranded_edits {reason : String} {now : Time} (hready : t.Ready)
    (hnamed : ∀ r w, t.workflows.get? r = some w → w.requestId = r) :
    Edits (.abandonStranded reason now) t (t.abandonStranded reason now).2 := by
  refine ⟨t, .stayed (by simp [Op.loads]) (by simp) (by simp), ?_⟩
  have hkeys : t.workflows.values.map (·.requestId) = t.workflows.keys := by
    simp only [Dict.values, Dict.keys, List.map_map]
    refine List.map_congr_left fun e he => ?_
    exact hnamed e.1 e.2 (Dict.mem_entries_iff.mp he)
  refine abandon_edits _ ([], t) hready (hkeys ▸ t.workflows.keys_nodup) fun w hw => ?_
  obtain ⟨r, hr⟩ := Dict.mem_values_iff.mp hw
  rw [hnamed r w hr]
  exact hr

theorem run_edits {op : Op} (hop : op.onStore = false) (hready : t.Ready)
    (hnamed : ∀ r w, t.workflows.get? r = some w → w.requestId = r) : Edits op t (t.run op).2 := by
  cases op with
  | setTitle r title => exact setTitle_edits hready
  | admitRequest r admissionState bootId now => exact admitRequest_edits rfl admissionState bootId now
  | forgetWorkflow r allow => exact forgetWorkflow_edits
  | confirmAdmission r bootId now => exact confirmAdmission_edits hready
  | reopen r => exact reopen_edits hready
  | bindSubagent r a g now => exact bindSubagent_edits hready
  | recordSubagentEvent a ev g request error now => exact recordSubagentEvent_edits hready
  | recordFinal r item now => exact recordFinal_edits hready
  | assertReadyForFinal r => exact ⟨_, assertReadyForFinal_arrival, .refl⟩
  | failSupervisor r phase error now => exact failSupervisor_edits hready
  | abandonStranded reason now => exact abandonStranded_edits hready hnamed
  | store op => cases hop

end Runs

-- What leaves the workflows, their rows and their rollback points alone.
structure Aside (t t' : Tracker) : Prop where
  workflows : t'.workflows = t.workflows
  owners : t'.owners = t.owners
  tombstones : t'.tombstones = t.tombstones
  store : t'.store.isSome = t.store.isSome
  rows : t'.rows = t.rows
  buried : t'.db.tombstones = t.db.tombstones
  txn : t'.txn.isSome = t.txn.isSome
  before : t'.before = t.before
  saved : t'.saved = t.saved

theorem Aside.refl (t : Tracker) : Aside t t := ⟨rfl, rfl, rfl, rfl, rfl, rfl, rfl, rfl, rfl⟩

section Store

variable {t : Tracker} {s : Store}

theorem withDb_aside {f : Db → Db} (hs : t.store = some s) (htxn : s.txn.isSome = true)
    (hsame : (f s.db).workflows = s.db.workflows ∧ (f s.db).tombstones = s.db.tombstones) :
    Aside t (t.withDb f) := by
  obtain ⟨hrows, hburied⟩ := hsame
  obtain ⟨x, hx⟩ := Option.isSome_iff_exists.mp htxn
  refine ⟨rfl, rfl, rfl, ?_, ?_, ?_, ?_, ?_, ?_⟩
  · simp [Tracker.withDb]
  · simpa [Tracker.withDb, Tracker.rows, Tracker.db, hs] using hrows
  · simpa [Tracker.withDb, Tracker.db, hs] using hburied
  · simp [Tracker.withDb, Tracker.txn, hs]
  · simp [Tracker.withDb, Tracker.before, Tracker.txn, hs]
  · simp [Tracker.withDb, Tracker.saved, Tracker.txn, hs, hx]

theorem checkpoint_ok {db db' : Db} {epoch : Option String} {seq : Int} {bootId : Option String}
    (h : db.checkpoint epoch seq bootId = .ok db') :
    db'.workflows = db.workflows ∧ db'.tombstones = db.tombstones := by
  unfold Db.checkpoint at h
  dsimp only at h
  split at h
  · cases h
  · split at h <;> cases h
    exact ⟨rfl, rfl⟩

theorem putCommand_ok {db db' : Db} {operation : OperationId} {payload : CommandPayload} {now : Time}
    {command : Command} (h : db.putCommand operation payload now = .ok (command, db')) :
    db'.workflows = db.workflows ∧ db'.tombstones = db.tombstones := by
  unfold Db.putCommand at h
  dsimp only at h
  split at h
  · split at h <;> cases h
    exact ⟨rfl, rfl⟩
  · cases h
    exact ⟨rfl, rfl⟩

theorem updateCommand_same (db : Db) (operation : OperationId) (update : Command → Command) :
    (db.updateCommand operation update).workflows = db.workflows ∧
      (db.updateCommand operation update).tombstones = db.tombstones := by
  unfold Db.updateCommand
  split <;> exact ⟨rfl, rfl⟩

theorem defer_aside {effect : EffectId} (hs : t.store = some s) :
    Aside t (t.runStore s (.defer effect)).2 := by
  cases hx : s.txn <;> constructor <;>
    simp [Tracker.runStore, Tracker.rows, Tracker.db, Tracker.txn, Tracker.before, Tracker.saved, hs, hx]

theorem runStore_aside {op : StoreOp} (hs : t.store = some s) (htxn : s.txn.isSome = true) :
    Aside t (t.runStore s op).2 := by
  cases op with
  | checkpoint epoch seq bootId =>
      simp only [Tracker.runStore]
      split
      · exact .refl t
      · split
        · exact .refl t
        · rename_i hok
          exact withDb_aside hs htxn (f := fun _ => _) (checkpoint_ok hok)
  | putCommand operation payload now =>
      simp only [Tracker.runStore]
      split
      · exact .refl t
      · rename_i hok
        exact withDb_aside hs htxn (f := fun _ => _) (putCommand_ok hok)
  | finishCommand operation state result now =>
      cases state with
      | none => exact .refl t
      | some state =>
          exact withDb_aside hs htxn (f := fun db => db.updateCommand operation _) (updateCommand_same ..)
  | prepareCommand operation payload =>
      exact withDb_aside hs htxn (f := fun db => db.updateCommand operation _) (updateCommand_same ..)
  | saveChat item ts =>
      simp only [Tracker.runStore]
      split
      · exact .refl t
      · dsimp only
        split
        · exact .refl t
        · exact withDb_aside hs htxn ⟨rfl, rfl⟩
  | saveSubagentSnapshots items | saveActivity items =>
      simp only [Tracker.runStore]
      split
      · exact .refl t
      · exact withDb_aside hs htxn ⟨rfl, rfl⟩
  | defer effect => exact defer_aside hs

end Store

section Calls

variable {t : Tracker} {op : Op}

theorem ready_of_not_closed (h : t.closed = false) : t.Ready := by
  intro hs
  simpa [Tracker.closed, hs] using h

theorem ready_begin (t : Tracker) : t.begin.Ready := by
  intro hs
  obtain ⟨s, hs⟩ := Option.isSome_iff_exists.mp hs
  obtain ⟨s₀, hs₀, _⟩ := Option.map_eq_some_iff.mp hs
  simp [Tracker.begin, Tracker.txn, hs₀]

theorem run_idle (hclosed : t.closed = true) (hopens : op.opens t = false) :
    Aside t (t.run op).2 ∨ ∃ r, op = .assertReadyForFinal r ∧ Arrival op t (t.run op).2 := by
  obtain ⟨s, hs⟩ : ∃ s, t.store = some s := by
    simp only [Tracker.closed, Bool.and_eq_true] at hclosed
    exact Option.isSome_iff_exists.mp hclosed.1
  have htxn : s.txn = none := by
    simpa [Tracker.closed, Tracker.txn, hs] using hclosed
  cases op with
  | admitRequest r admissionState bootId now =>
      have hburied : r ∈ t.tombstones := by simpa [Op.opens] using hopens
      refine Or.inl ?_
      simpa only [Tracker.run, Tracker.admitRequest, if_pos hburied] using .refl t
  | confirmAdmission r bootId now =>
      have hburied : r ∈ t.tombstones := by simpa [Op.opens] using hopens
      refine Or.inl ?_
      simpa only [Tracker.run, Tracker.confirmAdmission, if_pos hburied] using .refl t
  | reopen r =>
      have hburied : r ∈ t.tombstones := by simpa [Op.opens] using hopens
      refine Or.inl ?_
      simpa only [Tracker.run, Tracker.reopen, if_pos hburied] using .refl t
  | assertReadyForFinal r => exact Or.inr ⟨r, rfl, assertReadyForFinal_arrival⟩
  | store op =>
      refine Or.inl ?_
      simp only [Tracker.run, hs]
      cases op with
      | checkpoint epoch seq bootId => simpa [Tracker.runStore, htxn] using .refl t
      | putCommand operation payload now | prepareCommand operation payload => cases hopens
      | finishCommand operation state result now =>
          cases state with
          | none => exact .refl t
          | some state => cases hopens
      | saveChat item ts =>
          simp only [Tracker.runStore]
          cases hid : item.id with
          | none => exact .refl t
          | some id =>
              have hempty : id = "" := by simpa [Op.opens, hid] using hopens
              simpa only [if_pos hempty] using .refl t
      | saveSubagentSnapshots items | saveActivity items =>
          simp only [Op.opens, List.any_eq_false] at hopens
          have hempty : (items.filter _).isEmpty = true :=
            List.isEmpty_iff.mpr (List.filter_eq_nil_iff.mpr hopens)
          simpa only [Tracker.runStore, if_pos hempty] using .refl t
      | defer effect => exact defer_aside hs
  | _ => cases hopens

end Calls

-- The pieces every step of the machine is made of. What is rolled back must
-- meet `ok`, which restricts the runs.
inductive Piece (ok : Tracker → Prop) (t : Tracker) : Tracker → Prop where
  | arrived {op : Op} {t' : Tracker} (hready : t.Ready ∨ ∃ r, op = .assertReadyForFinal r)
      (h : Arrival op t t') : Piece ok t t'
  | edited {op : Op} {t' : Tracker} (h : Edit op t t') : Piece ok t t'
  | aside {t' : Tracker} (h : Aside t t') : Piece ok t t'
  | begun (h : t.closed = true) : Piece ok t t.begin
  | committed (h : t.txn.isSome = true) : Piece ok t t.commit
  | rolledBack (h : t.txn.isSome = true) (hok : ok t) : Piece ok t t.rollback
  | restarted {s : Store} {active recent : List RequestId} (hs : t.store = some s)
      (horder : Tracker.LoadOrder ((s.txn.map Txn.saved).getD s.db) t.maxWorkflows active recent) :
      Piece ok t (t.restart s active recent)

structure Within (t t' : Tracker) : Prop where
  store : t'.store.isSome = t.store.isSome
  txn : t'.txn.isSome = t.txn.isSome
  saved : t.txn.isSome = true → t'.saved = t.saved

theorem Within.of_store {t t' : Tracker} (h : t'.store = t.store) : Within t t' := by
  refine ⟨by rw [h], ?_, fun _ => ?_⟩
  · unfold Tracker.txn
    rw [h]
  · unfold Tracker.saved Tracker.txn Tracker.db
    rw [h]

theorem Within.refl (t : Tracker) : Within t t := .of_store rfl

theorem Within.trans {t t₁ t₂ : Tracker} (h : Within t t₁) (h' : Within t₁ t₂) : Within t t₂ :=
  ⟨h'.store.trans h.store, h'.txn.trans h.txn,
    fun hx => (h'.saved (h.txn.trans hx)).trans (h.saved hx)⟩

theorem within_touch (t : Tracker) (r : RequestId) : Within t (t.touch r) :=
  ⟨t.touch_store_isSome r, t.touch_txn_isSome r, fun _ => t.touch_saved r⟩

theorem withDb_txn (t : Tracker) (f : Db → Db) : (t.withDb f).txn = t.txn := by
  unfold Tracker.withDb Tracker.txn
  cases t.store <;> rfl

theorem withDb_saved {t : Tracker} {f : Db → Db} (h : t.txn.isSome = true) :
    (t.withDb f).saved = t.saved := by
  obtain ⟨x, hx⟩ := Option.isSome_iff_exists.mp h
  simp [Tracker.saved, withDb_txn, hx]

theorem forgetWorkflow_eq (t : Tracker) (r : RequestId) : (t.forgetWorkflow r true).2 =
    { t.withDb (·.forgetWorkflow r) with
      tombstones := insert r t.tombstones
      workflows := t.workflows.erase r
      owners := t.owners.filter fun e => decide (e.2 ∉ [r]) } := by
  simp only [Tracker.forgetWorkflow, Bool.not_true, Bool.and_false, Bool.false_eq_true, if_false]
  rfl

theorem Arrival.within {op : Op} {t t' : Tracker} (h : Arrival op t t') : Within t t' := by
  cases h with
  | stayed _ _ _ => exact .refl t
  | held _ _ | probed _ _ _ => exact within_touch t _
  | @loaded r row _ _ _ =>
      have hhold : Within t (t.hold r (.decodeState row)) := .of_store rfl
      exact hhold.trans (within_touch _ r)
  | created _ _ _ _ _ _ _ => exact (within_touch t _).trans (.of_store rfl)
  | @forgotten r allow _ _ =>
      rw [forgetWorkflow_eq]
      have hdb : Within t (t.withDb (·.forgetWorkflow r)) :=
        ⟨by simp [Tracker.withDb], congrArg Option.isSome (withDb_txn t _), withDb_saved⟩
      exact hdb.trans (.of_store rfl)

theorem Edit.within {op : Op} {t t' : Tracker} (h : Edit op t t') : Within t t' := by
  cases h with
  | touched _ => exact within_touch t _
  | changed _ _ _ | owned | pruned _ => exact .of_store rfl

theorem Aside.within {t t' : Tracker} (h : Aside t t') : Within t t' := ⟨h.store, h.txn, fun _ => h.saved⟩

section Pieces

variable {ok : Tracker → Prop} {t t' : Tracker} {op : Op}

theorem Edits.pieces (hready : t.Ready) (h : Edits op t t') :
    Relation.ReflTransGen (Piece ok) t t' := by
  obtain ⟨t₁, harr, hedits⟩ := h
  exact .head (.arrived (Or.inl hready) harr) (hedits.lift id fun _ _ he => .edited he)

theorem Edits.within (h : Edits op t t') : Within t t' := by
  obtain ⟨t₁, harr, hedits⟩ := h
  induction hedits with
  | refl => exact harr.within
  | tail _ hedit ih => exact ih.trans hedit.within

theorem run_within (hready : t.Ready)
    (hnamed : ∀ r w, t.workflows.get? r = some w → w.requestId = r) : Within t (t.run op).2 := by
  cases hop : op.onStore with
  | false => exact (run_edits hop hready hnamed).within
  | true =>
      cases op with
      | store op =>
          simp only [Tracker.run]
          split
          · exact .refl t
          · rename_i s hs
            have htxn : s.txn.isSome = true := by simpa [Tracker.txn, hs] using hready (by simp [hs])
            exact (runStore_aside hs htxn).within
      | _ => cases hop

theorem run_pieces (hready : t.Ready)
    (hnamed : ∀ r w, t.workflows.get? r = some w → w.requestId = r) :
    Relation.ReflTransGen (Piece ok) t (t.run op).2 := by
  cases hop : op.onStore with
  | false => exact (run_edits hop hready hnamed).pieces hready
  | true =>
      cases op with
      | store op =>
          simp only [Tracker.run]
          split
          · exact .refl
          · rename_i s hs
            have htxn : s.txn.isSome = true := by simpa [Tracker.txn, hs] using hready (by simp [hs])
            exact .single (.aside (runStore_aside hs htxn))
      | _ => cases hop

theorem next_pieces {a : Action} (hnamed : ∀ r w, t.workflows.get? r = some w → w.requestId = r)
    (hok : ∀ t₁, t.undone a = some t₁ → ok t₁) (h : t.next a = some t') :
    Relation.ReflTransGen (Piece ok) t t' := by
  cases a with
  | begin =>
      simp only [Tracker.next] at h
      split at h <;> cases h
      exact .single (.begun ‹_›)
  | commit =>
      simp only [Tracker.next] at h
      split at h <;> cases h
      exact .single (.committed ‹_›)
  | rollback =>
      simp only [Tracker.next] at h
      split at h <;> cases h
      exact .single (.rolledBack ‹_› (hok t rfl))
  | restart active recent =>
      simp only [Tracker.next] at h
      split at h
      · cases h
      · split at h <;> cases h
        exact .single (.restarted ‹_› ‹_›)
  | call op fault =>
      simp only [Tracker.next] at h
      split at h
      · cases h
      · cases h
        by_cases hopens : (t.closed && op.opens t) = true
        · -- begin, the body, then commit or rollback
          have hclosed : t.closed = true := (Bool.and_eq_true_iff.mp hopens).1
          have hbody : Relation.ReflTransGen (Piece ok) t (t.begin.run op).2 :=
            .head (.begun hclosed) (run_pieces (ready_begin t) hnamed)
          have hopen : (t.begin.run op).2.txn.isSome = true := by
            rw [(run_within (ready_begin t) hnamed).txn]
            obtain ⟨s, hs⟩ := Option.isSome_iff_exists.mp (Bool.and_eq_true_iff.mp hclosed).1
            simp [Tracker.begin, Tracker.txn, hs]
          have hundone := hok
          simp only [Tracker.undone, if_pos hopens] at hundone
          simp only [Tracker.call, if_pos hopens]
          cases hrun : t.begin.run op with
          | mk reply t₁ =>
              rw [hrun] at hbody hopen hundone
              cases reply with
              | error e => exact hbody.tail (.rolledBack hopen (hundone t₁ rfl))
              | ok reply =>
                  cases fault with
                  | true => exact hbody.tail (.rolledBack hopen (hundone t₁ rfl))
                  | false => exact hbody.tail (.committed hopen)
        · simp only [Tracker.call, if_neg hopens]
          cases hclosed : t.closed with
          | false => exact run_pieces (ready_of_not_closed hclosed) hnamed
          | true =>
              have hidle : op.opens t = false := by simpa [hclosed] using hopens
              rcases run_idle hclosed hidle with haside | ⟨r, hr, harr⟩
              · exact .single (.aside haside)
              · exact .single (.arrived (Or.inr ⟨r, hr⟩) harr)

end Pieces

end GaHub.Conductor
