import GaHub.Conductor.Owners
import GaHub.Conductor.Calls

namespace GaHub.Conductor

open Lib

-- The request an operation looks up, or takes a rollback point of.
def Op.names : Op → Option RequestId
  | .reopen request => some request
  | op => op.loads

def Op.buries (t : Tracker) : Op → Bool
  | .forgetWorkflow request allowActive =>
      decide (request ∉ t.tombstones) &&
        !((t.find request).any (fun w => w.terminalEvent.isNone) && !allowActive)
  | _ => false

def Tracker.exec (t : Tracker) (body : List Op) : Tracker := body.foldl (fun t op => (t.run op).2) t

def Tracker.buries (t : Tracker) : List Op → Bool
  | [] => false
  | op :: body => op.buries t || (t.run op).2.buries body

-- The request an operation reads back from the database for good: one that was
-- not in memory, unless an earlier operation of the body named it.
def Tracker.reload (t : Tracker) (seen : List RequestId) (op : Op) : List RequestId :=
  op.loads.toList.filter fun r => decide (r ∉ seen ∧ r ∉ t.workflows.keys ∧ r ∈ t.rows.keys)

def Tracker.reloads (t : Tracker) (seen : List RequestId) : List Op → List RequestId
  | [] => []
  | op :: body => t.reload seen op ++ t.reloads (op.names.toList ++ seen) body

def Tracker.ran (t : Tracker) : List EffectId := (t.store.map Store.ran).getD []

-- Where a transaction begun in `t` stands that has tombstoned nothing: `seen`
-- are the requests named so far, `out` those read back for good.
structure Mid (t : Tracker) (seen out : List RequestId) (u : Tracker) : Prop where
  inside : u.txn.isSome = true
  synced : Synced u
  buried : Buried u
  saved : u.saved = t.db
  rows : u.rows = t.rows
  tombstones : u.tombstones = t.tombstones
  ran : u.ran = t.ran
  kept : (u.workflows.keys.filter fun r => decide (u.before.get? r ≠ some none)) =
    t.workflows.keys ++ out
  unheld : ∀ r, u.before.get? r = some none → r ∉ t.workflows.keys
  fresh : ∀ r, r ∈ t.rows.keys → r ∉ t.workflows.keys →
    (r ∈ seen ↔ (u.before.get? r).isSome = true) ∧ (r ∉ seen → u.workflows.get? r = none)

section Mid

variable {t u u' : Tracker} {seen out : List RequestId} {r : RequestId} {w : WorkflowState}

theorem Mid.ready (h : Mid t seen out u) : u.Ready := fun _ => h.inside

theorem touch_ran (u : Tracker) (r : RequestId) : (u.touch r).ran = u.ran := by
  unfold Tracker.ran Tracker.touch
  cases u.store <;> rfl

theorem Mid.before_touch (h : Mid t seen out u) (r q : RequestId) : (u.touch r).before.get? q =
    if q = r ∧ u.before.get? r = none then some (u.workflows.get? r) else u.before.get? q := by
  rw [Tracker.touch_before]
  simp [h.inside]

theorem Mid.touchHeld (h : Mid t seen out u) (hheld : u.workflows.get? r = some w) :
    Mid t seen out (u.touch r) := by
  have hnone : ∀ q, (u.touch r).before.get? q = some none ↔ u.before.get? q = some none := by
    intro q
    rw [h.before_touch]
    split
    · rename_i hq
      rw [hq.1, hq.2, hheld]
      simp
    · rfl
  refine ⟨(Tracker.touch_txn_isSome u r).trans h.inside, h.synced.touch r, h.buried.touch r,
    (Tracker.touch_saved u r).trans h.saved, (Tracker.touch_rows u r).trans h.rows, h.tombstones,
    (touch_ran u r).trans h.ran, ?_, fun q hq => h.unheld q ((hnone q).mp hq), fun q hrow hq => ?_⟩
  · simp only [ne_eq, hnone]
    exact h.kept
  · obtain ⟨hiff, hmem⟩ := h.fresh q hrow hq
    refine ⟨hiff.trans ?_, hmem⟩
    rw [h.before_touch]
    split
    · rename_i hnew
      -- in memory and fresh, so it was named before and has its rollback point
      obtain ⟨rfl, hbefore⟩ := hnew
      have hseen : q ∈ seen := by
        by_contra hout
        rw [hmem hout] at hheld
        cases hheld
      rw [hiff, hbefore] at hseen
      cases hseen
    · rfl

theorem Mid.change (h : Mid t seen out u) (hheld : u.workflows.get? r = some w) {w' : WorkflowState}
    (hsynced : Synced (u.hold r w')) (hburied : Buried (u.hold r w')) : Mid t seen out (u.hold r w') := by
  refine ⟨h.inside, hsynced, hburied, h.saved, h.rows, h.tombstones, h.ran, ?_, h.unheld,
    fun q hrow hq => ?_⟩
  · rw [Tracker.hold_workflows, Dict.keys_set_of_mem _ (Dict.mem_keys_of_get? hheld)]
    exact h.kept
  · obtain ⟨hiff, hmem⟩ := h.fresh q hrow hq
    refine ⟨hiff, fun hout => ?_⟩
    have hne : q ≠ r := by
      rintro rfl
      rw [hmem hout] at hheld
      cases hheld
    rw [Tracker.hold_workflows, Dict.get?_set_ne _ _ hne]
    exact hmem hout

theorem Mid.same (h : Mid t seen out u) (hsynced : Synced u') (hburied : Buried u')
    (hw : u'.workflows = u.workflows) (htxn : u'.txn.isSome = u.txn.isSome) (hs : u'.saved = u.saved)
    (hr : u'.rows = u.rows) (ht : u'.tombstones = u.tombstones) (hran : u'.ran = u.ran)
    (hb : u'.before = u.before) : Mid t seen out u' := by
  refine ⟨htxn.trans h.inside, hsynced, hburied, hs.trans h.saved, hr.trans h.rows, ht.trans h.tombstones,
    hran.trans h.ran, ?_, ?_, ?_⟩
  · rw [hw, hb]
    exact h.kept
  · rw [hb]
    exact h.unheld
  · rw [hw, hb]
    exact h.fresh

theorem Mid.edit {op : Op} (h : Mid t seen out u) (hedit : Edit op u u') : Mid t seen out u' := by
  have hsynced := h.synced.edit hedit
  have hburied := h.buried.edit hedit
  cases hedit with
  | touched hheld => exact h.touchHeld hheld
  | changed hheld _ _ => exact h.change hheld hsynced hburied
  | owned => exact h.same hsynced hburied rfl rfl rfl rfl rfl rfl rfl
  | pruned hstore =>
      have hinside := h.inside
      simp [Tracker.txn, hstore] at hinside

theorem names_of_loads {op : Op} (h : op.loads = some r) : op.names = some r := by
  cases op <;> first | exact h | cases h

theorem loads_of_names {op : Op} (h : op.names = some r) : op.loads = some r ∨ op = .reopen r := by
  cases op <;> first | exact Or.inl h | (cases h; exact Or.inr rfl)

theorem Mid.keys_subset (h : Mid t seen out u) (hr : r ∈ t.workflows.keys) : r ∈ u.workflows.keys := by
  have hkept : r ∈ t.workflows.keys ++ out := List.mem_append_left out hr
  rw [← h.kept] at hkept
  exact List.mem_of_mem_filter hkept

theorem Mid.not_held (h : Mid t seen out u) (hnone : u.workflows.get? r = none) :
    r ∉ t.workflows.keys := fun hr => Dict.get?_eq_none_iff.mp hnone (h.keys_subset hr)

theorem Mid.see {op : Op} (h : Mid t seen out u)
    (hnamed : ∀ r, op.names = some r → r ∈ t.rows.keys → r ∉ t.workflows.keys → r ∈ seen) :
    Mid t (op.names.toList ++ seen) (out ++ t.reload seen op) u := by
  have hnothing : t.reload seen op = [] := by
    refine List.filter_eq_nil_iff.mpr fun r hr => ?_
    have hload : op.loads = some r := by simpa using hr
    simp only [decide_eq_true_eq, not_and]
    exact fun hout hmem hrow => hout (hnamed r (names_of_loads hload) hrow hmem)
  rw [hnothing, List.append_nil]
  refine ⟨h.inside, h.synced, h.buried, h.saved, h.rows, h.tombstones, h.ran, h.kept, h.unheld,
    fun q hrow hq => ?_⟩
  obtain ⟨hiff, hmem⟩ := h.fresh q hrow hq
  have hsame : q ∈ op.names.toList ++ seen ↔ q ∈ seen := by
    simp only [List.mem_append, Option.mem_toList]
    exact ⟨fun hor => hor.elim (fun hname => hnamed q hname hrow hq) id, Or.inr⟩
  rw [hsame]
  exact ⟨hiff, hmem⟩

theorem Mid.seen_of_held (h : Mid t seen out u) (hheld : u.workflows.get? r = some w)
    (hrow : r ∈ t.rows.keys) (hmem : r ∉ t.workflows.keys) : r ∈ seen := by
  by_contra hout
  rw [(h.fresh r hrow hmem).2 hout] at hheld
  cases hheld

theorem Mid.before_of_not_held (h : Mid t seen out u) (hnone : u.workflows.get? r = none) :
    u.before.get? r = none ∨ u.before.get? r = some none := by
  cases hb : u.before.get? r with
  | none => exact Or.inl rfl
  | some previous =>
      cases previous with
      | none => exact Or.inr rfl
      | some p =>
          obtain ⟨_, hsaved, ⟨_, hrow, _⟩ | ⟨⟨w, hw⟩, _⟩⟩ := h.synced.touched r p hb
          · rw [h.saved] at hsaved
            rw [h.rows] at hrow
            cases hrow.symm.trans hsaved
          · cases hnone.symm.trans hw

theorem Mid.probe (h : Mid t seen out u) (hnone : u.workflows.get? r = none) :
    Mid t (r :: seen) out (u.touch r) := by
  have hbefore : ∀ q, (u.touch r).before.get? q = if q = r then some none else u.before.get? q := by
    intro q
    rw [h.before_touch, hnone]
    by_cases hq : q = r
    · subst hq
      rcases h.before_of_not_held hnone with hb | hb <;> simp [hb]
    · simp [hq]
  refine ⟨(Tracker.touch_txn_isSome u r).trans h.inside, h.synced.touch r, h.buried.touch r,
    (Tracker.touch_saved u r).trans h.saved, (Tracker.touch_rows u r).trans h.rows, h.tombstones,
    (touch_ran u r).trans h.ran, ?_, fun q hq => ?_, fun q hrow hq => ?_⟩
  · rw [Tracker.touch_workflows, ← h.kept]
    refine List.filter_congr fun q hq => ?_
    have hne : q ≠ r := by
      rintro rfl
      exact Dict.get?_eq_none_iff.mp hnone hq
    rw [hbefore, if_neg hne]
  · rw [hbefore] at hq
    split at hq
    · rename_i heq
      exact heq ▸ h.not_held hnone
    · exact h.unheld q hq
  · obtain ⟨hiff, hmem⟩ := h.fresh q hrow hq
    rw [hbefore]
    by_cases heq : q = r
    · simp [heq]
    · simpa [heq] using ⟨hiff, hmem⟩

theorem Mid.holdNew (h : Mid t seen out u) (hnone : u.workflows.get? r = none)
    (hbefore : u.before.get? r = some none) (hseen : r ∈ t.rows.keys → r ∈ seen)
    (hsynced : Synced (u.hold r w)) (hburied : Buried (u.hold r w)) :
    Mid t seen out (u.hold r w) := by
  refine ⟨h.inside, hsynced, hburied, h.saved, h.rows, h.tombstones, h.ran, ?_, h.unheld,
    fun q hrow hq => ?_⟩
  · rw [Tracker.hold_workflows, Dict.keys_set_of_not_mem _ (Dict.get?_eq_none_iff.mp hnone),
      Tracker.hold_before, List.filter_append, h.kept]
    simp [hbefore]
  · obtain ⟨hiff, hmem⟩ := h.fresh q hrow hq
    refine ⟨hiff, fun hout => ?_⟩
    have hne : q ≠ r := by
      rintro rfl
      exact hout (hseen hrow)
    rw [Tracker.hold_workflows, Dict.get?_set_ne _ _ hne]
    exact hmem hout

theorem Mid.load (h : Mid t seen out u) {row : Row} (hnone : u.workflows.get? r = none)
    (hrow : u.rows.get? r = some row) (hout : r ∉ seen) :
    Mid t (r :: seen) (out ++ [r]) ((u.hold r (.decodeState row)).touch r) := by
  have hrow' : r ∈ t.rows.keys := h.rows ▸ Dict.mem_keys_of_get? hrow
  have hmem := h.not_held hnone
  have hfirst : u.before.get? r = none := by
    have hiff := (h.fresh r hrow' hmem).1
    simpa [hout] using hiff
  have hbefore : ∀ q, ((u.hold r (.decodeState row)).touch r).before.get? q =
      if q = r then some (some (.decodeState row)) else u.before.get? q := by
    intro q
    rw [Tracker.touch_before]
    by_cases hq : q = r <;> simp [hq, hfirst, h.inside]
  have hburied : r ∉ u.tombstones := fun hin => by
    rw [(h.buried.gone r hin).2] at hrow
    cases hrow
  refine ⟨?_, (h.synced.load hnone hrow).touch r, (h.buried.hold _ hburied).touch r, ?_, ?_, h.tombstones,
    (touch_ran _ r).trans h.ran, ?_, fun q hq => ?_, fun q hqrow hq => ?_⟩
  · rw [Tracker.touch_txn_isSome]
    exact h.inside
  · rw [Tracker.touch_saved]
    exact h.saved
  · rw [Tracker.touch_rows]
    exact h.rows
  · rw [Tracker.touch_workflows, Tracker.hold_workflows,
      Dict.keys_set_of_not_mem _ (Dict.get?_eq_none_iff.mp hnone), List.filter_append, ← List.append_assoc,
      ← h.kept]
    refine congrArg₂ (· ++ ·) (List.filter_congr fun q hq => ?_) (by simp [hbefore])
    have hne : q ≠ r := by
      rintro rfl
      exact Dict.get?_eq_none_iff.mp hnone hq
    rw [hbefore, if_neg hne]
  · rw [hbefore] at hq
    split at hq
    · cases hq
    · exact h.unheld q hq
  · obtain ⟨hiff, hfree⟩ := h.fresh q hqrow hq
    rw [hbefore, Tracker.touch_workflows, Tracker.hold_workflows, Dict.get?_set]
    by_cases heq : q = r
    · simp [heq]
    · simpa [heq] using ⟨hiff, hfree⟩

theorem Mid.reload_of_no_row {op : Op} (h : Mid t seen out u) (hload : op.loads = some r)
    (hrow : u.rows.get? r = none) : t.reload seen op = [] := by
  have hnone : r ∉ t.rows.keys := h.rows ▸ Dict.get?_eq_none_iff.mp hrow
  simp [Tracker.reload, hload, hnone]

theorem Mid.forget (h : Mid t seen out u) (hburied : r ∈ u.tombstones) :
    Mid t seen out (u.forgetWorkflow r true).2 := by
  obtain ⟨hmem, hrow⟩ := h.buried.gone r hburied
  obtain ⟨s, x, hs, hx⟩ := open_store h.inside
  have hrows : (u.forgetWorkflow r true).2.rows = u.rows := by
    rw [forgetWorkflow_eq]
    simp only [Tracker.rows, Tracker.db, hs, Option.map_some, Option.getD_some] at hrow
    simp [Tracker.rows, Tracker.db, Tracker.withDb, hs, Db.forgetWorkflow, Dict.erase_of_get?_none hrow]
  refine h.same (h.synced.forget h.ready r) (h.buried.forget h.ready r) ?_ ?_ ?_ hrows ?_ ?_
    (forget_before u r)
  · rw [forgetWorkflow_eq]
    exact Dict.erase_of_get?_none hmem
  · rw [forgetWorkflow_eq]
    exact congrArg Option.isSome (withDb_txn u (·.forgetWorkflow r))
  · exact forget_saved h.ready (by simp [hs]) r
  · rw [forget_tombstones, Finset.insert_eq_of_mem hburied]
  · rw [forgetWorkflow_eq]
    simp [Tracker.ran, Tracker.withDb, hs]

theorem Mid.arrive {op : Op} (h : Mid t seen out u) (hquiet : op.buries u = false)
    (harr : Arrival op u u') : Mid t (op.names.toList ++ seen) (out ++ t.reload seen op) u' := by
  have hready : u.Ready ∨ ∃ r, op = .assertReadyForFinal r := Or.inl h.ready
  have hsynced := h.synced.arrive hready harr
  have hburied := h.buried.arrive hready harr
  cases harr with
  | stayed hload hreopen _ =>
      -- what is not found has no row
      have hnorow : ∀ r, u.find r = none ∨ r ∈ u.tombstones → r ∉ t.rows.keys := by
        intro r hr
        rw [← h.rows]
        refine Dict.get?_eq_none_iff.mp (hr.elim (fun hfind => ?_) fun hin => (h.buried.gone r hin).2)
        exact (Tracker.find_eq_none.mp hfind).2
      refine h.see fun r hname hrow => absurd hrow (hnorow r ?_)
      exact (loads_of_names hname).elim (hload r) fun hr => Or.inr (hreopen r hr)
  | @held r w hop hheld =>
      refine (h.touchHeld hheld).see fun q hname => ?_
      have hq : q = r := by
        have hr : op.names = some r := hop.elim names_of_loads fun hr => by rw [hr]; rfl
        exact Option.some.inj (hname.symm.trans hr)
      rw [hq]
      exact h.seen_of_held hheld
  | @loaded r row hop hnone hrow =>
      have hmem := h.not_held hnone
      have hrow' : r ∈ t.rows.keys := h.rows ▸ Dict.mem_keys_of_get? hrow
      by_cases hin : r ∈ seen
      · have hbefore : u.before.get? r = some none := by
          refine (h.before_of_not_held hnone).resolve_left fun hb => ?_
          have hsome := (h.fresh r hrow' hmem).1.mp hin
          rw [hb] at hsome
          cases hsome
        have hfree : r ∉ u.tombstones := fun hin => by
          rw [(h.buried.gone r hin).2] at hrow
          cases hrow
        have hhold := h.holdNew hnone hbefore (fun _ => hin) (h.synced.load hnone hrow)
          (h.buried.hold _ hfree)
        refine (hhold.touchHeld (Dict.get?_set_self ..)).see fun q hname _ _ => ?_
        exact Option.some.inj (hname.symm.trans (names_of_loads hop)) ▸ hin
      · have hreload : t.reload seen op = [r] := by simp [Tracker.reload, hop, hin, hmem, hrow']
        rw [names_of_loads hop, hreload]
        exact h.load hnone hrow hin
  | @created r w hop hnone _ _ _ _ _ =>
      have hload := loads_of_admits hop
      obtain ⟨hmem, hrow⟩ := Tracker.find_eq_none.mp hnone
      rw [names_of_loads hload, h.reload_of_no_row hload hrow, List.append_nil]
      refine (h.probe hmem).holdNew hmem ?_ (fun _ => List.mem_cons_self) hsynced hburied
      rw [h.before_touch, hmem]
      rcases h.before_of_not_held hmem with hb | hb <;> simp [hb]
  | @probed r hop hnone _ =>
      subst hop
      rw [show t.reload seen (.reopen r) = [] from rfl, List.append_nil]
      exact h.probe hnone
  | @forgotten r allow hop hok =>
      subst hop
      have hin : r ∈ u.tombstones := by
        by_contra hout
        refine absurd hquiet ?_
        simp only [Op.buries, hout, not_false_eq_true, decide_true, Bool.true_and]
        cases hfind : u.find r with
        | none => simp
        | some w =>
            cases hterm : w.terminalEvent with
            | none => simp [hok w hfind hterm]
            | some e => simp [hterm]
      rw [show t.reload seen (.forgetWorkflow r allow) = [] from rfl, List.append_nil]
      exact h.forget hin

theorem runStore_ran {s : Store} {op : StoreOp} (hs : u.store = some s) (hx : s.txn.isSome = true) :
    (u.runStore s op).2.ran = u.ran := by
  have hdb : ∀ f, (u.withDb f).ran = u.ran := fun f => by simp [Tracker.ran, Tracker.withDb, hs]
  cases op with
  | defer effect =>
      obtain ⟨x, hx⟩ := Option.isSome_iff_exists.mp hx
      simp [Tracker.runStore, Tracker.ran, hs, hx]
  | _ =>
      simp only [Tracker.runStore]
      repeat' split
      all_goals first | rfl | exact hdb _

theorem Mid.run {op : Op} (h : Mid t seen out u) (hquiet : op.buries u = false) :
    Mid t (op.names.toList ++ seen) (out ++ t.reload seen op) (u.run op).2 := by
  cases hop : op.onStore with
  | false =>
      obtain ⟨u₁, harr, hedits⟩ := run_edits hop h.ready h.synced.named
      generalize (u.run op).2 = u' at hedits
      induction hedits with
      | refl => exact h.arrive hquiet harr
      | tail _ hedit ih => exact ih.edit hedit
  | true =>
      cases op with
      | store op =>
          obtain ⟨s, x, hs, hx⟩ := open_store h.inside
          have hopen : s.txn.isSome = true := by simp [hx]
          simp only [Tracker.run, hs]
          have haside : Aside u (u.runStore s op).2 := runStore_aside hs hopen
          have hpiece : Piece (fun t => t.tidy = true) u (u.runStore s op).2 := .aside haside
          refine (h.same (h.synced.piece hpiece) (h.buried.piece h.synced hpiece) haside.workflows
            haside.txn haside.saved haside.rows haside.tombstones (runStore_ran hs hopen)
            haside.before).see fun r hr => ?_
          cases hr
      | _ => cases hop

theorem Mid.exec (body : List Op) (h : Mid t seen out u) (hquiet : u.buries body = false) :
    ∃ seen', Mid t seen' (out ++ t.reloads seen body) (u.exec body) := by
  induction body generalizing seen out u with
  | nil => exact ⟨seen, by simpa [Tracker.reloads, Tracker.exec] using h⟩
  | cons op body ih =>
      simp only [Tracker.buries, Bool.or_eq_false_iff] at hquiet
      have hrest := ih (h.run hquiet.1) hquiet.2
      rw [List.append_assoc] at hrest
      exact hrest

end Mid

theorem keys_restorePoint (es : List (RequestId × Option WorkflowState)) (hnd : (es.map Prod.fst).Nodup)
    (workflows : Dict RequestId WorkflowState) (hheld : ∀ e ∈ es, e.2 ≠ none → e.1 ∈ workflows.keys) :
    (es.foldl Tracker.restorePoint workflows).keys =
      workflows.keys.filter fun r => decide ((r, none) ∉ es) := by
  induction es generalizing workflows with
  | nil => simp
  | cons e es ih =>
      obtain ⟨q, previous⟩ := e
      rw [List.map_cons, List.nodup_cons] at hnd
      rw [List.foldl_cons]
      cases previous with
      | none =>
          have hrest : ∀ e ∈ es, e.2 ≠ none → e.1 ∈ (workflows.erase q).keys := by
            intro e he hne
            rw [Dict.keys_erase, List.mem_filter]
            refine ⟨hheld e (List.mem_cons_of_mem _ he) hne, decide_eq_true fun heq => hnd.1 ?_⟩
            exact List.mem_map.mpr ⟨e, he, heq⟩
          rw [Tracker.restorePoint, ih hnd.2 _ hrest, Dict.keys_erase, List.filter_filter]
          refine List.filter_congr fun r _ => ?_
          by_cases hr : r = q <;> simp [hr]
      | some p =>
          have hq : q ∈ workflows.keys := hheld (q, some p) List.mem_cons_self (by simp)
          have hkeys : (workflows.set q p).keys = workflows.keys := Dict.keys_set_of_mem p hq
          have hrest : ∀ e ∈ es, e.2 ≠ none → e.1 ∈ (workflows.set q p).keys := by
            intro e he hne
            rw [hkeys]
            exact hheld e (List.mem_cons_of_mem _ he) hne
          rw [Tracker.restorePoint, ih hnd.2 _ hrest, hkeys]
          refine List.filter_congr fun r _ => ?_
          simp

section Rollback

variable {t u : Tracker} {seen out : List RequestId} {op : Op}

theorem Mid.rollback_keys (h : Mid t seen out u) :
    u.rollback.workflows.keys = t.workflows.keys ++ out := by
  obtain ⟨s, x, hs, hx⟩ := open_store h.inside
  have hbefore : u.before = x.before := by simp [Tracker.before, Tracker.txn, hs, hx]
  have hheld : ∀ e ∈ x.before.entries, e.2 ≠ none → e.1 ∈ u.workflows.keys := by
    intro e he hne
    by_contra hout
    have hget : u.before.get? e.1 = some e.2 := hbefore ▸ Dict.mem_entries_iff.mp he
    rcases h.before_of_not_held (Dict.get?_eq_none_iff.mpr hout) with hb | hb
    · cases hb.symm.trans hget
    · exact hne (Option.some.inj (hget.symm.trans hb))
  simp only [Tracker.rollback, hs, hx]
  rw [keys_restorePoint x.before.entries x.before.nodup_keys u.workflows hheld, ← h.kept, hbefore]
  refine List.filter_congr fun r _ => ?_
  simp only [Dict.mem_entries_iff, ne_eq]

theorem Mid.rollback_owner (h : Mid t seen out u) (a : AgentId) : u.rollback.requestForSubagent a =
    orLastRow t.db a (lastLister t.db (t.workflows.keys ++ out) a) := by
  obtain ⟨s, x, hs, hx⟩ := open_store h.inside
  have hsync := h.synced.rollback h.inside
  have hdb : u.rollback.db = t.db := (rollback_db h.inside).trans h.saved
  have hheld : ∀ r w, u.rollback.workflows.get? r = some w →
      w.requestId = r ∧ t.db.workflows.get? r = some w.asdict := by
    intro r w hw
    rw [← hdb]
    exact ⟨hsync.named r w hw, hsync.row_of_held (rollback_closed h.inside) hw⟩
  have howners : u.rollback.owners = Tracker.ownersOf u.rollback.workflows := by
    simp [Tracker.rollback, hs, hx]
  rw [requestForSubagent_eq, hdb, howners, ownersOf_eq_lastLister hheld, h.rollback_keys]

theorem run_tombstones (h : Synced u) (hready : u.Ready) : u.tombstones ⊆ (u.run op).2.tombstones := by
  cases hop : op.onStore with
  | false =>
      obtain ⟨u₁, harr, hedits⟩ := run_edits hop hready h.named
      have hsame : (u.run op).2.tombstones = u₁.tombstones := by
        generalize (u.run op).2 = u' at hedits
        induction hedits with
        | refl => rfl
        | tail _ hedit ih =>
            rw [← ih]
            cases hedit <;> rfl
      rw [hsame]
      cases harr with
      | forgotten _ _ =>
          rw [forget_tombstones]
          exact Finset.subset_insert ..
      | _ => exact Finset.Subset.refl _
  | true =>
      cases op with
      | store op =>
          simp only [Tracker.run]
          split
          · exact Finset.Subset.refl _
          · rename_i s hs
            have htxn : s.txn.isSome = true := by simpa [Tracker.txn, hs] using hready (by simp [hs])
            rw [(runStore_aside hs htxn).tombstones]
      | _ => cases hop

theorem buries_run (h : op.buries u = true) : ∃ r ∈ (u.run op).2.tombstones, r ∉ u.tombstones := by
  cases op with
  | forgetWorkflow r allow =>
      simp only [Op.buries, Bool.and_eq_true, decide_eq_true_eq] at h
      refine ⟨r, ?_, h.1⟩
      have hok : ¬((u.find r).any (fun w => w.terminalEvent.isNone) && !allow) = true := by
        rw [Bool.not_eq_true, ← Bool.not_eq_true']
        exact h.2
      simp only [Tracker.run, Tracker.forgetWorkflow, if_neg hok]
      exact Finset.mem_insert_self ..
  | _ => cases h

theorem exec_body (body : List Op) (h : Synced u) (hopen : u.txn.isSome = true) :
    Synced (u.exec body) ∧ Within u (u.exec body) ∧ u.tombstones ⊆ (u.exec body).tombstones ∧
      ∀ maxWorkflows, (conductorMachine maxWorkflows true).run u (body.map (.call · false)) =
        some (u.exec body) := by
  induction body generalizing u with
  | nil => exact ⟨h, .refl u, Finset.Subset.refl _, fun _ => rfl⟩
  | cons op body ih =>
      have hready : u.Ready := fun _ => hopen
      have hwithin : Within u (u.run op).2 := run_within hready h.named
      obtain ⟨hsync, hrest, hsub, hrun⟩ := ih (run_synced h hready) (hwithin.txn.trans hopen)
      refine ⟨hsync, hwithin.trans hrest, (run_tombstones h hready).trans hsub, fun maxWorkflows => ?_⟩
      obtain ⟨s, x, hs, hx⟩ := open_store hopen
      have hcall : u.call op false = u.run op := by
        have hclosed : u.closed = false := by simp [Tracker.closed, hopen]
        simp [Tracker.call, hclosed]
      have hnext : u.next (.call op false) = some (u.run op).2 := by
        simp [Tracker.next, hs, hcall]
      simp only [List.map_cons, Machine.run]
      rw [show (conductorMachine maxWorkflows true).next u (.call op false) = _ from hnext]
      exact hrun maxWorkflows

theorem buries_exec (body : List Op) (h : Synced u) (hopen : u.txn.isSome = true)
    (hburies : u.buries body = true) : ∃ r ∈ (u.exec body).tombstones, r ∉ u.tombstones := by
  induction body generalizing u with
  | nil => cases hburies
  | cons op body ih =>
      have hready : u.Ready := fun _ => hopen
      have hsync : Synced (u.run op).2 := run_synced h hready
      have hopen' : (u.run op).2.txn.isSome = true := (run_within hready h.named).txn.trans hopen
      rcases Bool.or_eq_true_iff.mp hburies with hfirst | hlater
      · obtain ⟨r, hr, hnew⟩ := buries_run hfirst
        exact ⟨r, (exec_body body hsync hopen').2.2.1 hr, hnew⟩
      · obtain ⟨r, hr, hnew⟩ := ih hsync hopen' hlater
        exact ⟨r, hr, fun hin => hnew (run_tombstones h hready hin)⟩

end Rollback

-- A transaction begun in `t` that ends in an exception: a block around its
-- body, or one call with a transaction of its own.
inductive Fails (t : Tracker) : List Op → Tracker → Prop where
  | block {maxWorkflows : Nat} {body : List Op} {t' : Tracker}
      (hrun : (conductorMachine maxWorkflows true).run t
        (.begin :: body.map (.call · false) ++ [.rollback]) = some t') : Fails t body t'
  | single {op : Op} {fault : Bool} {e : ConductorError} {t' : Tracker} (hopens : op.opens t = true)
      (hcall : t.call op fault = (.error e, t')) : Fails t [op] t'

structure Restored (t t' : Tracker) : Prop where
  snapshot : ∀ r, t'.snapshot r = t.snapshot r
  isOpen : ∀ r, t'.isOpen r = t.isOpen r
  owner : ∀ a, t'.requestForSubagent a = t.requestForSubagent a
  tombstones : t'.tombstones = t.tombstones
  cursor : t'.db.cursor = t.db.cursor
  commands : t'.db.commands = t.db.commands
  ran : t'.ran = t.ran

section Fails

variable {t t' : Tracker} {body : List Op}

theorem begin_open (hclosed : t.closed = true) : t.begin.txn.isSome = true := by
  obtain ⟨s, hs, _⟩ := closed_store hclosed
  simp [Tracker.begin, Tracker.txn, hs]

theorem Fails.eq (h : Fails t body t') (hsync : Synced t) (hclosed : t.closed = true) :
    t' = (t.begin.exec body).rollback := by
  have hopen := begin_open hclosed
  obtain ⟨_, hwithin, _, hexec⟩ := exec_body body (hsync.begin hclosed) hopen
  cases h with
  | @block maxWorkflows _ _ hrun =>
      have hopen' : (t.begin.exec body).txn.isSome = true := hwithin.txn.trans hopen
      have hbegin : (conductorMachine maxWorkflows true).next t .begin = some t.begin := by
        simp [conductorMachine, Tracker.next, hclosed]
      have hend : (conductorMachine maxWorkflows true).next (t.begin.exec body) .rollback =
          some (t.begin.exec body).rollback := by
        simp [conductorMachine, Tracker.next, hopen']
      rw [List.cons_append, Machine.run, hbegin, Option.bind_some, Machine.run_append, hexec,
        Option.bind_some, Machine.run, hend] at hrun
      exact (Option.some.inj hrun).symm
  | single hopens hcall =>
      simp only [Tracker.call, hclosed, hopens, Bool.and_self, if_true] at hcall
      split at hcall
      · rename_i hrun
        cases hcall
        simp [Tracker.exec, hrun]
      · rename_i hrun
        split at hcall <;> cases hcall
        simp [Tracker.exec, hrun]

theorem begin_db (hclosed : t.closed = true) : t.begin.db = t.db ∧ t.begin.saved = t.db := by
  obtain ⟨s, hs, _⟩ := closed_store hclosed
  simp [Tracker.begin, Tracker.db, Tracker.saved, Tracker.txn, hs]

theorem Mid.start (hsync : Synced t) (hburied : Buried t) (hclosed : t.closed = true) :
    Mid t [] [] t.begin := by
  obtain ⟨s, hs, hx⟩ := closed_store hclosed
  have hbefore : t.begin.before = .empty := by simp [Tracker.begin, Tracker.before, Tracker.txn, hs]
  have hpiece : Piece (fun t => t.tidy = true) t t.begin := .begun hclosed
  refine ⟨begin_open hclosed, hsync.begin hclosed, hburied.piece hsync hpiece, (begin_db hclosed).2,
    congrArg Db.workflows (begin_db hclosed).1, rfl, ?_, ?_, fun r hr => ?_, fun r _ hr => ?_⟩
  · simp [Tracker.ran, Tracker.begin, hs]
  · simp only [hbefore, Dict.get?_empty, ne_eq, reduceCtorEq, not_false_eq_true, decide_true,
      List.filter_true, List.append_nil]
    rfl
  · rw [hbefore] at hr
    cases hr
  · rw [hbefore]
    exact ⟨by simp, fun _ => Dict.get?_eq_none_iff.mpr hr⟩

end Fails

-- A failed transaction leaves everything as it was exactly when it drops no
-- request and the rebuilt index names every agent's owner.
theorem failed_transaction_restores_iff {maxWorkflows : Nat} {t t' : Tracker} {body : List Op}
    (h : (undoingMachine maxWorkflows true Tracker.tidy).Reachable t) (hclosed : t.closed = true)
    (hfails : Fails t body t') :
    Restored t t' ↔ t.begin.buries body = false ∧
      ∀ a, orLastRow t.db a (lastLister t.db (t.workflows.keys ++ t.reloads [] body) a) =
        t.requestForSubagent a := by
  obtain ⟨hsync, hburied⟩ := reachable_pieces (P := Buried) (.start maxWorkflows)
    (fun t t' hsync hb hpiece => hb.piece hsync hpiece) h
  have hopen := begin_open hclosed
  have heq := hfails.eq hsync hclosed
  have hbegin := hsync.begin hclosed
  obtain ⟨hmid, hwithin, _⟩ := exec_body body hbegin hopen
  have hinside : (t.begin.exec body).txn.isSome = true := hwithin.txn.trans hopen
  have hdb : t'.db = t.db := by
    rw [heq, rollback_db hinside, hwithin.saved hopen]
    exact (begin_db hclosed).2
  have hfind : ∀ r, t'.find r = t.find r := by
    rw [heq]
    exact rollback_find hsync hclosed hmid hwithin
  have htombs : t'.tombstones = (t.begin.exec body).tombstones := by
    obtain ⟨s, x, hs, hx⟩ := open_store hinside
    rw [heq]
    simp [Tracker.rollback, hs, hx]
  constructor
  · intro hrestored
    have hquiet : t.begin.buries body = false := by
      by_contra hburies
      obtain ⟨r, hr, hnew⟩ := buries_exec body hbegin hopen (by simpa using hburies)
      rw [← htombs, hrestored.tombstones] at hr
      exact hnew hr
    refine ⟨hquiet, fun a => ?_⟩
    obtain ⟨seen, hend⟩ := (Mid.start hsync hburied hclosed).exec body hquiet
    have howner := hend.rollback_owner a
    rw [← heq, hrestored.owner, List.nil_append] at howner
    exact howner.symm
  · rintro ⟨hquiet, howners⟩
    obtain ⟨seen, hend⟩ := (Mid.start hsync hburied hclosed).exec body hquiet
    refine ⟨fun r => ?_, fun r => ?_, fun a => ?_, htombs.trans hend.tombstones, by rw [hdb], by rw [hdb],
      ?_⟩
    · simp only [Tracker.snapshot, hfind]
    · simp only [Tracker.isOpen, hfind]
    · rw [heq, hend.rollback_owner, List.nil_append]
      exact howners a
    · obtain ⟨s, x, hs, hx⟩ := open_store hinside
      rw [← hend.ran, heq]
      simp [Tracker.ran, Tracker.rollback, hs, hx]

-- "x" works for "b". The transaction gives it to "a" and then names a request nobody knows.
def workingRun : List Action :=
  [.call (.admitRequest "a" .admitted none 1) false, .call (.admitRequest "b" .admitted none 2) false,
   .call (.bindSubagent "b" "x" 1 3) false]

def failingBody : List Op :=
  [.bindSubagent "a" "x" 2 4, .store (.defer 7), .store (.putCommand "op" { intent := .empty } 5),
   .setTitle "c" "no such request"]

theorem failed_transaction_restores_workingRun :
    ∃ t t', (undoingMachine 3 true Tracker.tidy).run (undoingMachine 3 true Tracker.tidy).start
        workingRun = some t ∧
      Fails t failingBody t' ∧ (t.begin.exec failingBody).requestForSubagent "x" = some "a" ∧
      t'.requestForSubagent "x" = some "b" ∧ Restored t t' := by
  refine ⟨_, _, rfl, @Fails.block _ 3 _ _ rfl, by decide, by decide, ?_⟩
  exact (@failed_transaction_restores_iff 3 _ _ failingBody ⟨workingRun, rfl⟩ rfl
    (@Fails.block _ 3 _ _ rfl)).mpr
      ⟨by decide, owners_settled ["x"] (by decide) (by decide) (by decide)⟩

-- "x" moved from the closed "a" to "b", but "a" comes later in memory.
def movedRun : List Action :=
  [.call (.admitRequest "b" .admitted none 1) false, .call (.admitRequest "a" .admitted none 2) false,
   .call (.bindSubagent "a" "x" 1 3) false, .call (.failSupervisor "a" "supervise" "lost" 4) false,
   .call (.recordSubagentEvent "x" .started (some 2) (some "b") "" 5) false]

theorem failed_transaction_not_restored :
    ∃ t t₁ t₂, (undoingMachine 3 true Tracker.tidy).run (undoingMachine 3 true Tracker.tidy).start
        movedRun = some t ∧
      -- the request is back, but tombstoned
      Fails t [.forgetWorkflow "b" true, .setTitle "c" "no such request"] t₁ ∧
      t.tombstones = ∅ ∧ t₁.tombstones = {"b"} ∧ ¬Restored t t₁ ∧
      -- a transaction that did nothing moves the agent
      Fails t [.setTitle "c" "no such request"] t₂ ∧
      t.requestForSubagent "x" = some "b" ∧ t₂.requestForSubagent "x" = some "a" ∧ ¬Restored t t₂ := by
  refine ⟨_, _, _, rfl, @Fails.block _ 3 _ _ rfl, by decide, by decide, fun h => ?_,
    @Fails.single _ _ false _ _ rfl rfl, by decide, by decide, fun h => ?_⟩
  · exact absurd h.tombstones (by decide)
  · exact absurd (h.owner "x") (by decide)

end GaHub.Conductor
