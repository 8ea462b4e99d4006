import GaHub.Conductor.Bodies

namespace GaHub.Conductor

open Lib

def Op.forgets : Op → Bool
  | .forgetWorkflow .. => true
  | _ => false

-- What an operation of the store makes of the tables, where it does not raise.
def StoreOp.apply : StoreOp → Db → Db
  | .checkpoint epoch seq bootId, db => { db with consumerState := some { seq, epoch, bootId } }
  | .putCommand operation payload now, db =>
      let command : Command :=
        { fingerprint := commandFingerprint payload, payload, state := .pending, result := none, updatedAt := now }
      if (db.commands.get? operation).isSome then db
      else { db with commands := db.commands.set operation command }
  | .finishCommand operation (some state) result now, db =>
      db.updateCommand operation fun c => { c with state, result, updatedAt := now }
  | .finishCommand _ none _ _, db => db
  | .prepareCommand operation payload, db =>
      db.updateCommand operation fun c => { c with payload, fingerprint := commandFingerprint payload }
  | .saveChat item ts, db =>
      match item.id with
      | none => db
      | some id => if id = "" then db else db.saveChat item id ts
  | .saveSubagentSnapshots items, db =>
      let named := items.filter fun e => decide (e.1 ≠ "")
      if named.isEmpty then db else db.saveSubagentSnapshots named
  | .saveActivity rows, db =>
      let named := rows.filter fun e => decide (e.1 ≠ "" ∧ e.2.requestId ≠ "")
      if named.isEmpty then db else db.saveActivity named
  | .defer _, db => db

section Tables

variable {t t' : Tracker} {op : Op}

theorem Edit.db (h : Edit op t t') : t'.db = t.db := by
  cases h with
  | touched _ => exact t.touch_db _
  | changed _ _ _ | owned => rfl
  | pruned _ => rfl

theorem Arrival.db (hop : op.forgets = false) (h : Arrival op t t') : t'.db = t.db := by
  cases h with
  | stayed _ _ _ => rfl
  | held _ _ | probed _ _ _ => exact t.touch_db _
  | loaded _ _ _ => exact Tracker.touch_db _ _
  | created _ _ _ _ _ _ _ => exact t.touch_db _
  | forgotten hforget _ =>
      rw [hforget] at hop
      cases hop

theorem run_db (hop : op.onStore = false) (hforget : op.forgets = false) (hready : t.Ready)
    (hnamed : ∀ r w, t.workflows.get? r = some w → w.requestId = r) : (t.run op).2.db = t.db := by
  obtain ⟨t₁, harr, hedits⟩ := run_edits hop hready hnamed
  have hrest : ∀ {t' : Tracker}, Relation.ReflTransGen (Edit op) t₁ t' → t'.db = t₁.db := by
    intro t' h
    induction h with
    | refl => rfl
    | tail _ hlast ih => exact hlast.db.trans ih
  exact (hrest hedits).trans (harr.db hforget)

theorem commit_db (hopen : t.txn.isSome = true) : t.commit.db = { t.db with workflows := t.commit.rows } := by
  obtain ⟨s, x, hs, hx⟩ := open_store hopen
  have hdb : t.db = s.db := by simp [Tracker.db, hs]
  rw [hdb, commit_eq hs hx]
  rfl

theorem begin_saved (hclosed : t.closed = true) : t.begin.saved = t.db := by
  obtain ⟨s, hs, _⟩ := closed_store hclosed
  simp [Tracker.begin, Tracker.saved, Tracker.txn, Tracker.db, hs]

theorem closed_saved (hclosed : t.closed = true) : t.saved = t.db := by
  obtain ⟨s, hs, hx⟩ := closed_store hclosed
  simp [Tracker.saved, Tracker.txn, hs, hx]

theorem withDb_db {s : Store} {f : Db → Db} (hs : t.store = some s) : (t.withDb f).db = f t.db := by
  simp [Tracker.withDb, Tracker.db, hs]

theorem runStore_db {s : Store} (hs : t.store = some s) (op : StoreOp) :
    (t.runStore s op).2.db = t.db ∧ (∃ e, (t.runStore s op).1 = .error e) ∨
      (t.runStore s op).2.db = op.apply t.db ∧ ∃ reply, (t.runStore s op).1 = .ok reply := by
  have hdb : s.db = t.db := by simp [Tracker.db, hs]
  cases op with
  | checkpoint epoch seq bootId =>
      simp only [Tracker.runStore, hdb]
      split
      · exact Or.inl ⟨rfl, _, rfl⟩
      · split
        · exact Or.inl ⟨rfl, _, rfl⟩
        · rename_i db hok
          refine Or.inr ⟨?_, _, rfl⟩
          rw [withDb_db hs]
          unfold Db.checkpoint at hok
          dsimp only at hok
          split at hok
          · cases hok
          · split at hok <;> cases hok
            rfl
  | putCommand operation payload now =>
      simp only [Tracker.runStore, hdb]
      split
      · exact Or.inl ⟨rfl, _, rfl⟩
      · rename_i command db hok
        refine Or.inr ⟨?_, _, rfl⟩
        rw [withDb_db hs]
        unfold Db.putCommand at hok
        dsimp only at hok
        split at hok
        · rename_i existing hexisting
          split at hok <;> cases hok
          simp [StoreOp.apply, hexisting]
        · rename_i hnone
          cases hok
          simp [StoreOp.apply, hnone]
  | finishCommand operation state result now =>
      cases state with
      | none => exact Or.inl ⟨rfl, _, rfl⟩
      | some state => exact Or.inr ⟨withDb_db hs, _, rfl⟩
  | prepareCommand operation payload => exact Or.inr ⟨withDb_db hs, _, rfl⟩
  | saveChat item ts =>
      simp only [Tracker.runStore, StoreOp.apply]
      cases item.id with
      | none => exact Or.inr ⟨rfl, _, rfl⟩
      | some id =>
          dsimp only
          split
          · exact Or.inr ⟨rfl, _, rfl⟩
          · exact Or.inr ⟨withDb_db hs, _, rfl⟩
  | saveSubagentSnapshots items | saveActivity items =>
      simp only [Tracker.runStore, StoreOp.apply]
      split
      · exact Or.inr ⟨rfl, _, rfl⟩
      · exact Or.inr ⟨withDb_db hs, _, rfl⟩
  | defer effect =>
      refine Or.inr ⟨?_, _, rfl⟩
      cases hx : s.txn <;> simp [Tracker.runStore, Tracker.db, StoreOp.apply, hs, hx]

theorem forget_db (hs : t.store.isSome = true) (q : RequestId) :
    (t.forgetWorkflow q true).2.db = t.db.forgetWorkflow q := by
  obtain ⟨s, hs⟩ := Option.isSome_iff_exists.mp hs
  rw [forgetWorkflow_eq]
  simp [Tracker.withDb, Tracker.db, hs]

theorem forgetWorkflow_cases (t : Tracker) (q : RequestId) (allow : Bool) :
    (t.forgetWorkflow q allow).2 = t ∨ (t.forgetWorkflow q allow).2 = (t.forgetWorkflow q true).2 := by
  cases allow with
  | true => exact Or.inr rfl
  | false =>
      unfold Tracker.forgetWorkflow
      split
      · exact Or.inl rfl
      · simp

end Tables

end GaHub.Conductor
