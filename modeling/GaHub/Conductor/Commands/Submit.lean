import GaHub.Conductor.Commands.Shifts

namespace GaHub.Conductor

open Lib

-- `intent.get("reopen") == True`
def Intent.saysReopen (i : Intent) : Bool := decide ((i.get? "reopen").map Value.key = some (.int 1))

section Intents

variable {i j k : Intent}

theorem Intent.equal_iff : i.equal j = true ↔ ∀ key, (i.get? key).map Value.key = (j.get? key).map Value.key := by
  unfold Intent.equal
  rw [decide_eq_true_eq]
  refine ⟨fun h key => ?_, fun h key _ => h key⟩
  by_cases hkey : key ∈ i.keys ++ j.keys
  · exact h key hkey
  · rw [List.mem_append, not_or] at hkey
    rw [Dict.get?_eq_none_iff.mpr hkey.1, Dict.get?_eq_none_iff.mpr hkey.2]

theorem Intent.equal_comm : i.equal j = j.equal i := by
  rw [Bool.eq_iff_iff, equal_iff, equal_iff]
  exact ⟨fun h key => (h key).symm, fun h key => (h key).symm⟩

theorem Intent.equal_congr (h : i.equal j = true) : i.equal k = j.equal k := by
  rw [Bool.eq_iff_iff, equal_iff, equal_iff]
  rw [equal_iff] at h
  exact ⟨fun hik key => (h key).symm.trans (hik key), fun hjk key => (h key).trans (hjk key)⟩

theorem Intent.equal_self (i : Intent) : i.equal i = true := equal_iff.mpr fun _ => rfl

theorem Intent.set_reopen_equal (i : Intent) : Intent.equal (i.set "reopen" (.bool true)) i = i.saysReopen := by
  rw [Bool.eq_iff_iff, Intent.equal_iff, Intent.saysReopen, decide_eq_true_eq]
  refine ⟨fun h => ?_, fun h key => ?_⟩
  · have hkey := h "reopen"
    rw [Dict.get?_set, if_pos rfl] at hkey
    exact hkey.symm
  · rw [Dict.get?_set]
    split
    · rename_i hkey
      subst hkey
      exact h.symm
    · rfl

end Intents

-- The row of a command keeps its intent, and so does whoever has read it.
def Sticks (i : Intent) (v : View) : Prop :=
  (∃ c, v.row = some c ∧ c.payload.intent = i) ∧
    ∀ job point state payload, v.job = some job → job.progress = .running point state payload →
      payload.intent = i

def Backed (v : View) : Prop :=
  ∀ job point state payload, v.job = some job → job.progress = .running point state payload → v.row.isSome = true

section Views

variable {i : Intent} {v : View} {job : Job}

theorem Sticks.running (h : Sticks i v) {point : Point} {state : CommandState} {payload : CommandPayload}
    (hp : payload.intent = i) : Sticks i (v.moved job (.running point state payload)) := by
  refine ⟨h.1, fun job' point' state' payload' hjob hprogress => ?_⟩
  cases hjob
  cases hprogress
  exact hp

theorem Sticks.ended (h : Sticks i v) (outcome : Option Raised) : Sticks i (v.moved job (.ended outcome)) := by
  refine ⟨h.1, fun job' point state payload hjob hprogress => ?_⟩
  cases hjob
  cases hprogress

theorem Sticks.noted (h : Sticks i v) (n : Note) : Sticks i (v.noted n) := h

theorem Sticks.stored (h : Sticks i v) (o : OperationId) (state : CommandState) (result : Option CommandResult)
    (answered : Bool) (now : Time) : Sticks i (v.stored o state result answered now) := by
  obtain ⟨⟨c, hrow, hintent⟩, hjobs⟩ := h
  exact ⟨⟨c.finished state result now, by simp [View.stored, hrow], hintent⟩, hjobs⟩

theorem Sticks.holding (h : Sticks i v) {payload : CommandPayload} (hp : payload.intent = i) :
    Sticks i (v.holding payload) := by
  obtain ⟨⟨c, hrow, _⟩, hjobs⟩ := h
  exact ⟨⟨c.holding payload, by simp [View.holding, hrow], hp⟩, hjobs⟩

theorem Sticks.idle (h : Sticks i v) : Sticks i { v with job := none } := by
  refine ⟨h.1, fun job point state payload hjob => ?_⟩
  cases hjob

end Views

section Shifts

variable {o : OperationId} {h : Hub} {a : CommandAction} {v : View} {i : Intent}

theorem Shift.sticks (hshift : Shift o h a v) (hi : Sticks i (h.view o)) : Sticks i v := by
  have hread : ∀ {job : Job} {point : Point} {state : CommandState} {payload : CommandPayload},
      h.jobs.get? o = some job → job.progress = .running point state payload → payload.intent = i :=
    fun hjob hprogress => hi.2 _ _ _ _ hjob hprogress
  have hrows : ∀ {c : Command}, h.row o = some c → c.payload.intent = i := by
    intro c hrow
    obtain ⟨⟨d, hd, hintent⟩, _⟩ := hi
    cases hd.symm.trans hrow
    exact hintent
  cases hshift with
  | still => exact hi
  | created hnone _ _ =>
      obtain ⟨⟨d, hd, _⟩, _⟩ := hi
      cases hnone.symm.trans hd
  | entered hnone hprogress _ =>
      refine ⟨hi.1, fun job point state payload hjob hrunning => ?_⟩
      cases hjob
      cases hprogress.symm.trans hrunning
  | fetched hjob _ hrow _ _ => exact hi.running (hrows hrow)
  | ended _ => exact hi.ended _
  | went hjob hprogress _ => exact hi.running (hread hjob hprogress)
  | assigned _ hjob hprogress =>
      have hintent := hread hjob hprogress
      exact hi.running hintent
  | prepared hjob hprogress _ hprepares => exact hi.running (hprepares.intent.trans (hread hjob hprogress))
  | saved hjob hprogress => exact (hi.holding (hread hjob hprogress)).running (hread hjob hprogress)
  | marked hjob hprogress => exact (hi.stored ..).running (hread hjob hprogress)
  | queried hjob hprogress _ => exact (hi.noted _).running (hread hjob hprogress)
  | unanswered _ _ hjob hprogress _ => exact hi.running (hread hjob hprogress)
  | sent hjob hprogress => exact (hi.noted _).running (hread hjob hprogress)
  | rejected _ _ _ | refused _ _ _ | delivered _ _ => exact (hi.stored ..).ended _
  | outdated _ _ _ | uncertain _ _ => exact ((hi.stored ..).noted _).ended _
  | left _ _ | crashed => exact hi.idle
  | handled _ _ _ => exact hi.stored ..
  | @suspended c result now _ hrow _ =>
      have hheld : Sticks i ((h.view o).holding { c.payload with suspended := true }) := hi.holding (hrows hrow)
      exact (hheld.stored ..).noted _

theorem Shift.backed (hshift : Shift o h a v) (hb : Backed (h.view o)) : Backed v := by
  intro job point state payload hjob hprogress
  by_cases hrow : (h.row o).isSome = true
  · exact hshift.row_isSome hrow
  · -- without a row nobody gets past the first read
    have hnone : ∀ {job : Job} {point : Point} {state : CommandState} {payload : CommandPayload},
        h.jobs.get? o = some job → job.progress = .running point state payload → False :=
      fun hjob hprogress => hrow (hb _ _ _ _ hjob hprogress)
    cases hshift with
    | still => exact absurd (hnone hjob hprogress) id
    | created _ _ _ => rfl
    | entered _ hentered _ =>
        cases hjob
        cases hentered.symm.trans hprogress
    | fetched _ _ hrow' _ _ => simp [hrow'] at hrow
    | ended _ =>
        cases hjob
        cases hprogress
    | left _ _ | crashed => cases hjob
    | handled _ _ _ => exact absurd (hnone hjob hprogress) id
    | suspended _ hrow' _ => simp [hrow'] at hrow
    | went hjob' hprogress' _ | assigned _ hjob' hprogress' | prepared hjob' hprogress' _ _
    | saved hjob' hprogress' | marked hjob' hprogress' | queried hjob' hprogress' _
    | unanswered _ _ hjob' hprogress' _ | sent hjob' hprogress'
    | rejected hjob' hprogress' _ | outdated hjob' hprogress' _ | uncertain hjob' hprogress'
    | refused hjob' hprogress' _ | delivered hjob' hprogress' => exact absurd (hnone hjob' hprogress') id

end Shifts

-- A delivery never comes back with the error of `put_command`.
def Deferring.spared (d : Deferring) : Prop := d.1 ≠ .error (.conductor .operationConflict)

section Conflicts

variable {u : Tracker} {r : RequestId} {now : Time}

theorem spared_ok {effects : List Effect} : Deferring.spared (.ok effects, u) := by
  intro h
  cases h

theorem spared_step {op : Op} {rest : Reply → Tracker → Deferring}
    (hop : (u.run op).1 ≠ .error .operationConflict)
    (hrest : ∀ reply, (rest reply (u.run op).2).spared) : (u.step op rest).spared := by
  cases hrun : (u.run op).1 with
  | error e =>
      rw [step_error hrun]
      intro h
      cases h
      exact hop hrun
  | ok reply =>
      rw [step_eq hrun]
      exact hrest reply

theorem assertReadyForFinal_spared (w : WorkflowState) : w.assertReadyForFinal ≠ .error .operationConflict := by
  unfold WorkflowState.assertReadyForFinal
  split
  · simp
  · split
    · simp
    · dsimp only
      split
      · simp
      · split <;> simp

theorem setTitle_spared (title : String) : (u.run (.setTitle r title)).1 ≠ .error .operationConflict := by
  simp only [Tracker.run, Tracker.setTitle]
  split <;> simp

theorem confirmAdmission_spared (bootId : Option String) :
    (u.run (.confirmAdmission r bootId now)).1 ≠ .error .operationConflict := by
  simp only [Tracker.run, Tracker.confirmAdmission]
  split
  · simp
  · split <;> simp

theorem bindSubagent_spared (agent : AgentId) (generation : Int) :
    (u.run (.bindSubagent r agent generation now)).1 ≠ .error .operationConflict := by
  simp only [Tracker.run, Tracker.bindSubagent]
  split
  · simp
  · split
    · simp
    · split <;> simp

theorem recordSubagentEvent_spared (agent : AgentId) (event : WorkerEvent) (generation : Option Int) :
    (u.run (.recordSubagentEvent agent event generation (some r) "" now)).1 ≠ .error .operationConflict := by
  simp only [Tracker.run, Tracker.recordSubagentEvent]
  split
  · simp
  · split
    · simp
    · split
      · simp
      · unfold Tracker.observe
        split
        · simp
        · dsimp only
          split
          · simp
          · split <;> simp

theorem recordFinal_spared (item : Item) : (u.run (.recordFinal r item now)).1 ≠ .error .operationConflict := by
  simp only [Tracker.run, Tracker.recordFinal]
  split
  · simp
  · rename_i w _ _
    split
    · simp
    · split
      · rename_i e herror
        intro h
        cases h
        exact assertReadyForFinal_spared w herror
      · split <;> simp

theorem store_spared {op : StoreOp} (hop : ∀ t s, (Tracker.runStore t s op).1 = .ok .nothing) :
    (u.run (.store op)).1 ≠ .error .operationConflict := by
  simp only [Tracker.run]
  split
  · simp
  · rw [hop]
    simp

theorem onRemoteChat_spared (u : Tracker) (item : ChatItem) (now : Time) : (u.onRemoteChat item now).spared := by
  have hsave : ∀ (u : Tracker) effects,
      Deferring.spared (u.step (.store (.saveChat (item.hub now) ((item.hub now).ts.getD now))) fun _ t =>
        (.ok (effects ++ [.mirror (item.hub now)]), t)) := fun u effects => by
    refine spared_step (store_spared fun t s => ?_) fun _ => spared_ok
    simp only [Tracker.runStore]
    split <;> rfl
  unfold Tracker.onRemoteChat Tracker.noteChat
  dsimp only
  split
  · exact hsave _ _
  · split
    · exact hsave _ _
    · split
      · exact spared_step (setTitle_spared _) fun _ => hsave _ _
      · split
        · exact spared_step (recordFinal_spared _) fun _ => hsave _ _
        · exact hsave _ _

theorem spared_andThen {d : Deferring} {rest : List Effect → Tracker → Deferring} (hd : d.spared)
    (hrest : ∀ effects t, (rest effects t).spared) : (d.andThen rest).spared := by
  rcases d with ⟨result, t⟩
  cases result with
  | error e =>
      intro h
      cases h
      exact hd rfl
  | ok effects => exact hrest effects t

theorem deliver_spared (u : Tracker) (o : OperationId) (payload : CommandPayload) (reply : EngineReply) (now : Time) :
    (u.deliver o payload reply now).spared := by
  have hfinish : ∀ effects (t : Tracker), Deferring.spared (t.step
      (.store (.finishCommand o (some .succeeded) (some (.reply reply.body)) now)) fun _ t => (.ok effects, t)) :=
    fun _ _ => spared_step (store_spared fun _ _ => rfl) fun _ => spared_ok
  unfold Tracker.deliver
  dsimp only
  split
  · split
    · exact spared_andThen (onRemoteChat_spared _ _ _) hfinish
    · split
      · exact spared_step (confirmAdmission_spared _) fun _ => spared_andThen (onRemoteChat_spared _ _ _) hfinish
      · exact spared_andThen (onRemoteChat_spared _ _ _) hfinish
  · split
    · exact hfinish _ _
    · split
      · exact hfinish _ _
      · split
        · exact spared_step (recordSubagentEvent_spared _ _ _) fun _ => hfinish _ _
        · split
          · exact spared_step (confirmAdmission_spared _) fun _ =>
              spared_step (bindSubagent_spared _ _) fun _ => hfinish _ _
          · exact hfinish _ _

end Conflicts

-- What is promised to whoever submits the same operation again, in every later state.
structure Resubmits (h : Hub) (o : OperationId) (i : Intent) : Prop where
  same : ∀ j fresh now fault, j.equal i = true →
    (h.submit o j fresh now fault).1 ≠ .error (.conductor .operationConflict) ∧
      ∀ r, (h.submit o j fresh now fault).2.process.tracker.find r = h.process.tracker.find r
  other : ∀ j fresh now fault, j.equal i = false →
    (h.submit o j fresh now fault).1 = .error (.conductor .operationConflict) ∧
      (h.submit o j fresh now fault).2.process.tracker.db = h.process.tracker.db
  -- nor does the delivery that follows
  delivery : ∀ payload reply now, (h.process.tracker.begin.deliver o payload reply now).spared

def Idempotent (maxWorkflows : Nat) (h : Hub) (o : OperationId) (i : Intent) : Prop :=
  ∀ actions h', (commandMachine maxWorkflows).run h actions = some h' →
    h'.process.tracker.closed = true → Resubmits h' o i

section Resubmits

variable {h : Hub} {o : OperationId} {c : Command} {i j : Intent}

theorem submit_known (hrow : h.row o = some c) (hequal : c.payload.intent.equal j = true) (fresh : RequestId)
    (now : Time) : h.process.tracker.begin.submit o j fresh now = (.ok [], h.process.tracker.begin) := by
  have hbegin : h.process.tracker.begin.db.commands.get? o = some c := by
    rw [(like_begin h.process.tracker).db]
    exact hrow
  simp only [Tracker.submit, hbegin, hequal, if_true]

theorem submit_conflict (hrow : h.row o = some c) (hequal : c.payload.intent.equal j = false) (fresh : RequestId)
    (now : Time) : h.process.tracker.begin.submit o j fresh now =
      (.error (.conductor .operationConflict), h.process.tracker.begin) := by
  have hbegin : h.process.tracker.begin.db.commands.get? o = some c := by
    rw [(like_begin h.process.tracker).db]
    exact hrow
  simp only [Tracker.submit, hbegin, hequal, Bool.false_eq_true, if_false]

theorem resubmits_of_equal (hs : Settled h.process) (hclosed : h.process.tracker.closed = true)
    (hrow : h.row o = some c) (hequal : c.payload.intent.equal i = true) : Resubmits h o i := by
  have hbegin := hs.sync.begin hclosed
  have hopen := begin_txn hclosed
  refine ⟨fun j fresh now fault hj => ?_, fun j fresh now fault hj => ?_, fun _ _ _ => deliver_spared _ _ _ _ _⟩
  · have hknown : c.payload.intent.equal j = true := by
      rw [Intent.equal_comm, Intent.equal_congr hj, Intent.equal_comm]
      exact hequal
    simp only [Hub.submit, submit_known hrow hknown]
    cases fault with
    | true =>
        refine ⟨by simp, fun r => ?_⟩
        exact rollback_find hs.sync hclosed hbegin (.refl _) r
    | false =>
        refine ⟨by simp, fun r => ?_⟩
        exact (commit_find hbegin hopen r).trans (begin_find _ r)
  · have hother : c.payload.intent.equal j = false := by
      rw [Intent.equal_congr hequal, Intent.equal_comm]
      exact hj
    simp only [Hub.submit, submit_conflict hrow hother, true_and]
    rw [rollback_db hopen, begin_saved hclosed]

theorem not_resubmits_of_other (hrow : h.row o = some c) (hequal : c.payload.intent.equal i = false) :
    ¬Resubmits h o i := by
  intro hre
  have hsame := (hre.same i "" 0 false (Intent.equal_self i)).1
  simp only [Hub.submit, submit_conflict hrow hequal] at hsame
  exact hsame rfl

end Resubmits

section Runs

variable {maxWorkflows : Nat} {h : Hub} {o : OperationId}

theorem run_sticks {i : Intent} (actions : List CommandAction) {h h' : Hub} (hs : Settled h.process)
    (hi : Sticks i (h.view o)) (hrun : (commandMachine maxWorkflows).run h actions = some h') :
    Settled h'.process ∧ Sticks i (h'.view o) := by
  refine Machine.run_invariant (M := commandMachine maxWorkflows) (P := fun h => Settled h.process ∧ Sticks i (h.view o))
    (fun h a h' hboth hnext => ?_) actions ⟨hs, hi⟩ hrun
  obtain ⟨hsettled, hshifts⟩ := next_shifts hboth.1 hnext
  exact ⟨hsettled, (hshifts o).sticks hboth.2⟩

theorem reachable_backed (hreach : (commandMachine maxWorkflows).Reachable h) :
    Settled h.process ∧ ∀ o, Backed (h.view o) := by
  refine commands_invariant (P := fun h => ∀ o, Backed (h.view o)) (fun o => ?_)
    (fun h a h' _ hb _ hshifts o => (hshifts o).backed (hb o)) hreach
  intro job point state payload hjob
  cases hjob

theorem first_submit {i : Intent} {fresh : RequestId} {now : Time} (hreach : (commandMachine maxWorkflows).Reachable h)
    (hclosed : h.process.tracker.closed = true) (hnone : h.row o = none)
    (hok : (h.submit o i fresh now false).1 = .ok ()) :
    Settled (h.submit o i fresh now false).2.process ∧
      (h.submit o i fresh now false).2.process.tracker.closed = true ∧
      Sticks (if h.process.tracker.reopensFor i then i.set "reopen" (.bool true) else i)
        ((h.submit o i fresh now false).2.view o) := by
  obtain ⟨hs, hbacked⟩ := reachable_backed hreach
  have hbody := submit_yields (Amid.begin hs.sync hclosed) o i fresh now
  have hsame : h.process.tracker.begin.reopensFor i = h.process.tracker.reopensFor i := by
    have hburied : h.process.tracker.begin.tombstones = h.process.tracker.tombstones := rfl
    have hreopenable : h.process.tracker.begin.reopenable = h.process.tracker.reopenable := by
      funext r
      unfold Tracker.reopenable
      rw [hburied, begin_find]
    unfold Tracker.reopensFor
    rw [hreopenable]
  rw [hsame] at hbody
  simp only [Hub.submit] at hok ⊢
  rcases hpair : h.process.tracker.begin.submit o i fresh now with ⟨result, u⟩
  rw [hpair] at hbody hok
  cases result with
  | error e => cases hok
  | ok effects =>
      obtain ⟨hsettled, hclosed', hcommands⟩ := hbody.inside.committed
        (p := { h.process with tracker := u.commit, pending := h.process.pending ++ effects }) rfl
      refine ⟨hsettled, hclosed', ?_⟩
      cases hbody.post effects rfl with
      | known hrow _ _ => cases hnone.symm.trans hrow
      | @created c _ hfirst heq =>
          refine ⟨⟨c, ?_, hfirst.intent⟩, fun job point state payload hjob hprogress => ?_⟩
          · simp only [Bool.false_eq_true, if_false, Hub.view, Hub.row, hcommands, heq]
            exact Dict.get?_set_self ..
          · have hrow := hbacked o job point state payload hjob hprogress
            simp [Hub.view, hnone] at hrow

end Runs

-- A command can be submitted again exactly when its first submission did not mark the intent.
theorem submit_idempotent_iff {maxWorkflows : Nat} {h : Hub} {o : OperationId} {i : Intent} {fresh : RequestId}
    {now : Time} (hreach : (commandMachine maxWorkflows).Reachable h) (hclosed : h.process.tracker.closed = true)
    (hnone : h.row o = none) (hok : (h.submit o i fresh now false).1 = .ok ()) :
    Idempotent maxWorkflows (h.submit o i fresh now false).2 o i ↔
      h.process.tracker.reopensFor i = false ∨ i.saysReopen = true := by
  obtain ⟨hs, hclosed', hsticks⟩ := first_submit hreach hclosed hnone hok
  have hmark : Intent.equal (if h.process.tracker.reopensFor i then i.set "reopen" (.bool true) else i) i = true ↔
      h.process.tracker.reopensFor i = false ∨ i.saysReopen = true := by
    cases h.process.tracker.reopensFor i with
    | false => simp [Intent.equal_self]
    | true => simp [Intent.set_reopen_equal]
  rw [← hmark]
  refine ⟨fun hidem => ?_, fun hequal actions h' hrun hclosed'' => ?_⟩
  · obtain ⟨⟨c, hrow, hintent⟩, _⟩ := hsticks
    rw [← hintent]
    by_contra hother
    exact not_resubmits_of_other hrow (by simpa using hother) (hidem [] _ rfl hclosed')
  · obtain ⟨hs', ⟨c, hrow, hintent⟩, _⟩ := run_sticks actions hs hsticks hrun
    exact resubmits_of_equal hs' hclosed'' hrow (by rw [hintent]; exact hequal)

def finishedRun : List CommandAction :=
  [.process (.tracker (.call (.admitRequest "a" .admitted none 1) false)),
   .process (.tracker (.call (.bindSubagent "a" "x" 1 2) false)),
   .process (.tracker (.call (.recordSubagentEvent "x" .accepted (some 1) none "" 3) false)),
   .process (.tracker (.call (.recordFinal "a" ⟨some "f", "done"⟩ 4) false))]

def messageTo (request : RequestId) : Intent :=
  .ofList [("kind", .str "chat"), ("role", .str "user"), ("msg", .str "more"), ("request_id", .str request)]

theorem submit_idempotent_finishedRun :
    ∃ h, (commandMachine 2).run (commandMachine 2).start finishedRun = some h ∧
      (h.submit "o" (messageTo "b") "fresh" 5 false).1 = .ok () ∧
      Idempotent 2 (h.submit "o" (messageTo "b") "fresh" 5 false).2 "o" (messageTo "b") := by
  refine ⟨_, rfl, rfl, ?_⟩
  exact (@submit_idempotent_iff 2 _ "o" (messageTo "b") "fresh" 5 ⟨finishedRun, rfl⟩ rfl rfl rfl).mpr
    (Or.inl (by decide))

-- The retry with the same arguments is refused, and one that says more is taken for it.
theorem submit_conflicts_finishedRun :
    ∃ h h', (commandMachine 2).run (commandMachine 2).start finishedRun = some h ∧
      h.row "o" = none ∧ h.submit "o" (messageTo "a") "fresh" 5 false = (.ok (), h') ∧
      (h'.submit "o" (messageTo "a") "fresh" 6 false).1 = .error (.conductor .operationConflict) ∧
      (h'.submit "o" ((messageTo "a").set "reopen" (.bool true)) "fresh" 6 false).1 = .ok () ∧
      ¬Idempotent 2 h' "o" (messageTo "a") := by
  refine ⟨_, _, rfl, rfl, rfl, rfl, rfl, fun hidem => ?_⟩
  exact ((hidem [] _ rfl rfl).same (messageTo "a") "fresh" 6 false (by decide)).1 rfl

end GaHub.Conductor
