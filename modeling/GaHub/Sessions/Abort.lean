import GaHub.Sessions.Ownership

namespace GaHub.Sessions

open Lib

-- The run a call works for: its admitting call, later its watcher.
def Call.run : Call → Option RunId
  | .submit _ run _ => some run
  | .watcher _ run _ => some run
  | _ => none

-- Effects that say nothing about a run being taken, stopped or finished.
def Effect.Neutral : Effect → Prop
  | .submitCalled _ _ | .stopAccepted _ | .handleFinished _ => False
  | _ => True

theorem Effect.Silent.neutral {e : Effect} (h : e.Silent) : e.Neutral := by
  cases e <;> trivial

theorem RuntimeCall.neutral (c : RuntimeCall) : c.effect.Neutral := by cases c <;> trivial

-- Entries keep their runs; they become STARTING or ABORTING only by admission
-- or by an accepted stop.
structure Settles (co co' : SessionCoordinator) (run : Option RunId) : Prop where
  entries : ∀ s st', co'.activeBySession.get? s = some st' →
    ∃ st, co.activeBySession.get? s = some st ∧ st'.runId = st.runId ∧
      (st'.status = .starting → st.status = .starting) ∧
      (st'.status = .aborting → st.status = .aborting)
  others : ∀ s st, co.activeBySession.get? s = some st → (∀ r, run = some r → st.runId ≠ some r) →
    co'.activeBySession.get? s = some st

namespace Settles

variable {co co' : SessionCoordinator} {session : SessionId} {run : RunId}

theorem of_eq {run : Option RunId} (h : co'.activeBySession = co.activeBySession) :
    Settles co co' run :=
  ⟨fun _ st hs => ⟨st, h ▸ hs, rfl, id, id⟩, fun _ _ hs _ => h.symm ▸ hs⟩

theorem of_erase {active : RuntimeState} (hr : co.reservation session run = some active)
    (h : co'.activeBySession = co.activeBySession.erase session) : Settles co co' (some run) := by
  obtain ⟨ha, hid⟩ := reservation_eq_some hr
  refine ⟨fun s st hs => ?_, fun s st hs hne => ?_⟩
  · rw [h, Dict.get?_erase] at hs
    split at hs
    · cases hs
    · exact ⟨st, hs, rfl, id, id⟩
  · have hsn : s ≠ session := by
      rintro rfl
      cases hs.symm.trans ha
      exact hne run rfl hid
    rw [h, Dict.get?_erase_ne _ hsn]
    exact hs

theorem of_set {active st' : RuntimeState} (hr : co.reservation session run = some active)
    (h : co'.activeBySession = co.activeBySession.set session st') (hid' : st'.runId = some run)
    (hs : st'.status ≠ .starting) (hb : st'.status ≠ .aborting) : Settles co co' (some run) := by
  obtain ⟨ha, hid⟩ := reservation_eq_some hr
  refine ⟨fun s st hst => ?_, fun s st hst hne => ?_⟩
  · rw [h, Dict.get?_set] at hst
    split at hst
    · rename_i heq
      cases hst
      exact ⟨active, heq ▸ ha, hid'.trans hid.symm, fun h => absurd h hs, fun h => absurd h hb⟩
    · exact ⟨st, hst, rfl, id, id⟩
  · have hsn : s ≠ session := by
      rintro rfl
      cases hst.symm.trans ha
      exact hne run rfl hid
    rw [h, Dict.get?_set_ne _ _ hsn]
    exact hst

end Settles

section Turns

variable {w : World} {me : CallId} {o : Outcome} {call : Call} {t : Turn}

theorem CreationStep.active {co : SessionCoordinator} {fresh : Nat} {session : SessionId}
    {creation : Creation} {ct : CreationTurn} (h : CreationStep co fresh me session creation ct) :
    ct.co.activeBySession = co.activeBySession := by
  cases h <;> rfl

theorem SubmitStep.settles {session : SessionId} {run : RunId} {pc : SubmitPc}
    (h : SubmitStep w.co w.serial me w.calls.length session run pc t) :
    Settles w.co t.co (some run) := by
  cases h with
  | creating hc => exact .of_eq hc.active
  | settled hr _ => exact .of_erase hr rfl
  | running hr _ => exact .of_set hr rfl rfl (by simp) (by simp)
  | unwatched =>
      dsimp only [SessionCoordinator.rollbackWatcher]
      cases hr : w.co.reservation session run with
      | none => exact .of_eq rfl
      | some active => exact .of_erase hr rfl
  | released =>
      dsimp only [SessionCoordinator.releaseReservation]
      cases hr : w.co.reservation session run with
      | none => exact .of_eq rfl
      | some active => exact .of_erase hr rfl
  | _ => exact .of_eq rfl

theorem WatcherStep.settles {session : SessionId} {run : RunId} {pc : WatcherPc}
    (h : WatcherStep w.co me session run pc t) : Settles w.co t.co (some run) := by
  cases h with
  | moved _ => exact .of_eq rfl
  | expired hr _ hstate =>
      refine .of_set hr rfl ?_ ?_ ?_ <;> rw [hstate]
      · exact (reservation_eq_some hr).2
      · simp
      · simp
  | completed hr => exact .of_erase hr rfl
  | closed =>
      dsimp only [SessionCoordinator.closeWatcher]
      split <;> exact .of_eq rfl

theorem turn_settles (hshut : ∀ pc, call ≠ .shutdown pc) (h : call.next w me o = some t) :
    Settles w.co t.co call.run := by
  cases call with
  | submit session run pc => exact (submit_step h).settles
  | control session operation pc =>
      cases control_step h with
      | creating hct => exact .of_eq hct.active
      | left =>
          dsimp only [SessionCoordinator.leaveControl]
          split <;> exact .of_eq rfl
      | _ => exact .of_eq rfl
  | sideQuestion session pc =>
      cases btw_step h with
      | creating hct => exact .of_eq hct.active
      | _ => exact .of_eq rfl
  | ensureRuntime session creation =>
      obtain ⟨ct, hct, rfl⟩ := ensure_step h
      exact .of_eq hct.active
  | watcher session run pc => exact (watcher_step h).settles
  | worker job pc =>
      obtain ⟨pc', log, _, rfl⟩ := worker_step h
      exact .of_eq rfl
  | shutdown pc => exact absurd rfl (hshut pc)
  | done => cases h

theorem turn_keeps_runtime {capacity : Nat} (ha : Admitted capacity w) (ho : Owned w)
    (hres : Reserved w) (hcall : w.calls[me]? = some call) (hnext : call.next w me o = some t)
    {s : SessionId} {st : RuntimeState} {rt : RuntimeId}
    (hact : w.co.activeBySession.get? s = some st) (hget : w.co.runtimes.get? s = some rt) :
    t.co.runtimes.get? s = some rt := by
  have hctl : ∀ session operation pc, call = .control session operation pc → s ≠ session := by
    rintro session operation pc rfl rfl
    have hheld := hres.held _ (List.mem_of_getElem? hcall) s operation rfl
    rw [ha.apart s st hact] at hheld
    cases hheld
  cases hc : call.creation with
  | some sc =>
      obtain ⟨session, creation⟩ := sc
      obtain ⟨ct, hct, hco, _⟩ := creation_turn hc hnext
      rw [hco]
      cases hct with
      | installed hepoch _ =>
          have hne : s ≠ session := by
            rintro rfl
            rcases ho.vacant me s _ _ _ ⟨call, hcall, hc⟩ rfl with hnone | hlt
            · rw [hget] at hnone
              cases hnone
            · omega
          exact (Dict.get?_set_ne _ _ hne).trans hget
      | _ => exact hget
  | none =>
      cases other_turn hc hnext with
      | plain hco _ _ | requested hco _ _ => exact (congrArg (Dict.get? · s) hco.runtimes).trans hget
      | detached session _ _ hcall' hco _ _ =>
          refine (congrArg (Dict.get? · s) hco.runtimes).trans ((Dict.get?_erase_ne _ ?_).trans hget)
          exact hctl _ _ _ hcall'
      | bumped session _ _ _ _ hco _ _ => exact (congrArg (Dict.get? · s) hco.runtimes).trans hget
      | replaced session _ _ _ hcall' hco _ _ =>
          refine (congrArg (Dict.get? · s) hco.runtimes).trans ((Dict.get?_set_ne _ _ ?_).trans hget)
          exact hctl _ _ _ hcall'
      | cleared hactive _ _ _ =>
          have := Dict.mem_keys_of_get? hact
          rw [hactive] at this
          cases this

theorem turn_log (hshut : ∀ pc, call ≠ .shutdown pc) (h : call.next w me o = some t) :
    (∀ e ∈ t.log, e.Neutral) ∨
    (∃ s run rt, call = .submit s run (.begun rt) ∧
      t = { co := w.co, call := .submit s run (.submitting rt), log := [.submitCalled run rt] }) ∨
    ∃ s run st st', call = .watcher s run .completing ∧ w.co.reservation s run = some st ∧
      t = { co := (w.co.forgetAbort run).retire s st'
            call := .watcher s run (.announcing st')
            log := [.handleFinished run] } := by
  have hcreation : ∀ {session creation ct}, CreationStep w.co w.serial me session creation ct →
      ∀ e ∈ ct.log, e.Neutral := by
    intro session creation ct hct
    cases hct <;> simp [Effect.Neutral]
  cases call with
  | submit session run pc =>
      cases submit_step h with
      | creating hct => exact Or.inl (hcreation hct)
      | called => exact Or.inr (Or.inl ⟨session, run, _, rfl, rfl⟩)
      | failed _ _ hlog | ended _ hlog => exact Or.inl fun e he => (hlog e he).neutral
      | _ => exact Or.inl (by simp [Effect.Neutral])
  | control session operation pc =>
      refine Or.inl ?_
      cases control_step h with
      | creating hct => exact hcreation hct
      | worked _ =>
          intro e he
          simp only [Option.mem_toList, Option.map_eq_some_iff] at he
          obtain ⟨c, _, rfl⟩ := he
          exact c.neutral
      | detached | replaced =>
          intro e he
          rcases List.mem_cons.mp he with rfl | he
          · trivial
          · simp only [removal, Option.mem_toList, Option.map_eq_some_iff] at he
            obtain ⟨rt, _, rfl⟩ := he
            trivial
      | _ => simp [Effect.Neutral]
  | sideQuestion session pc =>
      refine Or.inl ?_
      cases btw_step h with
      | creating hct => exact hcreation hct
      | _ => simp
  | ensureRuntime session creation =>
      obtain ⟨ct, hct, rfl⟩ := ensure_step h
      exact Or.inl (hcreation hct)
  | watcher session run pc =>
      cases watcher_step h with
      | moved hlog => exact Or.inl fun e he => (hlog e he).neutral
      | completed hr => exact Or.inr (Or.inr ⟨session, run, _, _, rfl, hr, rfl⟩)
      | _ => exact Or.inl (by simp)
  | worker job pc =>
      obtain ⟨pc', log, hlog, rfl⟩ := worker_step h
      refine Or.inl fun e he => ?_
      rcases hlog with rfl | rfl
      · simp at he
      · rw [List.mem_singleton.mp he]
        exact job.neutral
  | shutdown pc => exact absurd rfl (hshut pc)
  | done => cases h

end Turns

-- What holds of the runs with an entry, and of the log of all runs.
structure Stops (w : World) : Prop where
  known : ∀ s st, w.co.activeBySession.get? s = some st → ∃ r, st.runId = some r ∧ r < w.serial
  distinct : ∀ s s' st st', w.co.activeBySession.get? s = some st →
    w.co.activeBySession.get? s' = some st' → st.runId = st'.runId → s = s'
  logged : ∀ r, (∃ rt, .submitCalled r rt ∈ w.log) ∨ .stopAccepted r ∈ w.log ∨
    .handleFinished r ∈ w.log → r < w.serial
  running : ∀ s st r rt, w.co.activeBySession.get? s = some st → st.runId = some r →
    .submitCalled r rt ∈ w.log → w.co.runtimes.get? s = some rt
  starting : ∀ s st r, w.co.activeBySession.get? s = some st → st.runId = some r →
    st.status = .starting → .stopAccepted r ∉ w.log
  aborting : ∀ s st r, w.co.activeBySession.get? s = some st → st.runId = some r →
    st.status = .aborting → .stopAccepted r ∈ w.log
  finished : ∀ s st r, w.co.activeBySession.get? s = some st → st.runId = some r →
    .handleFinished r ∉ w.log
  reached : ∀ r rt, .stopAccepted r ∈ w.log → .submitCalled r rt ∈ w.log →
    [.submitCalled r rt, .abortCalled rt].Sublist w.log
  inTime : ∀ r rt, .stopAccepted r ∈ w.log → .submitCalled r rt ∈ w.log → .handleFinished r ∈ w.log →
    [.submitCalled r rt, .abortCalled rt, .handleFinished r].Sublist w.log

theorem Stops.frame {w w' : World} (h : Stops w) {owner : Option RunId} {more : List Effect}
    (hset : Settles w.co w'.co owner)
    (hr : ∀ s st rt, w.co.activeBySession.get? s = some st → w.co.runtimes.get? s = some rt →
      w'.co.runtimes.get? s = some rt)
    (hlog : w'.log = w.log ++ more) (hmore : ∀ e ∈ more, e.Neutral) (hserial : w.serial ≤ w'.serial) :
    Stops w' := by
  have hold : ∀ {e : Effect}, e ∈ w'.log → ¬e.Neutral → e ∈ w.log := by
    intro e he hne
    rw [hlog] at he
    exact (List.mem_append.mp he).resolve_right fun hin => hne (hmore e hin)
  have hnew : ∀ {e : Effect}, e ∈ w.log → e ∈ w'.log := fun he => by
    rw [hlog]
    exact List.mem_append_left _ he
  refine ⟨fun s st' hs => ?_, fun s s' st st' hs hs' heq => ?_, fun r hmem => ?_,
    fun s st' r rt hs hid hmem => ?_, fun s st' r hs hid hst hmem => ?_,
    fun s st' r hs hid hst => ?_, fun s st' r hs hid hmem => ?_, fun r rt hstop hsub => ?_,
    fun r rt hstop hsub hfin => ?_⟩
  · obtain ⟨st, hst, hid, _⟩ := hset.entries s st' hs
    obtain ⟨r, hr, hlt⟩ := h.known s st hst
    exact ⟨r, hid.trans hr, Nat.lt_of_lt_of_le hlt hserial⟩
  · obtain ⟨st₀, hst, hid, _⟩ := hset.entries s st hs
    obtain ⟨st₁, hst', hid', _⟩ := hset.entries s' st' hs'
    exact h.distinct s s' st₀ st₁ hst hst' (hid.symm.trans (heq.trans hid'))
  · refine Nat.lt_of_lt_of_le (h.logged r ?_) hserial
    exact hmem.imp (fun ⟨rt, hin⟩ => ⟨rt, hold hin id⟩) (Or.imp (hold · id) (hold · id))
  · obtain ⟨st, hst, hid', _⟩ := hset.entries s st' hs
    exact hr s st rt hst (h.running s st r rt hst (hid'.symm.trans hid) (hold hmem id))
  · obtain ⟨st, hst, hid', hstart, _⟩ := hset.entries s st' hs
    exact h.starting s st r hst (hid'.symm.trans hid) (hstart ‹_›) (hold hmem id)
  · obtain ⟨st, hst', hid', _, hab⟩ := hset.entries s st' hs
    exact hnew (h.aborting s st r hst' (hid'.symm.trans hid) (hab hst))
  · obtain ⟨st, hst, hid', _⟩ := hset.entries s st' hs
    exact h.finished s st r hst (hid'.symm.trans hid) (hold hmem id)
  · rw [hlog]
    exact ordered_grow (h.reached r rt (hold hstop id) (hold hsub id))
  · rw [hlog]
    exact ordered_grow (h.inTime r rt (hold hstop id) (hold hsub id) (hold hfin id))

section Events

variable {w w' : World}

theorem Stops.admitted (h : Stops w) {session : SessionId} {st₀ : RuntimeState}
    (hid₀ : st₀.runId = some w.serial) (hst₀ : st₀.status ≠ .aborting)
    (hact : w'.co.activeBySession = w.co.activeBySession.set session st₀)
    (hr : w'.co.runtimes = w.co.runtimes) (hlog : w'.log = w.log)
    (hserial : w'.serial = w.serial + 1) : Stops w' := by
  have hcase : ∀ {s st}, w'.co.activeBySession.get? s = some st →
      (s = session ∧ st = st₀) ∨ w.co.activeBySession.get? s = some st := by
    intro s st hs
    rw [hact, Dict.get?_set] at hs
    split at hs
    · cases hs
      exact Or.inl ⟨‹_›, rfl⟩
    · exact Or.inr hs
  have hnew : ∀ {r}, (∃ rt, .submitCalled r rt ∈ w.log) ∨ .stopAccepted r ∈ w.log ∨
      .handleFinished r ∈ w.log → some w.serial ≠ some r := by
    intro r hmem heq
    have := h.logged r hmem
    cases heq
    exact Nat.lt_irrefl _ this
  have hfresh : ∀ {s st}, w.co.activeBySession.get? s = some st → st.runId ≠ some w.serial := by
    intro s st hs heq
    obtain ⟨r, hr, hlt⟩ := h.known s st hs
    cases hr.symm.trans heq
    exact Nat.lt_irrefl _ hlt
  rcases w' with ⟨co', calls', serial', log'⟩
  dsimp only at hact hr hlog hserial hcase ⊢
  subst hlog hserial
  refine ⟨fun s st hs => ?_, fun s s' st st' hs hs' heq => ?_, fun r hmem => ?_,
    fun s st r rt hs hid hmem => ?_, fun s st r hs hid hst hmem => ?_,
    fun s st r hs hid hst => ?_, fun s st r hs hid hmem => ?_, h.reached, h.inTime⟩
  · rcases hcase hs with ⟨_, rfl⟩ | hs
    · exact ⟨w.serial, hid₀, Nat.lt_succ_self _⟩
    · obtain ⟨r, hr, hlt⟩ := h.known s st hs
      exact ⟨r, hr, Nat.lt_succ_of_lt hlt⟩
  · rcases hcase hs with ⟨rfl, rfl⟩ | hs <;> rcases hcase hs' with ⟨rfl, rfl⟩ | hs'
    · rfl
    · exact absurd (heq.symm.trans hid₀) (hfresh hs')
    · exact absurd (heq.trans hid₀) (hfresh hs)
    · exact h.distinct s s' st st' hs hs' heq
  · exact Nat.lt_succ_of_lt (h.logged r hmem)
  · rw [hr]
    rcases hcase hs with ⟨_, rfl⟩ | hs
    · exact absurd (hid₀.symm.trans hid) (hnew (Or.inl ⟨rt, hmem⟩))
    · exact h.running s st r rt hs hid hmem
  · rcases hcase hs with ⟨_, rfl⟩ | hs
    · exact absurd (hid₀.symm.trans hid) (hnew (Or.inr (Or.inl hmem)))
    · exact h.starting s st r hs hid hst hmem
  · rcases hcase hs with ⟨_, rfl⟩ | hs
    · exact absurd hst hst₀
    · exact h.aborting s st r hs hid hst
  · rcases hcase hs with ⟨_, rfl⟩ | hs
    · exact absurd (hid₀.symm.trans hid) (hnew (Or.inr (Or.inr hmem)))
    · exact h.finished s st r hs hid hmem

theorem Stops.called (h : Stops w) {session : SessionId} {active : RuntimeState} {run : RunId}
    {runtime : RuntimeId} (hact : w.co.activeBySession.get? session = some active)
    (hid : active.runId = some run) (hst : active.status = .starting)
    (hr : w.co.runtimes.get? session = some runtime) (hco : w'.co = w.co)
    (hlog : w'.log = w.log ++ [.submitCalled run runtime]) (hserial : w.serial ≤ w'.serial) :
    Stops w' := by
  have hold : ∀ {e : Effect}, e ∈ w'.log → e ≠ .submitCalled run runtime → e ∈ w.log := by
    intro e he hne
    rw [hlog] at he
    exact (List.mem_append.mp he).resolve_right fun hin => hne (List.mem_singleton.mp hin)
  have hnew : ∀ {e : Effect}, e ∈ w.log → e ∈ w'.log := fun he => by
    rw [hlog]
    exact List.mem_append_left _ he
  -- no stop of this run has been accepted
  have hfree : ∀ {r rt}, .stopAccepted r ∈ w'.log → .submitCalled r rt ∈ w'.log →
      .stopAccepted r ∈ w.log ∧ .submitCalled r rt ∈ w.log := by
    intro r rt hstop hsub
    have hstop' := hold hstop (by simp)
    refine ⟨hstop', hold hsub fun heq => ?_⟩
    obtain ⟨rfl, rfl⟩ := Effect.submitCalled.inj heq
    exact h.starting session active _ hact hid hst hstop'
  refine ⟨fun s st hs => ?_, fun s s' st st' hs hs' => ?_, fun r hmem => ?_,
    fun s st r rt hs hid' hmem => ?_, fun s st r hs hid' hst' hmem => ?_,
    fun s st r hs hid' hst' => ?_, fun s st r hs hid' hmem => ?_, fun r rt hstop hsub => ?_,
    fun r rt hstop hsub hfin => ?_⟩
  · rw [hco] at hs
    obtain ⟨r, hr, hlt⟩ := h.known s st hs
    exact ⟨r, hr, Nat.lt_of_lt_of_le hlt hserial⟩
  · rw [hco] at hs hs'
    exact h.distinct s s' st st' hs hs'
  · refine Nat.lt_of_lt_of_le ?_ hserial
    by_cases heq : r = run
    · obtain ⟨r', hr', hlt⟩ := h.known session active hact
      cases hid.symm.trans hr'
      exact heq ▸ hlt
    · refine h.logged r (hmem.imp (Exists.imp fun rt hin => hold hin ?_) (Or.imp (hold · ?_) (hold · ?_))) <;>
        simp [heq]
  · rw [hco] at hs ⊢
    by_cases heq : r = run
    · subst heq
      have hs' := h.distinct s session st active hs hact (hid'.trans hid.symm)
      subst hs'
      by_cases hrt : rt = runtime
      · exact hrt ▸ hr
      · exact h.running s st r rt hs hid' (hold hmem (by simp [hrt]))
    · exact h.running s st r rt hs hid' (hold hmem (by simp [heq]))
  · rw [hco] at hs
    exact h.starting s st r hs hid' hst' (hold hmem (by simp))
  · rw [hco] at hs
    exact hnew (h.aborting s st r hs hid' hst')
  · rw [hco] at hs
    exact h.finished s st r hs hid' (hold hmem (by simp))
  · obtain ⟨hstop', hsub'⟩ := hfree hstop hsub
    rw [hlog]
    exact ordered_grow (h.reached r rt hstop' hsub')
  · obtain ⟨hstop', hsub'⟩ := hfree hstop hsub
    rw [hlog]
    exact ordered_grow (h.inTime r rt hstop' hsub' (hold hfin (by simp)))

theorem Stops.completed (h : Stops w) {session : SessionId} {active : RuntimeState} {run : RunId}
    (hact : w.co.activeBySession.get? session = some active) (hid : active.runId = some run)
    (hact' : w'.co.activeBySession = w.co.activeBySession.erase session)
    (hr : w'.co.runtimes = w.co.runtimes) (hlog : w'.log = w.log ++ [.handleFinished run])
    (hserial : w.serial ≤ w'.serial) : Stops w' := by
  have hold : ∀ {e : Effect}, e ∈ w'.log → e ≠ .handleFinished run → e ∈ w.log := by
    intro e he hne
    rw [hlog] at he
    exact (List.mem_append.mp he).resolve_right fun hin => hne (List.mem_singleton.mp hin)
  have hnew : ∀ {e : Effect}, e ∈ w.log → e ∈ w'.log := fun he => by
    rw [hlog]
    exact List.mem_append_left _ he
  have hrest : ∀ {s st}, w'.co.activeBySession.get? s = some st →
      s ≠ session ∧ w.co.activeBySession.get? s = some st := by
    intro s st hs
    rw [hact', Dict.get?_erase] at hs
    split at hs
    · cases hs
    · exact ⟨‹_›, hs⟩
  refine ⟨fun s st hs => ?_, fun s s' st st' hs hs' => ?_, fun r hmem => ?_,
    fun s st r rt hs hid' hmem => ?_, fun s st r hs hid' hst' hmem => ?_,
    fun s st r hs hid' hst' => ?_, fun s st r hs hid' hmem => ?_, fun r rt hstop hsub => ?_,
    fun r rt hstop hsub hfin => ?_⟩
  · obtain ⟨r, hr, hlt⟩ := h.known s st (hrest hs).2
    exact ⟨r, hr, Nat.lt_of_lt_of_le hlt hserial⟩
  · exact h.distinct s s' st st' (hrest hs).2 (hrest hs').2
  · refine Nat.lt_of_lt_of_le ?_ hserial
    by_cases heq : r = run
    · obtain ⟨r', hr', hlt⟩ := h.known session active hact
      cases hid.symm.trans hr'
      exact heq ▸ hlt
    · refine h.logged r (hmem.imp (Exists.imp fun rt hin => hold hin ?_) (Or.imp (hold · ?_) (hold · ?_))) <;>
        simp [heq]
  · rw [hr]
    exact h.running s st r rt (hrest hs).2 hid' (hold hmem (by simp))
  · exact h.starting s st r (hrest hs).2 hid' hst' (hold hmem (by simp))
  · exact hnew (h.aborting s st r (hrest hs).2 hid' hst')
  · obtain ⟨hne, hs'⟩ := hrest hs
    refine h.finished s st r hs' hid' (hold hmem fun heq => hne ?_)
    cases heq
    exact h.distinct s session st active hs' hact (hid'.trans hid.symm)
  · rw [hlog]
    exact ordered_grow (h.reached r rt (hold hstop (by simp)) (hold hsub (by simp)))
  · have hstop' := hold hstop (by simp)
    have hsub' := hold hsub (by simp)
    rw [hlog]
    by_cases heq : r = run
    · subst heq
      exact triple_of_mem (h.reached r rt hstop' hsub') (List.mem_singleton.mpr rfl)
    · exact ordered_grow (h.inTime r rt hstop' hsub' (hold hfin (by simp [heq])))

theorem Stops.again (h : Stops w) {more : List Effect} (hco : w'.co = w.co)
    (hlog : w'.log = w.log ++ more) (hmore : ∀ e ∈ more, ∃ r, e = .stopAccepted r ∧ e ∈ w.log)
    (hserial : w'.serial = w.serial) : Stops w' := by
  have hiff : ∀ {e : Effect}, e ∈ w'.log ↔ e ∈ w.log := by
    intro e
    rw [hlog, List.mem_append]
    refine ⟨fun he => he.elim id fun hin => ?_, Or.inl⟩
    obtain ⟨r, _, hmem⟩ := hmore e hin
    exact hmem
  have hgrow : ∀ {xs : List Effect}, xs.Sublist w.log → xs.Sublist w'.log := fun hsub => by
    rw [hlog]
    exact ordered_grow hsub
  obtain ⟨co', calls', serial', log'⟩ := w'
  dsimp only at hco hserial hiff hgrow
  subst hco hserial
  exact ⟨h.known, h.distinct,
    fun r hmem => h.logged r (hmem.imp (fun ⟨rt, hin⟩ => ⟨rt, hiff.mp hin⟩) (Or.imp hiff.mp hiff.mp)),
    fun s st r rt hs hid hmem => h.running s st r rt hs hid (hiff.mp hmem),
    fun s st r hs hid hst hmem => h.starting s st r hs hid hst (hiff.mp hmem),
    fun s st r hs hid hst => hiff.mpr (h.aborting s st r hs hid hst),
    fun s st r hs hid hmem => h.finished s st r hs hid (hiff.mp hmem),
    fun r rt hstop hsub => hgrow (h.reached r rt (hiff.mp hstop) (hiff.mp hsub)),
    fun r rt hstop hsub hfin => hgrow (h.inTime r rt (hiff.mp hstop) (hiff.mp hsub) (hiff.mp hfin))⟩

-- A stop marks the entry and calls `abort` on the installed runtime, which is
-- the one that took the run if any did.
theorem Stops.marked (h : Stops w) {session : SessionId} {active st' : RuntimeState} {run : RunId}
    (hact : w.co.activeBySession.get? session = some active) (hid : active.runId = some run)
    (hid' : st'.runId = some run) (hst' : st'.status = .aborting)
    (hact' : w'.co.activeBySession = w.co.activeBySession.set session st')
    (hr : w'.co.runtimes = w.co.runtimes)
    (hlog : w'.log = w.log ++
      (((w.co.runtimes.get? session).map Effect.abortCalled).toList ++ [.stopAccepted run]))
    (hserial : w'.serial = w.serial) : Stops w' := by
  have hcase : ∀ {s st}, w'.co.activeBySession.get? s = some st →
      (s = session ∧ st = st') ∨ (s ≠ session ∧ w.co.activeBySession.get? s = some st) := by
    intro s st hs
    rw [hact', Dict.get?_set] at hs
    split at hs
    · cases hs
      exact Or.inl ⟨‹_›, rfl⟩
    · exact Or.inr ⟨‹_›, hs⟩
  have hother : ∀ {s st r}, s ≠ session → w.co.activeBySession.get? s = some st →
      st.runId = some r → r ≠ run := by
    rintro s st r hne hs hid₁ rfl
    exact hne (h.distinct s session st active hs hact (hid₁.trans hid.symm))
  have hold : ∀ {e : Effect}, e ∈ w'.log → (∀ rt, e ≠ .abortCalled rt) → e ≠ .stopAccepted run →
      e ∈ w.log := by
    intro e he hab hne
    rw [hlog] at he
    rcases List.mem_append.mp he with he | he
    · exact he
    · rcases List.mem_append.mp he with he | he
      · simp only [Option.mem_toList, Option.map_eq_some_iff] at he
        obtain ⟨rt, _, rfl⟩ := he
        exact absurd rfl (hab rt)
      · exact absurd (List.mem_singleton.mp he) hne
  have hnew : ∀ {e : Effect}, e ∈ w.log → e ∈ w'.log := fun he => by
    rw [hlog]
    exact List.mem_append_left _ he
  obtain ⟨r₀, hr₀, hlt₀⟩ := h.known session active hact
  cases hid.symm.trans hr₀
  refine ⟨fun s st hs => ?_, fun s s' st st₁ hs hs' heq => ?_, fun r hmem => ?_,
    fun s st r rt hs hid₁ hmem => ?_, fun s st r hs hid₁ hst hmem => ?_,
    fun s st r hs hid₁ hst => ?_, fun s st r hs hid₁ hmem => ?_, fun r rt hstop hsub => ?_,
    fun r rt hstop hsub hfin => ?_⟩
  · rw [hserial]
    rcases hcase hs with ⟨_, rfl⟩ | ⟨_, hs⟩
    · exact ⟨run, hid', hlt₀⟩
    · exact h.known s st hs
  · rcases hcase hs with ⟨rfl, rfl⟩ | ⟨hne, hs⟩ <;> rcases hcase hs' with ⟨rfl, rfl⟩ | ⟨hne', hs'⟩
    · rfl
    · exact absurd rfl (hother hne' hs' (heq.symm.trans hid'))
    · exact absurd rfl (hother hne hs (heq.trans hid'))
    · exact h.distinct s s' st st₁ hs hs' heq
  · rw [hserial]
    by_cases heq : r = run
    · exact heq ▸ hlt₀
    · refine h.logged r (hmem.imp (Exists.imp fun rt hin => hold hin ?_ ?_)
        (Or.imp (hold · ?_ ?_) (hold · ?_ ?_))) <;> simp [heq]
  · rw [hr]
    have hmem' := hold hmem (by simp) (by simp)
    rcases hcase hs with ⟨rfl, rfl⟩ | ⟨_, hs⟩
    · exact h.running s active r rt hact (hid.trans (hid'.symm.trans hid₁)) hmem'
    · exact h.running s st r rt hs hid₁ hmem'
  · rcases hcase hs with ⟨_, rfl⟩ | ⟨hne, hs⟩
    · rw [hst'] at hst
      cases hst
    · exact h.starting s st r hs hid₁ hst (hold hmem (by simp) (by simp [hother hne hs hid₁]))
  · rcases hcase hs with ⟨_, rfl⟩ | ⟨hne, hs⟩
    · cases hid'.symm.trans hid₁
      rw [hlog]
      simp
    · exact hnew (h.aborting s st r hs hid₁ hst)
  · have hmem' := hold hmem (by simp) (by simp)
    rcases hcase hs with ⟨_, rfl⟩ | ⟨_, hs⟩
    · exact h.finished session active r hact (hid.trans (hid'.symm.trans hid₁)) hmem'
    · exact h.finished s st r hs hid₁ hmem'
  · have hsub' := hold hsub (by simp) (by simp)
    by_cases heq : r = run
    · subst heq
      have hrun := h.running session active r rt hact hid hsub'
      rw [hlog, hrun]
      exact pair_of_mem hsub' (by simp)
    · rw [hlog]
      exact ordered_grow (h.reached r rt (hold hstop (by simp) (by simp [heq])) hsub')
  · have hsub' := hold hsub (by simp) (by simp)
    have hfin' := hold hfin (by simp) (by simp)
    by_cases heq : r = run
    · subst heq
      exact absurd hfin' (h.finished session active r hact hid)
    · rw [hlog]
      exact ordered_grow (h.inTime r rt (hold hstop (by simp) (by simp [heq])) hsub' hfin')

theorem Stops.abort (h : Stops w) {session : SessionId} {active : RuntimeState}
    (hact : w.co.activeBySession.get? session = some active) (hname : active.sessionId = session)
    {raises : Bool} (hstep : AbortStep w active raises w') : Stops w' := by
  cases hstep with
  | raised =>
      have hset : Settles w.co w.co none := .of_eq rfl
      refine h.frame hset (fun _ _ _ _ => id) rfl (fun e he => ?_) (Nat.le_refl _)
      simp only [abortCalls, Option.mem_toList, Option.map_eq_some_iff] at he
      obtain ⟨rt, _, rfl⟩ := he
      trivial
  | again _ hlog =>
      refine h.again rfl rfl (fun e he => ?_) rfl
      obtain ⟨run, rfl, hr, hst⟩ := hlog e he
      exact ⟨run, rfl, h.aborting session active run hact hr hst⟩
  | marked hs hr hstate =>
      subst hname
      refine h.marked hact hr (by rw [hstate]; exact hr) (by rw [hstate]) rfl rfl ?_ rfl
      simp only [abortCalls, SessionCoordinator.abortTarget, hs, Bool.false_eq_true, if_false]

end Events

end GaHub.Sessions
