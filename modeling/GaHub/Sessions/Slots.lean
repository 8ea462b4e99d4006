import GaHub.Sessions.Abort

namespace GaHub.Sessions

open Lib

-- The run a call serves: `submit_stream` and the watcher thread carry its id.
def Call.serves : Call → Option (SessionId × RunId)
  | .submit session run _ => some (session, run)
  | .watcher session run _ => some (session, run)
  | _ => none

-- Up to the step in which it gives the entry of the run back, or hands it on.
def Call.holds : Call → Option (SessionId × RunId)
  | .submit _ _ (.settled _ _) => none
  | .watcher _ _ (.announcing _) => none
  | .watcher _ _ .closing => none
  | call => call.serves

theorem Call.serves_of_holds {call : Call} {own : SessionId × RunId} (h : call.holds = some own) : call.serves = some own := by
  unfold Call.holds at h
  split at h <;> first
    | cases h
    | exact h

-- An exception here ends the call, and nobody is left to drop the entry.
def Call.abandons (co : SessionCoordinator) : Call → Bool
  | .submit session run .failing => (co.reservation session run).isSome
  | .watcher session run (.notifying _) => (co.reservation session run).isSome
  | .watcher session run .completing => (co.reservation session run).isSome
  | _ => false

def Contained (w : World) : Action → Prop
  | .step me .raises => ∀ call ∈ w.calls[me]?, call.abandons w.co = false
  | _ => True

instance (w : World) (a : Action) : Decidable (Contained w a) := by
  unfold Contained
  split <;> infer_instance

-- What a call that serves `own` does to the entries: it changes no run id,
-- and drops no entry but that of its own run.
structure Edits (co co' : SessionCoordinator) (own : Option (SessionId × RunId)) : Prop where
  old : ∀ s st', co'.activeBySession.get? s = some st' →
    ∃ st, co.activeBySession.get? s = some st ∧ st'.runId = st.runId
  kept : ∀ s st, co.activeBySession.get? s = some st →
    (∃ st', co'.activeBySession.get? s = some st' ∧ st'.runId = st.runId) ∨
      ∃ run, own = some (s, run) ∧ st.runId = some run

namespace Edits

variable {co co' : SessionCoordinator} {own : Option (SessionId × RunId)}

theorem of_eq (hact : co'.activeBySession = co.activeBySession) : Edits co co' own :=
  ⟨fun _ st h => ⟨st, hact ▸ h, rfl⟩, fun _ st h => .inl ⟨st, hact ▸ h, rfl⟩⟩

theorem of_set {session : SessionId} {st st' : RuntimeState} (hact : co'.activeBySession = co.activeBySession.set session st')
    (hs : co.activeBySession.get? session = some st) (hrun : st'.runId = st.runId) : Edits co co' own := by
  refine ⟨fun s found h => ?_, fun s found h => .inl ?_⟩
  · rw [hact] at h
    by_cases hne : s = session
    · subst hne
      rw [Dict.get?_set_self] at h
      cases h
      exact ⟨st, hs, hrun⟩
    · rw [Dict.get?_set_ne _ _ hne] at h
      exact ⟨found, h, rfl⟩
  · rw [hact]
    by_cases hne : s = session
    · subst hne
      rw [hs] at h
      cases h
      exact ⟨st', Dict.get?_set_self _ _ _, hrun⟩
    · exact ⟨found, by rw [Dict.get?_set_ne _ _ hne, h], rfl⟩

theorem of_retire {session : SessionId} {run : RunId} {st : RuntimeState}
    (hact : co'.activeBySession = co.activeBySession.erase session) (hr : co.reservation session run = some st) :
    Edits co co' (some (session, run)) := by
  obtain ⟨hs, hrun⟩ := reservation_eq_some hr
  refine ⟨fun s found h => ?_, fun s found h => ?_⟩
  · rw [hact, Dict.get?_erase] at h
    split at h
    · cases h
    · exact ⟨found, h, rfl⟩
  · by_cases hne : s = session
    · subst hne
      rw [hs] at h
      cases h
      exact .inr ⟨run, rfl, hrun⟩
    · exact .inl ⟨found, by rw [hact, Dict.get?_erase_ne _ hne, h], rfl⟩

end Edits

section Turns

variable {co : SessionCoordinator} {fresh : Nat} {me spawnId : CallId} {session : SessionId} {run : RunId}

theorem SubmitStep.edits {pc : SubmitPc} {t : Turn} (h : SubmitStep co fresh me spawnId session run pc t) :
    Edits co t.co (some (session, run)) := by
  cases h with
  | creating hc => exact .of_eq hc.active
  | settled hr _ => exact .of_retire rfl hr
  | running hr _ =>
      obtain ⟨hs, hrun⟩ := reservation_eq_some hr
      exact .of_set rfl hs hrun.symm
  | unwatched =>
      dsimp only [SessionCoordinator.rollbackWatcher]
      split
      · rename_i hsome
        obtain ⟨st, hr⟩ := Option.isSome_iff_exists.mp hsome
        exact .of_retire rfl hr
      · exact .of_eq rfl
  | released =>
      dsimp only [SessionCoordinator.releaseReservation]
      split
      · rename_i hsome
        obtain ⟨st, hr⟩ := Option.isSome_iff_exists.mp hsome
        exact .of_retire rfl hr
      · exact .of_eq rfl
  | _ => exact .of_eq rfl

theorem WatcherStep.edits {pc : WatcherPc} {t : Turn} (h : WatcherStep co me session run pc t) :
    Edits co t.co (some (session, run)) := by
  cases h with
  | moved _ => exact .of_eq rfl
  | expired hr _ hstate => exact .of_set rfl (reservation_eq_some hr).1 (by rw [hstate])
  | completed hr => exact .of_retire rfl hr
  | closed =>
      dsimp only [SessionCoordinator.closeWatcher]
      split <;> exact .of_eq rfl

theorem ControlStep.same_entries {operation : String} {pc : ControlPc} {t : Turn}
    (h : ControlStep co fresh me session operation pc t) : t.co.activeBySession = co.activeBySession := by
  cases h with
  | creating hc => exact hc.active
  | left =>
      dsimp only [SessionCoordinator.leaveControl]
      split <;> rfl
  | _ => rfl

theorem BtwStep.same_entries {pc : BtwPc} {t : Turn} (h : BtwStep co fresh me session pc t) :
    t.co.activeBySession = co.activeBySession := by
  cases h with
  | creating hc => exact hc.active
  | answered => rfl
  | left => rfl

theorem ShutdownStep.edits {pc : ShutdownPc} {t : Turn} (h : ShutdownStep co pc t) : Edits co t.co none := by
  cases h with
  | requested => exact .of_eq rfl
  | marked hc _ _ _ hstate => exact .of_set rfl hc (by rw [hstate])
  | moved hco _ => exact .of_eq hco.active
  | ended hco _ _ => exact .of_eq hco.active
  | cleared _ hco => exact .of_eq hco.active

end Turns

theorem turn_edits {w : World} {me : CallId} {o : Outcome} {call : Call} {t : Turn} (h : call.next w me o = some t) :
    Edits w.co t.co call.serves := by
  cases call with
  | submit session run pc => exact (submit_step h).edits
  | control session operation pc => exact .of_eq (control_step h).same_entries
  | sideQuestion session pc => exact .of_eq (btw_step h).same_entries
  | ensureRuntime session creation =>
      obtain ⟨ct, hct, rfl⟩ := ensure_step h
      exact .of_eq hct.active
  | watcher session run pc => exact (watcher_step h).edits
  | worker job pc =>
      obtain ⟨_, _, _, rfl⟩ := worker_step h
      exact .of_eq rfl
  | shutdown pc => exact (shutdown_step h).edits
  | done => cases h

-- The entry of a run is not there any more.
def Vacated (co : SessionCoordinator) (session : SessionId) (run : RunId) : Prop :=
  ∀ st, co.activeBySession.get? session = some st → st.runId ≠ some run

theorem vacated_of_reservation {co : SessionCoordinator} {session : SessionId} {run : RunId}
    (h : co.reservation session run = none) : Vacated co session run := by
  intro st hs hrun
  rw [SessionCoordinator.reservation, hs] at h
  simp [hrun] at h

theorem vacated_of_erase {co : SessionCoordinator} {session : SessionId} {run : RunId} {entries : Dict SessionId RuntimeState}
    (h : co.activeBySession = entries.erase session) : Vacated co session run := by
  intro st hs
  rw [h, Dict.get?_erase_self] at hs
  cases hs

theorem vacated_dropped (co : SessionCoordinator) (session : SessionId) (run : RunId) (st : RuntimeState) :
    Vacated (if (co.reservation session run).isSome then co.retire session st else co) session run := by
  split
  · exact vacated_of_erase rfl
  · rename_i hnone
    exact vacated_of_reservation (by simpa using hnone)

section Holding

variable {co : SessionCoordinator} {fresh : Nat} {me spawnId : CallId} {session : SessionId} {run : RunId}

-- Whoever holds an entry goes on holding it, hands it to the watcher it starts, or has dropped it.
inductive Passes (session : SessionId) (run : RunId) (t : Turn) : Prop where
  | keeps (hcall : t.call.holds = some (session, run))
  | hands (call : Call) (hspawned : t.spawned = some call) (hcall : call.holds = some (session, run))
  | drops (hvacated : Vacated t.co session run)

theorem submit_passes {pc : SubmitPc} {o : Outcome} {t : Turn} (h : submitNext co fresh me spawnId session run pc o = some t)
    (hholds : (Call.submit session run pc).holds = some (session, run))
    (hcontained : o = .raises → (Call.submit session run pc).abandons co = false) : Passes session run t := by
  unfold submitNext at h
  split at h
  · obtain ⟨ct, _, rfl⟩ := Option.map_eq_some_iff.mp h
    refine .keeps ?_
    simp only [CreationTurn.turn]
    split <;> rfl
  · cases h
    refine .keeps ?_
    dsimp only
    split <;> rfl
  · unfold SessionCoordinator.finishAbortedStart at h
    cases hr : co.reservation session run with
    | none =>
        simp only [hr] at h
        cases h
        exact .drops (vacated_of_reservation hr)
    | some active =>
        simp only [hr] at h
        cases h
        exact .drops (vacated_of_erase rfl)
  · cases hholds
  · cases h
    exact .keeps rfl
  · cases h
    exact .keeps rfl
  · cases h
    exact .keeps rfl
  · cases h
    exact .keeps rfl
  · cases h
    exact .keeps rfl
  · unfold SessionCoordinator.promote at h
    cases hr : co.reservation session run with
    | none =>
        simp only [hr] at h
        cases h
        exact .drops (vacated_of_reservation hr)
    | some active =>
        simp only [hr] at h
        by_cases hs : active.status = .starting
        · rw [if_pos hs] at h
          cases h
          exact .keeps rfl
        · rw [if_neg hs] at h
          cases h
          exact .keeps rfl
  · cases h
    exact .hands _ rfl rfl
  · cases h
    exact .drops (vacated_dropped co session run _)
  · cases h
    exact .keeps rfl
  · cases h
    exact .drops (vacated_of_reservation (by simpa [Call.abandons] using hcontained rfl))
  · cases h
    exact .drops (vacated_dropped co session run _)
  · cases h

theorem watcher_passes {pc : WatcherPc} {o : Outcome} {t : Turn} (h : watcherNext co me session run pc o = some t)
    (hholds : (Call.watcher session run pc).holds = some (session, run))
    (hcontained : o = .raises → (Call.watcher session run pc).abandons co = false) : Passes session run t := by
  unfold watcherNext at h
  split at h
  · split at h
    · cases h
      exact .keeps rfl
    · cases h
      exact .keeps rfl
  · cases h
    exact .keeps rfl
  · obtain ⟨⟨returned, log⟩, ha, rfl⟩ := Option.map_eq_some_iff.mp h
    cases returned with
    | true => exact .keeps rfl
    | false =>
        -- only an exception of the callback
        unfold announce at ha
        split at ha
        · cases ha
        · exact .drops (vacated_of_reservation (by simpa [Call.abandons] using hcontained rfl))
        · cases ha
  · unfold SessionCoordinator.complete at h
    cases hr : co.reservation session run with
    | none =>
        simp only [hr] at h
        cases h
        exact .drops (vacated_of_reservation hr)
    | some active =>
        simp only [hr] at h
        cases h
        exact .drops (vacated_of_erase rfl)
  · split at h
    · cases h
      exact .drops (vacated_of_reservation (by simpa [Call.abandons] using hcontained rfl))
    · cases h
  · cases hholds
  · cases hholds
  · cases h

end Holding

theorem turn_passes {w : World} {me : CallId} {o : Outcome} {call : Call} {t : Turn} {session : SessionId} {run : RunId}
    (h : call.next w me o = some t) (hholds : call.holds = some (session, run))
    (hcontained : o = .raises → call.abandons w.co = false) : Passes session run t := by
  have hrun := Call.serves_of_holds hholds
  cases call with
  | submit s r pc =>
      cases hrun
      exact submit_passes h hholds hcontained
  | watcher s r pc =>
      cases hrun
      exact watcher_passes h hholds hcontained
  | control _ _ _ | sideQuestion _ _ | ensureRuntime _ _ | worker _ _ | shutdown _ | done => cases hrun

def Occupied (w : World) : Prop :=
  ∀ s st, w.co.activeBySession.get? s = some st →
    ∃ (run : RunId) (i : CallId) (call : Call), st.runId = some run ∧ w.calls[i]? = some call ∧ call.holds = some (s, run)

theorem Occupied.turn {w : World} (hw : Occupied w) {me : CallId} {o : Outcome} {call : Call} {t : Turn}
    (hcall : w.calls[me]? = some call) (h : call.next w me o = some t) (hcontained : Contained w (.step me o)) :
    Occupied (w.turn me t) := by
  have hraises : o = .raises → call.abandons w.co = false := by
    rintro rfl
    exact hcontained call hcall
  intro s st' hs
  obtain ⟨st, hst, hsame⟩ := (turn_edits h).old s st' hs
  obtain ⟨run, i, holder, hrun, hi, hholds⟩ := hw s st hst
  by_cases hme : i = me
  · subst hme
    rw [hcall] at hi
    cases hi
    cases turn_passes h hholds hraises with
    | keeps hkept => exact ⟨run, i, t.call, hsame.trans hrun, replaceSlot_self hcall, hkept⟩
    | hands watcher hspawned hwatches =>
        refine ⟨run, w.calls.length, watcher, hsame.trans hrun, ?_, hwatches⟩
        simp only [World.turn]
        rw [hspawned]
        exact replaceSlot_added _ _ _ _
    | drops hvacated => exact absurd (hsame.trans hrun) (hvacated st' hs)
  · exact ⟨run, i, holder, hsame.trans hrun, replaceSlot_ne hme hi, hholds⟩

theorem Occupied.mono {w w' : World} (hw : Occupied w) (hentries : Edits w.co w'.co none)
    (hcalls : ∀ (i : CallId) (call : Call), w.calls[i]? = some call → w'.calls[i]? = some call) : Occupied w' := by
  intro s st' hs
  obtain ⟨st, hst, hsame⟩ := hentries.old s st' hs
  obtain ⟨run, i, holder, hrun, hi, hholds⟩ := hw s st hst
  exact ⟨run, i, holder, hsame.trans hrun, hcalls i holder hi, hholds⟩

theorem append_kept {calls : List Call} {i : CallId} {call : Call} (new : Call) (h : calls[i]? = some call) :
    (calls ++ [new])[i]? = some call := by
  rw [List.getElem?_append_left (List.getElem?_eq_some_iff.mp h).1]
  exact h

theorem AbortStep.edits {w w' : World} {session : SessionId} {active : RuntimeState} {raises : Bool}
    (h : AbortStep w active raises w') (ha : w.co.activeBySession.get? session = some active)
    (hid : active.sessionId = session) : Edits w.co w'.co none ∧ w'.calls = w.calls := by
  cases h with
  | raised => exact ⟨.of_eq rfl, rfl⟩
  | again _ _ => exact ⟨.of_eq rfl, rfl⟩
  | marked _ hr hstate _ =>
      rw [← hid] at ha
      exact ⟨.of_set rfl ha (by rw [hstate]), rfl⟩

theorem Occupied.next {capacity : Nat} {w w' : World} {a : Action} (hw : Occupied w) (hadmitted : Admitted capacity w)
    (hcontained : Contained w a) (h : w.next a = some w') : Occupied w' := by
  cases world_step h with
  | refused => exact hw
  | @admitted session _ hfree _ =>
      intro s st hs
      by_cases hne : s = session
      · subst hne
        simp only [SessionCoordinator.project] at hs
        rw [Dict.get?_set_self] at hs
        cases hs
        exact ⟨w.serial, w.calls.length, _, rfl, List.getElem?_concat_length, rfl⟩
      · simp only [SessionCoordinator.project] at hs
        rw [Dict.get?_set_ne _ _ hne] at hs
        obtain ⟨run, i, call, hrun, hi, hholds⟩ := hw s st hs
        exact ⟨run, i, call, hrun, append_kept _ hi, hholds⟩
  | controlled _ _ _ _ => exact hw.mono (.of_eq rfl) fun i call hi => append_kept _ hi
  | asked _ => exact hw.mono (.of_eq rfl) fun i call hi => append_kept _ hi
  | ensured => exact hw.mono (.of_eq rfl) fun i call hi => append_kept _ hi
  | stopping => exact hw.mono (.of_eq rfl) fun i call hi => append_kept _ hi
  | aborted ha habort _ =>
      obtain ⟨hedits, hcalls⟩ := habort.edits ha (hadmitted.named _ _ ha)
      exact hw.mono hedits fun i call hi => hcalls ▸ hi
  | routed => exact hw.mono (.of_eq rfl) fun i call hi => hi
  | stepped hcall hnext => exact hw.turn hcall hnext hcontained

theorem reachable_occupied {capacity : Nat} {abortTimeout : Time} {w : World}
    (hw : ((sessionMachine capacity abortTimeout).restrict Contained).Reachable w) : Occupied w :=
  hw.invariant_with (fun h => reachable_admitted h.of_restrict)
    (fun s st hs => by simp [sessionMachine, Machine.restrict] at hs)
    fun w a w' hw hadmitted h => by
      obtain ⟨hcontained, hnext⟩ := Machine.restrict_next h
      exact hw.next hadmitted hcontained hnext

theorem next_removes {capacity : Nat} {w w' : World} {a : Action} (hadmitted : Admitted capacity w)
    (h : w.next a = some w') {s : SessionId} {st : RuntimeState} (hs : w.co.activeBySession.get? s = some st) :
    (∃ st', w'.co.activeBySession.get? s = some st' ∧ st'.runId = st.runId) ∨
      ∃ me o call run, a = .step me o ∧ w.calls[me]? = some call ∧ call.serves = some (s, run) ∧ st.runId = some run := by
  have hnone : ∀ {co' : SessionCoordinator}, Edits w.co co' none →
      ∃ st', co'.activeBySession.get? s = some st' ∧ st'.runId = st.runId := by
    intro co' hedits
    rcases hedits.kept s st hs with hkept | ⟨_, hown, _⟩
    · exact hkept
    · cases hown
  cases world_step h with
  | refused => exact .inl ⟨st, hs, rfl⟩
  | @admitted session _ hfree _ =>
      refine .inl ⟨st, ?_, rfl⟩
      have hne : s ≠ session := by
        rintro rfl
        rw [hs] at hfree
        cases hfree
      simp only [SessionCoordinator.project]
      rw [Dict.get?_set_ne _ _ hne]
      exact hs
  | controlled _ _ _ _ => exact .inl ⟨st, hs, rfl⟩
  | asked _ => exact .inl ⟨st, hs, rfl⟩
  | ensured => exact .inl ⟨st, hs, rfl⟩
  | stopping => exact .inl ⟨st, hs, rfl⟩
  | aborted ha habort _ => exact .inl (hnone (habort.edits ha (hadmitted.named _ _ ha)).1)
  | routed => exact .inl ⟨st, hs, rfl⟩
  | @stepped me o call t hcall hnext =>
      rcases (turn_edits hnext).kept s st hs with hkept | ⟨run, hown, hrun⟩
      · exact .inl hkept
      · exact .inr ⟨me, o, call, run, rfl, hcall, hown, hrun⟩

-- No slot is leaked, and none is taken from a run by another.
theorem no_leaked_slot {capacity : Nat} {abortTimeout : Time} {w : World}
    (hw : ((sessionMachine capacity abortTimeout).restrict Contained).Reachable w) {s : SessionId} {st : RuntimeState}
    (hs : w.co.activeBySession.get? s = some st) :
    (∃ (run : RunId) (i : CallId) (call : Call), st.runId = some run ∧ w.calls[i]? = some call ∧ call.serves = some (s, run)) ∧
    ∀ a w', w.next a = some w' →
      (∃ st', w'.co.activeBySession.get? s = some st' ∧ st'.runId = st.runId) ∨
        ∃ me o call run, a = .step me o ∧ w.calls[me]? = some call ∧ call.serves = some (s, run) ∧ st.runId = some run := by
  refine ⟨?_, fun a w' h => next_removes (reachable_admitted hw.of_restrict) h hs⟩
  obtain ⟨run, i, call, hrun, hi, hholds⟩ := reachable_occupied hw s st hs
  exact ⟨run, i, call, hrun, hi, Call.serves_of_holds hholds⟩

-- A run up to its watcher, a stop that takes too long, and the notification of it.
def timedOut : List Action :=
  Action.submitStream "a" :: List.replicate 8 (Action.step 0 .returns) ++
    [Action.step 0 (.streams "x"), .step 0 .returns, .step 0 .returns, .abort "a" 0 5 false, .step 1 (.at 15)]

theorem no_leaked_slot_timedOut :
    ∃ w st, ((sessionMachine 1 10).restrict Contained).run (sessionMachine 1 10).start timedOut = some w ∧
      w.co.activeBySession.get? "a" = some st ∧ st.status = .error ∧
      ∃ (run : RunId) (i : CallId) (call : Call), st.runId = some run ∧ w.calls[i]? = some call ∧ call.serves = some ("a", run) := by
  have hrun : (((sessionMachine 1 10).restrict Contained).run (sessionMachine 1 10).start timedOut).map
      (fun w => (w.co.activeBySession.get? "a").map RuntimeState.status) = some (some .error) := by decide
  obtain ⟨w, hrun, hentry⟩ := Option.map_eq_some_iff.mp hrun
  obtain ⟨st, hs, hstatus⟩ := Option.map_eq_some_iff.mp hentry
  exact ⟨w, st, hrun, hs, hstatus, (@no_leaked_slot 1 10 w ⟨timedOut, hrun⟩ "a" st hs).1⟩

-- The callback raises: the watcher is gone, and the run keeps its slot for good.
theorem slot_leaked : ¬ ∀ (w : World) (s : SessionId) (st : RuntimeState), (sessionMachine 1 10).Reachable w →
    w.co.activeBySession.get? s = some st →
    ∃ (run : RunId) (i : CallId) (call : Call), st.runId = some run ∧ w.calls[i]? = some call ∧ call.serves = some (s, run) := by
  intro h
  have hrun : ((sessionMachine 1 10).run (sessionMachine 1 10).start (timedOut ++ [.step 1 .raises, .step 1 .returns])).map
      (fun w => ((w.co.activeBySession.get? "a").isSome, w.calls)) = some (true, [.done, .done]) := by decide
  obtain ⟨w, hrun, hfacts⟩ := Option.map_eq_some_iff.mp hrun
  obtain ⟨hentry, hcalls⟩ := Prod.mk.inj hfacts
  obtain ⟨st, hs⟩ := Option.isSome_iff_exists.mp hentry
  obtain ⟨run, i, call, _, hi, hcall⟩ := h w "a" st ⟨_, hrun⟩ hs
  rw [hcalls] at hi
  have hdone : call = .done := by simpa using List.mem_of_getElem? hi
  rw [hdone] at hcall
  cases hcall

end GaHub.Sessions
