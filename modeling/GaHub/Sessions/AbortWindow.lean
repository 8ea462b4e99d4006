import GaHub.Sessions.Abort

namespace GaHub.Sessions

open Lib

-- Until `runtime.submit` is called, the reservation of the run is there.
def SubmitPc.pending : SubmitPc → Bool
  | .creating _ | .obtained _ | .cleared _ | .begun _ => true
  | _ => false

def SubmitPc.runtime : SubmitPc → Option RuntimeId
  | .obtained runtime | .cleared runtime | .begun runtime => some runtime
  | _ => none

-- Between reading the reservation as STARTING and calling `runtime.submit`.
def SubmitPc.window : SubmitPc → Bool
  | .cleared _ | .begun _ => true
  | _ => false

def Call.window (session : SessionId) : Call → Bool
  | .submit s _ pc => decide (s = session) && pc.window
  | _ => false

-- A stop of the session is accepted while its admitting call is in that window.
def stopsInWindow (w : World) : Action → Bool
  | .abort session run _ raises =>
      !raises && (w.co.reservation session run).isSome && w.calls.any (Call.window session)
  | .abortIfCurrent session _ raises => !raises && w.calls.any (Call.window session)
  | _ => false

-- What an admitting call may rely on until it has called `runtime.submit`.
structure Submits (w : World) : Prop where
  apart : Exclusive Call.run w.calls
  known : ∀ call ∈ w.calls, ∀ r, call.run = some r → r < w.serial
  lasting : ∀ pc, .shutdown pc ∉ w.calls
  present : ∀ s r pc, .submit s r pc ∈ w.calls → pc.pending = true →
    ∃ st, w.co.reservation s r = some st
  installed : ∀ s r pc rt, .submit s r pc ∈ w.calls → pc.runtime = some rt →
    w.co.runtimes.get? s = some rt
  cleared : ∀ s r pc, .submit s r pc ∈ w.calls → pc.window = true →
    w.co.reservationStatus s r = some .starting

theorem SubmitPc.pending_of_window {pc : SubmitPc} (h : pc.window = true) : pc.pending = true := by
  cases pc <;> first | rfl | cases h

theorem SubmitPc.pending_of_runtime {pc : SubmitPc} {rt : RuntimeId} (h : pc.runtime = some rt) :
    pc.pending = true := by
  cases pc <;> first | rfl | cases h

theorem reservation_of {co : SessionCoordinator} {s : SessionId} {r : RunId} {st : RuntimeState}
    (hs : co.activeBySession.get? s = some st) (hid : st.runId = some r) :
    co.reservation s r = some st := by
  simp [SessionCoordinator.reservation, hs, hid]

theorem Submits.enter {w w' : World} (h : Submits w) {call : Call}
    (hcalls : w'.calls = w.calls ++ [call])
    (hkeep : ∀ s r st, w.co.reservation s r = some st → w'.co.reservation s r = some st)
    (hr : w'.co.runtimes = w.co.runtimes) (hserial : w'.serial = w.serial + 1)
    (hrun : ∀ r, call.run = some r → r = w.serial) (hshut : ∀ pc, call ≠ .shutdown pc)
    (hnew : ∀ s r pc, call = .submit s r pc →
      pc = .creating .lookup ∧ ∃ st, w'.co.reservation s r = some st) : Submits w' := by
  have hold : ∀ {c}, c ∈ w'.calls → c ∈ w.calls ∨ c = call := by
    intro c hc
    rw [hcalls] at hc
    exact (List.mem_append.mp hc).imp_right List.mem_singleton.mp
  refine ⟨?_, fun c hc r hcr => ?_, fun pc hc => ?_, fun s r pc hc hp => ?_,
    fun s r pc rt hc hp => ?_, fun s r pc hc hp => ?_⟩
  · rw [hcalls]
    refine h.apart.append fun r hcr c hc hcr' => ?_
    have hlt := h.known c hc r hcr'
    rw [hrun r hcr] at hlt
    exact Nat.lt_irrefl _ hlt
  · rw [hserial]
    rcases hold hc with hc | rfl
    · exact Nat.lt_succ_of_lt (h.known c hc r hcr)
    · exact hrun r hcr ▸ Nat.lt_succ_self _
  · rcases hold hc with hc | hc
    · exact h.lasting pc hc
    · exact hshut pc hc.symm
  · rcases hold hc with hc | hc
    · obtain ⟨st, hst⟩ := h.present s r pc hc hp
      exact ⟨st, hkeep s r st hst⟩
    · exact (hnew s r pc hc.symm).2
  · rw [hr]
    rcases hold hc with hc | hc
    · exact h.installed s r pc rt hc hp
    · rw [(hnew s r pc hc.symm).1] at hp
      cases hp
  · rcases hold hc with hc | hc
    · obtain ⟨st, hst, hstart⟩ := Option.map_eq_some_iff.mp (h.cleared s r pc hc hp)
      exact Option.map_eq_some_iff.mpr ⟨st, hkeep s r st hst, hstart⟩
    · rw [(hnew s r pc hc.symm).1] at hp
      cases hp

theorem Submits.abort {w w' : World} (h : Submits w) {session : SessionId} {active : RuntimeState}
    {raises : Bool} (hact : w.co.activeBySession.get? session = some active)
    (hname : active.sessionId = session)
    (hok : raises = false → ∀ r pc, active.runId = some r → .submit session r pc ∈ w.calls →
      pc.window = false)
    (hstep : AbortStep w active raises w') : Submits w' := by
  cases hstep with
  | raised | again _ _ => exact ⟨h.apart, h.known, h.lasting, h.present, h.installed, h.cleared⟩
  | marked hs hrun hstate hcalled =>
      rename_i run now state
      subst hname
      have hsame : ∀ s r, s ≠ active.sessionId →
          ({ w.co with abortStarted := w.co.abortStarted.set run now }.project active.sessionId
            state).reservation s r = w.co.reservation s r := fun s r hne => by
        simp only [SessionCoordinator.reservation, SessionCoordinator.project,
          Dict.get?_set_ne _ _ hne]
      refine ⟨h.apart, h.known, h.lasting, fun s r pc hc hp => ?_, h.installed, fun s r pc hc hp => ?_⟩
      · obtain ⟨st, hst⟩ := h.present s r pc hc hp
        by_cases hsn : s = active.sessionId
        · subst hsn
          obtain ⟨ha, hid⟩ := reservation_eq_some hst
          cases hact.symm.trans ha
          exact ⟨state, reservation_of (Dict.get?_set_self ..) (by rw [hstate]; exact hid)⟩
        · exact ⟨st, (hsame s r hsn).trans hst⟩
      · have hstart := h.cleared s r pc hc hp
        have hsn : s ≠ active.sessionId := by
          rintro rfl
          obtain ⟨st, hst, _⟩ := Option.map_eq_some_iff.mp hstart
          obtain ⟨ha, hid⟩ := reservation_eq_some hst
          cases hact.symm.trans ha
          cases raises with
          | false => simp [hok rfl r pc hid hc] at hp
          | true =>
              -- the runtime is installed by now, so its `abort` was called and raised
              have hrt : ∃ rt, pc.runtime = some rt := by
                cases pc <;> first | exact ⟨_, rfl⟩ | cases hp
              obtain ⟨rt, hrt⟩ := hrt
              have hget := h.installed _ r pc rt hc hrt
              rw [hcalled rfl] at hget
              cases hget
        unfold SessionCoordinator.reservationStatus
        rw [hsame s r hsn]
        exact hstart

section Turns

variable {w : World} {me : CallId} {o : Outcome} {call : Call} {t : Turn}

theorem CreationStep.yields {co : SessionCoordinator} {fresh : Nat} {session : SessionId}
    {creation : Creation} {ct : CreationTurn} (h : CreationStep co fresh me session creation ct)
    {rt : RuntimeId} (hret : ct.progress = .returned rt) : ct.co.runtimes.get? session = some rt := by
  cases h with
  | found hr | refound hr =>
      cases hret
      exact hr
  | installed _ _ =>
      cases hret
      exact Dict.get?_set_self ..
  | _ => cases hret

theorem turn_run (hshut : ∀ pc, call ≠ .shutdown pc) (h : call.next w me o = some t) :
    (∀ r, t.call.run = some r → call.run = some r) ∧
    (∀ c r, t.spawned = some c → c.run = some r → call.run = some r ∧ t.call.run ≠ some r) ∧
    (∀ pc, t.call ≠ .shutdown pc) ∧
    ∀ c, t.spawned = some c → (∀ pc, c ≠ .shutdown pc) ∧ ∀ s r pc, c ≠ .submit s r pc := by
  cases call with
  | submit session run pc =>
      cases submit_step h with
      | @creating _ ct hct =>
          cases hp : ct.progress <;> simp [CreationTurn.turn, submitProgress, hp, Call.run]
      | watched =>
          refine ⟨by simp [Call.run], ?_, by simp, ?_⟩
          · rintro c r ⟨⟩ hr
            exact ⟨hr, by simp [Call.run]⟩
          · rintro c ⟨⟩
            simp
      | _ => simp [Call.run]
  | control session operation pc =>
      cases control_step h with
      | @creating _ ct hct =>
          cases hp : ct.progress <;> simp [CreationTurn.turn, rewindProgress, hp, Call.run]
      | _ => simp [Call.run]
  | sideQuestion session pc =>
      cases btw_step h with
      | @creating _ ct hct =>
          cases hp : ct.progress <;> simp [CreationTurn.turn, btwProgress, hp, Call.run]
      | _ => simp [Call.run]
  | ensureRuntime session creation =>
      obtain ⟨ct, hct, rfl⟩ := ensure_step h
      cases hp : ct.progress <;> simp [CreationTurn.turn, ensureProgress, hp, Call.run]
  | watcher session run pc => cases watcher_step h <;> simp [Call.run]
  | worker job pc =>
      obtain ⟨pc', log, _, rfl⟩ := worker_step h
      simp [Call.run]
  | shutdown pc => exact absurd rfl (hshut pc)
  | done => cases h

theorem submit_turn {s : SessionId} {r : RunId} {pc' : SubmitPc} (h : call.next w me o = some t)
    (hcall : t.call = .submit s r pc') (hp : pc'.pending = true) :
    ∃ pc, call = .submit s r pc ∧ pc.pending = true ∧ t.co.activeBySession = w.co.activeBySession ∧
      (∀ rt, pc'.runtime = some rt → t.co.runtimes.get? s = some rt ∨ pc.runtime = some rt) ∧
      (pc'.window = true → pc.window = true ∨ w.co.reservationStatus s r = some .starting) := by
  cases call with
  | submit session run pc =>
      cases submit_step h with
      | @creating _ ct hct =>
          cases hprog : ct.progress with
          | goesOn creation =>
              simp only [CreationTurn.turn, submitProgress, hprog] at hcall
              cases hcall
              exact ⟨_, rfl, rfl, hct.active, by simp [SubmitPc.runtime], by simp [SubmitPc.window]⟩
          | returned runtime =>
              simp only [CreationTurn.turn, submitProgress, hprog] at hcall
              cases hcall
              refine ⟨_, rfl, rfl, hct.active, fun rt hrt => Or.inl ?_, by simp [SubmitPc.window]⟩
              cases hrt
              exact hct.yields hprog
          | raised error =>
              simp only [CreationTurn.turn, submitProgress, hprog] at hcall
              cases hcall
              cases hp
      | cleared hst =>
          cases hcall
          exact ⟨_, rfl, rfl, rfl, fun rt hrt => Or.inr hrt, fun _ => Or.inr hst⟩
      | begun =>
          cases hcall
          exact ⟨_, rfl, rfl, rfl, fun rt hrt => Or.inr hrt, fun _ => Or.inl rfl⟩
      | failed _ hpc _ =>
          cases hcall
          rcases hpc with rfl | rfl <;> cases hp
      | _ => cases hcall <;> cases hp
  | control session operation pc =>
      cases control_step h with
      | @creating _ ct hct =>
          cases hprog : ct.progress <;> simp [CreationTurn.turn, rewindProgress, hprog] at hcall
      | _ => cases hcall
  | sideQuestion session pc =>
      cases btw_step h with
      | @creating _ ct hct =>
          cases hprog : ct.progress <;> simp [CreationTurn.turn, btwProgress, hprog] at hcall
      | _ => cases hcall
  | ensureRuntime session creation =>
      obtain ⟨ct, hct, rfl⟩ := ensure_step h
      cases hprog : ct.progress <;> simp [CreationTurn.turn, ensureProgress, hprog] at hcall
  | watcher session run pc => cases watcher_step h <;> cases hcall
  | worker job pc =>
      obtain ⟨pc', log, _, rfl⟩ := worker_step h
      cases hcall
  | shutdown pc => cases shutdown_step h <;> cases hcall
  | done => cases h

theorem Submits.turn {capacity : Nat} (h : Submits w) (ha : Admitted capacity w) (ho : Owned w)
    (hres : Reserved w) (hcall : w.calls[me]? = some call) (hnext : call.next w me o = some t) :
    Submits (w.turn me t) := by
  have hshut : ∀ pc, call ≠ .shutdown pc := by
    rintro pc rfl
    exact h.lasting pc (List.mem_of_getElem? hcall)
  have hset := turn_settles hshut hnext
  obtain ⟨hkeep, hspawn, hnot, hnotSpawn⟩ := turn_run hshut hnext
  -- an admitting call is where it was, or has just moved on
  have hsplit : ∀ {s r pc}, .submit s r pc ∈ (w.turn me t).calls →
      t.call = .submit s r pc ∨ (.submit s r pc ∈ w.calls ∧ call.run ≠ some r) := by
    intro s r pc hc
    obtain ⟨i, hi⟩ := List.mem_iff_getElem?.mp hc
    rcases replaceSlot_cases hi with ⟨_, heq⟩ | ⟨hne, hi⟩ | ⟨_, hsp⟩
    · exact Or.inl heq.symm
    · exact Or.inr ⟨List.mem_of_getElem? hi, fun hrun => hne (h.apart i me _ _ r hi hcall rfl hrun)⟩
    · exact absurd rfl ((hnotSpawn _ hsp).2 s r pc)
  have hother : ∀ {s r st}, call.run ≠ some r → w.co.reservation s r = some st →
      t.co.reservation s r = some st := by
    intro s r st hne hst
    obtain ⟨hact, hid⟩ := reservation_eq_some hst
    refine reservation_of (hset.others s st hact fun r' hr' hid' => hne ?_) hid
    rw [hr', ← hid', hid]
  refine ⟨h.apart.replaceSlot hcall hkeep hspawn, fun c hc r hcr => ?_, fun pc hc => ?_,
    fun s r pc hc hp => ?_, fun s r pc rt hc hp => ?_, fun s r pc hc hp => ?_⟩
  · have hmine := h.known call (List.mem_of_getElem? hcall) r
    refine Nat.lt_succ_of_lt ?_
    rcases mem_replaceSlot hc with rfl | hc | hsp
    · exact hmine (hkeep r hcr)
    · exact h.known c hc r hcr
    · exact hmine (hspawn c r hsp hcr).1
  · rcases mem_replaceSlot hc with heq | hc | hsp
    · exact hnot pc heq.symm
    · exact h.lasting pc hc
    · exact (hnotSpawn _ hsp).1 pc rfl
  · rcases hsplit hc with heq | ⟨hc, hne⟩
    · obtain ⟨pc₀, rfl, hp₀, hact, _⟩ := submit_turn hnext heq hp
      obtain ⟨st, hst⟩ := h.present s r pc₀ (List.mem_of_getElem? hcall) hp₀
      obtain ⟨hs, hid⟩ := reservation_eq_some hst
      refine ⟨st, reservation_of ?_ hid⟩
      change t.co.activeBySession.get? s = some st
      rw [hact]
      exact hs
    · obtain ⟨st, hst⟩ := h.present s r pc hc hp
      exact ⟨st, hother hne hst⟩
  · have hstay : ∀ {pc₀}, .submit s r pc₀ ∈ w.calls → pc₀.runtime = some rt →
        t.co.runtimes.get? s = some rt := by
      intro pc₀ hc₀ hp₀
      obtain ⟨st, hst⟩ := h.present s r pc₀ hc₀ (SubmitPc.pending_of_runtime hp₀)
      exact turn_keeps_runtime ha ho hres hcall hnext (reservation_eq_some hst).1
        (h.installed s r pc₀ rt hc₀ hp₀)
    rcases hsplit hc with heq | ⟨hc, _⟩
    · obtain ⟨pc₀, rfl, _, _, hrt, _⟩ := submit_turn hnext heq (SubmitPc.pending_of_runtime hp)
      rcases hrt rt hp with hget | hp₀
      · exact hget
      · exact hstay (List.mem_of_getElem? hcall) hp₀
    · exact hstay hc hp
  · rcases hsplit hc with heq | ⟨hc, hne⟩
    · obtain ⟨pc₀, rfl, _, hact, _, hw⟩ := submit_turn hnext heq (SubmitPc.pending_of_window hp)
      have hsame : t.co.reservationStatus s r = w.co.reservationStatus s r := by
        simp only [SessionCoordinator.reservationStatus, SessionCoordinator.reservation, hact]
      change t.co.reservationStatus s r = some .starting
      rw [hsame]
      exact (hw hp).elim (h.cleared s r pc₀ (List.mem_of_getElem? hcall)) id
    · obtain ⟨st, hst, hstart⟩ := Option.map_eq_some_iff.mp (h.cleared s r pc hc hp)
      exact Option.map_eq_some_iff.mpr ⟨st, hother hne hst, hstart⟩

theorem Stops.turn {capacity : Nat} (h : Stops w) (hsub : Submits w) (ha : Admitted capacity w)
    (ho : Owned w) (hres : Reserved w) (hcall : w.calls[me]? = some call)
    (hnext : call.next w me o = some t) : Stops (w.turn me t) := by
  have hshut : ∀ pc, call ≠ .shutdown pc := by
    rintro pc rfl
    exact hsub.lasting pc (List.mem_of_getElem? hcall)
  rcases turn_log hshut hnext with hlog | ⟨s, r, rt, rfl, rfl⟩ | ⟨s, r, st, st', rfl, hr, rfl⟩
  · exact h.frame (turn_settles hshut hnext)
      (fun s st rt hs hrt => turn_keeps_runtime ha ho hres hcall hnext hs hrt) rfl hlog (Nat.le_succ _)
  · have hmem := List.mem_of_getElem? hcall
    obtain ⟨st, hst, hstart⟩ := Option.map_eq_some_iff.mp (hsub.cleared s r _ hmem rfl)
    obtain ⟨hact, hid⟩ := reservation_eq_some hst
    exact h.called hact hid hstart (hsub.installed s r _ rt hmem rfl) rfl rfl (Nat.le_succ _)
  · obtain ⟨hact, hid⟩ := reservation_eq_some hr
    exact h.completed hact hid rfl rfl rfl (Nat.le_succ _)

end Turns

theorem next_submits {capacity : Nat} {w w' : World} (h : Submits w) (ha : Admitted capacity w)
    (ho : Owned w) (hres : Reserved w) {a : Action} (hlive : a ≠ .shutdown)
    (hok : stopsInWindow w a = false) (hstep : w.next a = some w') : Submits w' := by
  cases world_step hstep with
  | refused => exact h
  | @admitted session _ hfree _ =>
      refine h.enter rfl (fun s r st hst => ?_) rfl rfl (fun r hr => (Option.some.inj hr).symm)
        (by simp) fun s r pc hc => ?_
      · obtain ⟨hs, hid⟩ := reservation_eq_some hst
        refine reservation_of ((Dict.get?_set_ne _ _ ?_).trans hs) hid
        rintro rfl
        rw [hfree] at hs
        cases hs
      · cases hc
        exact ⟨rfl, _, reservation_of (Dict.get?_set_self ..) rfl⟩
  | controlled _ _ _ _ | asked _ | ensured =>
      exact h.enter rfl (fun _ _ _ => id) rfl rfl (by simp [Call.run]) (by simp) (by simp)
  | aborted hact habort hwhich =>
      refine h.abort hact (ha.named _ _ hact) (fun hraises r pc hid hc => ?_) habort
      by_contra hw
      simp only [Bool.not_eq_false] at hw
      have hany : w.calls.any (Call.window _) = true :=
        List.any_eq_true.mpr ⟨_, hc, by simp [Call.window, hw]; rfl⟩
      rcases hwhich with ⟨run, now, rfl, hrun⟩ | ⟨now, rfl⟩
      · simp [stopsInWindow, hraises, hany, reservation_of hact hrun] at hok
      · simp [stopsInWindow, hraises, hany] at hok
  | routed => exact ⟨h.apart, h.known, h.lasting, h.present, h.installed, h.cleared⟩
  | stopping => exact absurd rfl hlive
  | stepped hcall hnext => exact h.turn ha ho hres hcall hnext

theorem next_stops {capacity : Nat} {w w' : World} (h : Stops w) (hsub : Submits w)
    (ha : Admitted capacity w) (ho : Owned w) (hres : Reserved w) {a : Action}
    (hstep : w.next a = some w') : Stops w' := by
  cases world_step hstep with
  | refused => exact h
  | admitted _ _ _ => exact h.admitted rfl (by simp) rfl rfl rfl rfl
  | controlled _ _ _ _ | asked _ | ensured | stopping =>
      exact @Stops.frame w _ h none [] (.of_eq rfl) (fun _ _ _ _ => id) (List.append_nil _).symm
        (by simp) (Nat.le_succ _)
  | aborted hact habort _ => exact h.abort hact (ha.named _ _ hact) habort
  | routed =>
      have hset : Settles w.co w.co none := .of_eq rfl
      refine h.frame hset (fun _ _ _ _ => id) rfl (fun e he => ?_) (Nat.le_refl _)
      rw [List.mem_singleton.mp he]
      trivial
  | stepped hcall hnext => exact h.turn hsub ha ho hres hcall hnext

-- The runs without a shutdown in which no stop is accepted in the window.
def timelyMachine (capacity : Nat) (abortTimeout : Time) : Machine World Action :=
  (sessionMachine capacity abortTimeout).restrict fun w a => a ≠ .shutdown ∧ stopsInWindow w a = false

theorem timely_invariant {capacity : Nat} {abortTimeout : Time} {w : World}
    (h : (timelyMachine capacity abortTimeout).Reachable w) : Submits w ∧ Stops w := by
  refine @Machine.Reachable.invariant_with _ _ _ (fun w => Submits w ∧ Stops w)
    (sessionMachine capacity abortTimeout).Reachable w h (fun h => Machine.Reachable.of_restrict h)
    ⟨?_, ?_⟩ fun s a t hs hr hstep => ?_
  · refine ⟨.nil _, ?_, ?_, ?_, ?_, ?_⟩ <;> simp [timelyMachine, Machine.restrict, sessionMachine]
  · constructor <;> simp [timelyMachine, Machine.restrict, sessionMachine]
  · obtain ⟨⟨hlive, hok⟩, hstep⟩ := Machine.restrict_next hstep
    have ha := reachable_admitted hr
    have ho := reachable_owned hr
    have hres := reachable_reserved hr
    exact ⟨next_submits hs.1 ha ho hres hlive hok hstep, next_stops hs.2 hs.1 ha ho hres hstep⟩

-- A run that was stopped and taken by its runtime is aborted there after it
-- was taken, and before its handle finishes.
def StopReaches (w : World) : Prop :=
  ∀ r rt, .stopAccepted r ∈ w.log → .submitCalled r rt ∈ w.log →
    [.submitCalled r rt, .abortCalled rt].Sublist w.log ∧
    (.handleFinished r ∈ w.log →
      [.submitCalled r rt, .abortCalled rt, .handleFinished r].Sublist w.log)

theorem stopReaches_of_timely {capacity : Nat} {abortTimeout : Time} {w : World}
    (h : (timelyMachine capacity abortTimeout).Reachable w) : StopReaches w := by
  have hstops := (timely_invariant h).2
  exact fun r rt hstop hsub => ⟨hstops.reached r rt hstop hsub, hstops.inTime r rt hstop hsub⟩

-- The admission of a run up to the point where its runtime is installed and
-- its reservation still reads STARTING.
def clearedPrefix : List Action :=
  .submitStream "a" :: List.replicate 6 (.step 0 .returns)

-- From there to the end of the run: `runtime.submit`, the watcher, completion.
def submittedSuffix : List Action :=
  [.step 0 .returns, .step 0 (.streams "x"), .step 0 .returns, .step 0 .returns]

def watchedSuffix : List Action :=
  [.step 1 .finishes, .step 1 (.reports none), .step 1 .returns, .step 1 .returns]

def promptRun : List Action :=
  clearedPrefix ++ .step 0 .returns :: submittedSuffix ++ .abort "a" 0 5 false :: watchedSuffix

theorem stopReaches_of_timely_promptRun :
    ∃ w, (timelyMachine 1 10).run (timelyMachine 1 10).start promptRun = some w ∧
      w.calls = [.done, .done] ∧ .stopAccepted 0 ∈ w.log ∧
      [.submitCalled 0 (.built 3), .abortCalled (.built 3), .handleFinished 0].Sublist w.log := by
  refine ⟨_, rfl, by decide, by decide, ?_⟩
  have hreach := @stopReaches_of_timely 1 10 _ ⟨promptRun, rfl⟩
  exact (hreach 0 (.built 3) (by decide) (by decide)).2 (by decide)

-- The stop arrives in the window: `runtime.abort` comes before `runtime.submit`,
-- and nothing calls it again.
def overlookedRun : List Action :=
  clearedPrefix ++ .abort "a" 0 5 false :: .step 0 .returns :: submittedSuffix ++ watchedSuffix

theorem overlookedRun_not_stopReaches :
    ∃ w, (sessionMachine 1 10).run (sessionMachine 1 10).start overlookedRun = some w ∧
      w.calls = [.done, .done] ∧ .stopAccepted 0 ∈ w.log ∧ .handleFinished 0 ∈ w.log ∧
      ¬StopReaches w := by
  refine ⟨_, rfl, by decide, by decide, by decide, fun hreach => ?_⟩
  have hout := (hreach 0 (.built 3) (by decide) (by decide)).1
  revert hout
  decide

end GaHub.Sessions
