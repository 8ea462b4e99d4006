import GaHub.Sessions.Shutdown

namespace GaHub.Sessions

open Lib

theorem shutdown_true {co : SessionCoordinator} {calls : List Call} {spawnId : CallId} {pc : ShutdownPc} {o : Outcome} {t : Turn}
    (h : shutdownNext co calls spawnId pc o = some t) (htrue : .shutdownReturned true ∈ t.log) :
    pc = .concluding true ∧ co.activeBySession.keys = [] ∧ (∀ i ∈ co.watchers.values, alive calls i = false) ∧
      t.call = .done ∧ t.spawned = none ∧ t.co.runtimes.keys = [] := by
  unfold shutdownNext at h
  split at h
  case h_23 stopped =>
    dsimp only at h
    split at h
    · rename_i hidle
      cases h
      simp only [Bool.and_eq_true, Bool.not_eq_true', List.any_eq_false, Bool.not_eq_true] at hidle
      obtain ⟨rfl, hactive, hwatchers⟩ := hidle
      exact ⟨rfl, List.isEmpty_iff.mp hactive, hwatchers, rfl, rfl, rfl⟩
    · cases h
      simp [shutdownReturns] at htrue
  case h_24 => cases h
  all_goals
    exfalso
    first
      | (cases h; simp [shutdownReturns] at htrue)
      | (split at h <;> cases h <;> simp at htrue)
      | (split at h
         · cases h; simp at htrue
         · obtain ⟨ok, _, rfl⟩ := Option.map_eq_some_iff.mp h; simp at htrue)
      | (split at h
         · split at h <;> cases h; simp at htrue
         · split at h <;> cases h <;> simp at htrue)
      | (split at h
         · cases h; simp at htrue
         · split at h
           · split at h <;> cases h; simp at htrue
           · split at h <;> cases h <;> simp at htrue)

-- The two places of a control from which the installed runtime is displaced.
def ControlPc.displaces : ControlPc → Bool
  | .detaching _ | .replacing _ _ => true
  | _ => false

-- `release_runtime` or `replace_runtime` takes the runtime of the session out.
def Displaces (w : World) (s : SessionId) (rt : RuntimeId) : Action → Prop
  | .step me _ => w.co.runtimes.get? s = some rt ∧
      ∃ operation pc, w.calls[me]? = some (.control s operation pc) ∧ pc.displaces = true
  | _ => False

section Runtimes

variable {w w' : World} {me : CallId} {o : Outcome} {call : Call} {t : Turn} {s : SessionId} {rt : RuntimeId}

theorem turn_runtime (hown : Owned w) (hcall : w.calls[me]? = some call) (hshut : ∀ pc, call ≠ .shutdown pc)
    (h : call.next w me o = some t) (hs : w.co.runtimes.get? s = some rt) :
    t.co.runtimes.get? s = some rt ∨ ∃ operation pc, call = .control s operation pc ∧ pc.displaces = true := by
  cases hc : call.creation with
  | some found =>
      obtain ⟨session, creation⟩ := found
      obtain ⟨ct, hct, hco, _⟩ := creation_turn hc h
      rw [hco]
      cases hct with
      | installed hepoch _ =>
          have hne : s ≠ session := by
            rintro rfl
            rcases hown.vacant me s _ _ _ ⟨call, hcall, hc⟩ rfl with hnone | hlt
            · rw [hs] at hnone
              cases hnone
            · omega
          exact .inl ((Dict.get?_set_ne _ _ hne).trans hs)
      | _ => exact .inl hs
  | none =>
      cases call with
      | submit session run pc =>
          cases submit_step h with
          | creating _ => cases hc
          | unwatched =>
              dsimp only [SessionCoordinator.rollbackWatcher]
              split <;> exact .inl hs
          | released =>
              dsimp only [SessionCoordinator.releaseReservation]
              split <;> exact .inl hs
          | _ => exact .inl hs
      | control session operation pc =>
          cases control_step h with
          | creating _ => cases hc
          | detached =>
              by_cases hne : s = session
              · subst hne
                exact .inr ⟨operation, _, rfl, rfl⟩
              · exact .inl ((Dict.get?_erase_ne _ hne).trans hs)
          | replaced =>
              by_cases hne : s = session
              · subst hne
                exact .inr ⟨operation, _, rfl, rfl⟩
              · exact .inl ((Dict.get?_set_ne _ _ hne).trans hs)
          | left =>
              dsimp only [SessionCoordinator.leaveControl]
              split <;> exact .inl hs
          | _ => exact .inl hs
      | sideQuestion session pc =>
          cases btw_step h with
          | creating _ => cases hc
          | _ => exact .inl hs
      | ensureRuntime session creation => cases hc
      | watcher session run pc =>
          cases watcher_step h with
          | closed =>
              dsimp only [SessionCoordinator.closeWatcher]
              split <;> exact .inl hs
          | _ => exact .inl hs
      | worker job pc =>
          obtain ⟨_, _, _, rfl⟩ := worker_step h
          exact .inl hs
      | shutdown pc => exact absurd rfl (hshut pc)
      | done => cases h

theorem shutdown_runtimes {pc : ShutdownPc} (h : (Call.shutdown pc).next w me o = some t) :
    t.co.runtimes = w.co.runtimes ∨ .shutdownReturned true ∈ t.log := by
  cases shutdown_step h with
  | requested => exact .inl rfl
  | marked _ _ _ _ _ => exact .inl rfl
  | moved hco _ => exact .inl hco.runtimes
  | ended hco _ _ => exact .inl hco.runtimes
  | cleared _ _ => exact .inr (by simp)

theorem shutdown_drained {pc : ShutdownPc} (hd : Drained w.co) (h : (Call.shutdown pc).next w me o = some t) : Drained t.co := by
  cases shutdown_step h with
  | requested => exact ⟨rfl, hd.controls, hd.questions⟩
  | marked _ _ _ _ _ => exact ⟨hd.requested, hd.controls, hd.questions⟩
  | moved hco _ | ended hco _ _ | cleared _ hco =>
      exact ⟨hco.requested.trans hd.requested, hco.controls ▸ hd.controls, hco.questions ▸ hd.questions⟩

theorem next_workersKept {a : Action} (h : w.next a = some w') : WorkersKept w.calls w'.calls := by
  have hrefl : WorkersKept w.calls w.calls := fun _ _ pc hi => ⟨pc, hi, fun _ => id⟩
  cases world_step h with
  | refused => exact hrefl
  | admitted _ _ _ | controlled _ _ _ _ | asked _ | ensured | stopping => exact workersKept_append _ _
  | aborted _ habort _ => cases habort <;> exact hrefl
  | routed => exact hrefl
  | stepped hcall hnext => exact turn_workersKept hcall hnext

theorem runtime_step {a : Action} (hown : Owned w) (hw : Closing w) (h : w.next a = some w')
    (hs : w.co.runtimes.get? s = some rt) :
    w'.co.runtimes.get? s = some rt ∨ Displaces w s rt a ∨
      ∃ i : CallId, w'.calls[i]? = some (.worker (.shutdown rt) (.finished true)) := by
  cases world_step h with
  | refused => exact .inl hs
  | admitted _ _ _ | controlled _ _ _ _ | asked _ | ensured | stopping => exact .inl hs
  | aborted _ habort _ => cases habort <;> exact .inl hs
  | routed => exact .inl hs
  | @stepped me o call t hcall hnext =>
      by_cases hshut : ∃ pc, call = .shutdown pc
      · obtain ⟨pc, rfl⟩ := hshut
        rcases shutdown_runtimes hnext with hsame | htrue
        · exact .inl ((congrArg (Dict.get? · s) hsame).trans hs)
        · obtain ⟨rfl, _⟩ := shutdown_true hnext htrue
          obtain ⟨i, hi⟩ := hw.phase me _ hcall rfl s rt hs
          exact .inr (.inr ⟨i, (turn_workersKept hcall hnext).finished hi⟩)
      · rcases turn_runtime hown hcall (fun pc heq => hshut ⟨pc, heq⟩) hnext hs with hkept | ⟨operation, pc, rfl, hpc⟩
        · exact .inl hkept
        · exact .inr (.inl ⟨hs, operation, pc, hcall, hpc⟩)

end Runtimes

section Runs

variable {capacity : Nat} {abortTimeout : Time}

-- Somewhere along a run the runtime is released or replaced.
def Displaced (M : Machine World Action) (u : World) (as : List Action) (s : SessionId) (rt : RuntimeId) : Prop :=
  ∃ before a after v, as = before ++ a :: after ∧ M.run u before = some v ∧ Displaces v s rt a

theorem Displaced.cons {M : Machine World Action} {u v : World} {a : Action} {as : List Action} {s : SessionId} {rt : RuntimeId}
    (ha : M.next u a = some v) (h : Displaced M v as s rt) : Displaced M u (a :: as) s rt := by
  obtain ⟨before, b, after, x, rfl, hrun, hdisplaces⟩ := h
  refine ⟨a :: before, b, after, x, rfl, ?_, hdisplaces⟩
  simp only [Machine.run]
  rw [ha, Option.bind_some]
  exact hrun

theorem run_workersKept {u v : World} {as : List Action} (h : (sessionMachine capacity abortTimeout).run u as = some v) :
    WorkersKept u.calls v.calls :=
  Machine.run_invariant (P := fun v => WorkersKept u.calls v.calls) (fun x a y hx ha i job pc hi => by
      obtain ⟨pc₁, hi₁, hfinal₁⟩ := hx i job pc hi
      obtain ⟨pc₂, hi₂, hfinal₂⟩ := next_workersKept ha i job pc₁ hi₁
      exact ⟨pc₂, hi₂, fun ok hok => hfinal₂ ok (hfinal₁ ok hok)⟩) as
    (fun _ _ pc hi => ⟨pc, hi, fun _ => id⟩) h

theorem runtime_run {u v : World} {as : List Action} {s : SessionId} {rt : RuntimeId}
    (hu : (sessionMachine capacity abortTimeout).Reachable u)
    (hrun : (sessionMachine capacity abortTimeout).run u as = some v) (hs : u.co.runtimes.get? s = some rt) :
    v.co.runtimes.get? s = some rt ∨ Displaced (sessionMachine capacity abortTimeout) u as s rt ∨
      ∃ i : CallId, v.calls[i]? = some (.worker (.shutdown rt) (.finished true)) := by
  induction as generalizing u with
  | nil =>
      cases hrun
      exact .inl hs
  | cons a as ih =>
      simp only [Machine.run] at hrun
      obtain ⟨x, hx, hrest⟩ := Option.bind_eq_some_iff.mp hrun
      rcases runtime_step (reachable_owned hu) (reachable_closing hu) hx hs with hkept | hdisplaces | ⟨i, hi⟩
      · exact (ih (hu.next hx) hrest hkept).imp_right fun h => h.imp_left fun hlater => hlater.cons hx
      · exact .inr (.inl ⟨[], a, as, u, rfl, rfl, hdisplaces⟩)
      · exact .inr (.inr ⟨i, (run_workersKept hrest).finished hi⟩)

end Runs

theorem keys_nil_of_get? {κ ν : Type} [DecidableEq κ] {d : Dict κ ν} (h : ∀ k v, d.get? k ≠ some v) : d.keys = [] := by
  refine List.eq_nil_iff_forall_not_mem.mpr fun k hk => ?_
  obtain ⟨v, hv⟩ := Dict.mem_keys_iff.mp hk
  exact h k v hv

-- The gate is shut, and nothing is left behind it.
structure Over (co : SessionCoordinator) : Prop where
  drained : Drained co
  runtimes : co.runtimes.keys = []
  active : co.activeBySession.keys = []

theorem Edits.nil {co co' : SessionCoordinator} {own : Option (SessionId × RunId)} (h : Edits co co' own)
    (hnil : co.activeBySession.keys = []) : co'.activeBySession.keys = [] := by
  refine keys_nil_of_get? fun s st hs => ?_
  obtain ⟨st₀, hs₀, _⟩ := h.old s st hs
  rw [get?_of_keys_nil hnil] at hs₀
  cases hs₀

theorem Over.next {capacity : Nat} {w w' : World} {a : Action} (hw : Over w.co) (hadmitted : Admitted capacity w)
    (hres : Reserved w) (h : w.next a = some w') : Over w'.co := by
  have hactive : w'.co.activeBySession.keys = [] := by
    cases world_step h with
    | refused => exact hw.active
    | @admitted session _ _ _ =>
        have hrefused : w.next (.submitStream session) = some w := by
          simp only [World.next, SessionCoordinator.admitRun, SessionCoordinator.raiseIfShutdown, hw.drained.requested]
          rfl
        rw [hrefused] at h
        have hcalls := congrArg (Option.map fun w => w.calls.length) h
        simp at hcalls
    | controlled _ _ _ _ | asked _ | ensured | stopping => exact hw.active
    | aborted ha habort _ => exact (habort.edits ha (hadmitted.named _ _ ha)).1.nil hw.active
    | routed => exact hw.active
    | stepped _ hnext => exact (turn_edits hnext).nil hw.active
  by_cases hnew : a = .shutdown
  · subst hnew
    simp only [World.next] at h
    split at h <;> cases h
    exact ⟨⟨hw.drained.requested, hw.drained.controls, hw.drained.questions⟩, hw.runtimes, hactive⟩
  · by_cases hstep : ∃ me o pc, a = .step me o ∧ w.calls[me]? = some (.shutdown pc)
    · obtain ⟨me, o, pc, rfl, hcall⟩ := hstep
      obtain ⟨t, ht, rfl⟩ := Option.map_eq_some_iff.mp h
      rw [hcall, Option.bind_some] at ht
      have hruntimes : t.co.runtimes.keys = [] := by
        rcases shutdown_runtimes ht with hsame | htrue
        · rw [hsame]
          exact hw.runtimes
        · exact (shutdown_true ht htrue).2.2.2.2.2
      exact ⟨shutdown_drained hw.drained ht, hruntimes, hactive⟩
    · have hstill := Still.next hres h hnew fun me o pc heq hcall => hstep ⟨me, o, pc, heq, hcall⟩
      obtain ⟨hdrained, hruntimes⟩ := hstill.drained hw.drained
      exact ⟨hdrained, by rw [hruntimes]; exact hw.runtimes, hactive⟩

def Call.busy : Call → Bool
  | .control .. | .sideQuestion .. | .watcher .. => true
  | _ => false

-- A `shutdown` that returns True is conclusive.
theorem shutdown_conclusive {capacity : Nat} {abortTimeout : Time} {as : List Action} {w w' : World} {me : CallId} {o : Outcome}
    {pc : ShutdownPc} {new : List Effect}
    (hrun : (sessionMachine capacity abortTimeout).run (sessionMachine capacity abortTimeout).start as = some w)
    (hcall : w.calls[me]? = some (.shutdown pc)) (hstep : w.next (.step me o) = some w') (hlog : w'.log = w.log ++ new)
    (htrue : .shutdownReturned true ∈ new) :
    -- nothing is under way
    (w'.co.activeBySession.keys = [] ∧ w'.co.exclusiveControls.keys = [] ∧ w'.co.sideQuestions.keys = [] ∧
      ∀ call ∈ w'.calls, call.busy = false) ∧
    -- whatever was installed at any time has been displaced since, or its shutdown has returned without failure
    (∀ before after u s rt, as = before ++ after →
      (sessionMachine capacity abortTimeout).run (sessionMachine capacity abortTimeout).start before = some u →
      u.co.runtimes.get? s = some rt →
      Displaced (sessionMachine capacity abortTimeout) u after s rt ∨
        ∃ i : CallId, w'.calls[i]? = some (.worker (.shutdown rt) (.finished true))) ∧
    -- and nothing is installed or admitted any more
    ∀ later v, (sessionMachine capacity abortTimeout).run w' later = some v →
      v.co.runtimes.keys = [] ∧ v.co.activeBySession.keys = [] := by
  have hw : (sessionMachine capacity abortTimeout).Reachable w := ⟨as, hrun⟩
  have hw' : (sessionMachine capacity abortTimeout).Reachable w' := hw.next (a := .step me o) hstep
  obtain ⟨t, ht, rfl⟩ := Option.map_eq_some_iff.mp hstep
  rw [hcall, Option.bind_some] at ht
  have hnew : t.log = new := List.append_cancel_left hlog
  rw [← hnew] at htrue
  obtain ⟨rfl, hactive, hwatchers, hdone, hspawned, hruntimes⟩ := shutdown_true ht htrue
  have hclosing := reachable_closing hw
  have hover : Over t.co :=
    ⟨shutdown_drained (hclosing.drained me _ hcall rfl) ht, hruntimes, (turn_edits ht).nil hactive⟩
  refine ⟨⟨hover.active, hover.drained.controls, hover.drained.questions, ?_⟩, ?_, ?_⟩
  · intro call hmem
    cases call with
    | control s operation cpc =>
        have hheld := (reachable_reserved hw').held _ hmem s operation rfl
        change t.co.exclusiveControls.get? s = some operation at hheld
        rw [get?_of_keys_nil hover.drained.controls] at hheld
        cases hheld
    | sideQuestion s bpc =>
        have hcount := (reachable_admitted hw').counted s
        change t.co.sideCount s = _ at hcount
        rw [SessionCoordinator.sideCount, get?_of_keys_nil hover.drained.questions] at hcount
        exact absurd (by simp [Call.asks]) (List.countP_eq_zero.mp hcount.symm _ hmem)
    | watcher s r wpc =>
        obtain ⟨i, hi⟩ := List.mem_iff_getElem?.mp hmem
        have hmapped := (reachable_watched hw').mapped i s r wpc hi
        change t.co.watchers.get? r = some i at hmapped
        rw [shutdown_watchers ht] at hmapped
        have hold : w.calls[i]? = some (.watcher s r wpc) := by
          rcases replaceSlot_cases hi with ⟨_, heq⟩ | ⟨_, hold⟩ | ⟨_, hnew⟩
          · rw [hdone] at heq
            cases heq
          · exact hold
          · rw [hspawned] at hnew
            cases hnew
        have hdead := hwatchers i (Dict.mem_values_iff.mpr ⟨r, hmapped⟩)
        rw [alive, hold] at hdead
        cases hdead
    | submit _ _ _ | ensureRuntime _ _ | worker _ _ | shutdown _ | done => rfl
  · rintro before after u s rt rfl hbefore hs
    have hafter : (sessionMachine capacity abortTimeout).run u after = some w := by
      rw [Machine.run_append, hbefore, Option.bind_some] at hrun
      exact hrun
    rcases runtime_run ⟨before, hbefore⟩ hafter hs with hkept | hdisplaced | ⟨i, hi⟩
    · obtain ⟨i, hi⟩ := hclosing.phase me _ hcall rfl s rt hkept
      exact .inr ⟨i, (turn_workersKept hcall ht).finished hi⟩
    · exact .inl hdisplaced
    · exact .inr ⟨i, (turn_workersKept hcall ht).finished hi⟩
  · intro later v hlater
    have hrest := Machine.run_invariant
      (P := fun v => Over v.co ∧ (sessionMachine capacity abortTimeout).Reachable v)
      (fun x a y hx ha => ⟨hx.1.next (reachable_admitted hx.2) (reachable_reserved hx.2) ha, hx.2.next ha⟩) later
      ⟨hover, hw'⟩ hlater
    exact ⟨hrest.1.runtimes, hrest.1.active⟩

-- A runtime is created, and an attempt to shut down comes to its last step.
def quietShutdown : List Action :=
  Action.ensureRuntime "a" :: List.replicate 5 (Action.step 0 .returns) ++
    Action.shutdown :: List.replicate 8 (Action.step 1 .returns) ++
    [Action.step 2 .returns, .step 2 .returns] ++ List.replicate 4 (Action.step 1 .returns)

theorem shutdown_conclusive_quiet :
    ∃ w w', (sessionMachine 1 10).run (sessionMachine 1 10).start quietShutdown = some w ∧
      w.co.runtimes.get? "a" = some (.built 3) ∧ w.next (.step 1 .returns) = some w' ∧
      w'.log = w.log ++ [.removed "a" (.built 3), .shutdownReturned true] ∧
      (∀ call ∈ w'.calls, call.busy = false) ∧
      (Displaced (sessionMachine 1 10) w [] "a" (.built 3) ∨
        ∃ i : CallId, w'.calls[i]? = some (.worker (.shutdown (.built 3)) (.finished true))) ∧
      ∀ later v, (sessionMachine 1 10).run w' later = some v → v.co.runtimes.keys = [] ∧ v.co.activeBySession.keys = [] := by
  have hrun : (((sessionMachine 1 10).run (sessionMachine 1 10).start quietShutdown).bind fun w =>
      (w.next (.step 1 .returns)).map fun w' => (w.calls[1]?, w.co.runtimes.get? "a",
        decide (w'.log = w.log ++ [.removed "a" (.built 3), .shutdownReturned true]))) =
      some (some (.shutdown (.concluding true)), some (.built 3), true) := by decide
  obtain ⟨w, hrun, hrest⟩ := Option.bind_eq_some_iff.mp hrun
  obtain ⟨w', hstep, hfacts⟩ := Option.map_eq_some_iff.mp hrest
  obtain ⟨hcall, hrest⟩ := Prod.mk.inj hfacts
  obtain ⟨hruntime, hlog⟩ := Prod.mk.inj hrest
  have hlog := of_decide_eq_true hlog
  obtain ⟨hquiet, hstopped, hlater⟩ := shutdown_conclusive hrun hcall hstep hlog (by simp)
  exact ⟨w, w', hrun, hruntime, hstep, hlog, hquiet.2.2.2,
    hstopped quietShutdown [] w "a" _ (List.append_nil _).symm hrun hruntime, hlater⟩

end GaHub.Sessions
