import GaHub.Sessions.AbortWindow
import GaHub.Sessions.Slots

namespace GaHub.Sessions

open Lib

-- The gate is shut, and whatever it had let in under a control or as a side question has left.
structure Drained (co : SessionCoordinator) : Prop where
  requested : co.shutdownRequested = true
  controls : co.exclusiveControls.keys = []
  questions : co.sideQuestions.keys = []

theorem keys_erase_nil {κ ν : Type} [DecidableEq κ] {d : Dict κ ν} (h : d.keys = []) (k : κ) : (d.erase k).keys = [] := by
  rw [Dict.keys_erase, h]
  rfl

theorem get?_of_keys_nil {κ ν : Type} [DecidableEq κ] {d : Dict κ ν} (h : d.keys = []) (k : κ) : d.get? k = none :=
  Dict.get?_eq_none_iff.mpr (by simp [h])

-- What the calls other than `shutdown` leave as it is.
structure Apart (co co' : SessionCoordinator) : Prop where
  registry : co'.shutdownWorkers = co.shutdownWorkers
  lock : co'.shutdownLock = co.shutdownLock
  requested : co'.shutdownRequested = co.shutdownRequested
  questions : co'.sideQuestions = co.sideQuestions ∨ ∃ s, co'.sideQuestions = (co.leaveSideQuestion s).sideQuestions

theorem CreationStep.apart {co : SessionCoordinator} {fresh : Nat} {me : CallId} {session : SessionId} {creation : Creation}
    {t : CreationTurn} (h : CreationStep co fresh me session creation t) : Apart co t.co := by
  cases h <;> exact ⟨rfl, rfl, rfl, .inl rfl⟩

theorem turn_apart {w : World} {me : CallId} {o : Outcome} {call : Call} {t : Turn} (hshut : ∀ pc, call ≠ .shutdown pc)
    (h : call.next w me o = some t) : Apart w.co t.co := by
  cases call with
  | submit session run pc =>
      cases submit_step h with
      | creating hc => exact hc.apart
      | unwatched =>
          dsimp only [SessionCoordinator.rollbackWatcher]
          split <;> exact ⟨rfl, rfl, rfl, .inl rfl⟩
      | released =>
          dsimp only [SessionCoordinator.releaseReservation]
          split <;> exact ⟨rfl, rfl, rfl, .inl rfl⟩
      | _ => exact ⟨rfl, rfl, rfl, .inl rfl⟩
  | control session operation pc =>
      cases control_step h with
      | creating hc => exact hc.apart
      | left =>
          dsimp only [SessionCoordinator.leaveControl]
          split <;> exact ⟨rfl, rfl, rfl, .inl rfl⟩
      | _ => exact ⟨rfl, rfl, rfl, .inl rfl⟩
  | sideQuestion session pc =>
      cases btw_step h with
      | creating hc => exact hc.apart
      | answered => exact ⟨rfl, rfl, rfl, .inl rfl⟩
      | left => exact ⟨rfl, rfl, rfl, .inr ⟨session, rfl⟩⟩
  | ensureRuntime session creation =>
      obtain ⟨ct, hct, rfl⟩ := ensure_step h
      exact hct.apart
  | watcher session run pc =>
      cases watcher_step h with
      | closed =>
          dsimp only [SessionCoordinator.closeWatcher]
          split <;> exact ⟨rfl, rfl, rfl, .inl rfl⟩
      | _ => exact ⟨rfl, rfl, rfl, .inl rfl⟩
  | worker job pc =>
      obtain ⟨_, _, _, rfl⟩ := worker_step h
      exact ⟨rfl, rfl, rfl, .inl rfl⟩
  | shutdown pc => exact absurd rfl (hshut pc)
  | done => cases h

theorem leaveSideQuestion_drained {co : SessionCoordinator} (h : Drained co) (s : SessionId) :
    (co.leaveSideQuestion s).sideQuestions.keys = [] := by
  have hcount : co.sideCount s = 0 := by
    rw [SessionCoordinator.sideCount, get?_of_keys_nil h.questions]
    rfl
  simp only [SessionCoordinator.leaveSideQuestion, hcount]
  exact keys_erase_nil h.questions s

theorem Drained.turn {w : World} {me : CallId} {o : Outcome} {call : Call} {t : Turn} (hd : Drained w.co)
    (hshut : ∀ pc, call ≠ .shutdown pc) (h : call.next w me o = some t) : Drained t.co := by
  have hapart := turn_apart hshut h
  refine ⟨hapart.requested.trans hd.requested, ?_, ?_⟩
  · rcases turn_controls h with hsame | ⟨s, op, _, _, hleft⟩
    · rw [hsame]
      exact hd.controls
    · rw [hleft, SessionCoordinator.leaveControl]
      split
      · exact keys_erase_nil hd.controls s
      · exact hd.controls
  · rcases hapart.questions with hsame | ⟨s, hleft⟩
    · rw [hsame]
      exact hd.questions
    · rw [hleft]
      exact leaveSideQuestion_drained hd s

theorem CreationStep.frozen {co : SessionCoordinator} {fresh : Nat} {me : CallId} {session : SessionId} {creation : Creation}
    {t : CreationTurn} (h : CreationStep co fresh me session creation t) (hrequested : co.shutdownRequested = true) :
    t.co.runtimes = co.runtimes := by
  cases h with
  | installed _ hopen =>
      rw [hrequested] at hopen
      cases hopen
  | _ => rfl

theorem Drained.frozen {w : World} {me : CallId} {o : Outcome} {call : Call} {t : Turn} (hd : Drained w.co) (hres : Reserved w)
    (hcall : w.calls[me]? = some call) (hshut : ∀ pc, call ≠ .shutdown pc) (h : call.next w me o = some t) :
    t.co.runtimes = w.co.runtimes := by
  cases call with
  | submit session run pc =>
      cases submit_step h with
      | creating hc => exact hc.frozen hd.requested
      | unwatched =>
          dsimp only [SessionCoordinator.rollbackWatcher]
          split <;> rfl
      | released =>
          dsimp only [SessionCoordinator.releaseReservation]
          split <;> rfl
      | _ => rfl
  | control session operation pc =>
      -- the control would still be there
      have hheld := hres.held _ (List.mem_of_getElem? hcall) session operation rfl
      rw [get?_of_keys_nil hd.controls] at hheld
      cases hheld
  | sideQuestion session pc =>
      cases btw_step h with
      | creating hc => exact hc.frozen hd.requested
      | answered => rfl
      | left => rfl
  | ensureRuntime session creation =>
      obtain ⟨ct, hct, rfl⟩ := ensure_step h
      exact hct.frozen hd.requested
  | watcher session run pc =>
      cases watcher_step h with
      | closed =>
          dsimp only [SessionCoordinator.closeWatcher]
          split <;> rfl
      | _ => rfl
  | worker job pc =>
      obtain ⟨_, _, _, rfl⟩ := worker_step h
      rfl
  | shutdown pc => exact absurd rfl (hshut pc)
  | done => cases h

-- A worker thread of `shutdown` is never forgotten, and what it has found is final.
def WorkersKept (calls calls' : List Call) : Prop :=
  ∀ (i : CallId) (job : RuntimeCall) (pc : WorkerPc), calls[i]? = some (.worker job pc) →
    ∃ pc', calls'[i]? = some (.worker job pc') ∧ ∀ ok, pc = .finished ok → pc' = .finished ok

theorem workersKept_append (calls : List Call) (call : Call) : WorkersKept calls (calls ++ [call]) :=
  fun _ _ pc hi => ⟨pc, append_kept call hi, fun _ => id⟩

theorem turn_workersKept {w : World} {me : CallId} {o : Outcome} {call : Call} {t : Turn} (hcall : w.calls[me]? = some call)
    (h : call.next w me o = some t) : WorkersKept w.calls (w.turn me t).calls := by
  intro i job pc hi
  by_cases hme : i = me
  · subst hme
    rw [hcall] at hi
    cases hi
    obtain ⟨pc', log, _, rfl⟩ := worker_step h
    refine ⟨pc', replaceSlot_self hcall, ?_⟩
    rintro ok rfl
    cases h
  · exact ⟨pc, replaceSlot_ne hme hi, fun _ => id⟩

-- The shutdown of every installed runtime has returned, and not failed.
def Stopped (w : World) : Prop :=
  ∀ s rt, w.co.runtimes.get? s = some rt → ∃ i : CallId, w.calls[i]? = some (.worker (.shutdown rt) (.finished true))

def Phase (w : World) : ShutdownPc → Prop
  | .stopping rest _ =>
      (∀ s rt, (s, rt) ∈ rest → w.co.runtimes.get? s = some rt) ∧
      ∀ s rt, w.co.runtimes.get? s = some rt → (s, rt) ∈ rest ∨ (w.co.shutdownWorkers.get? s).isSome
  | .joining rest joined stopped =>
      (stopped = true → ∀ s rt, w.co.runtimes.get? s = some rt → (w.co.shutdownWorkers.get? s).isSome) ∧
      (joined = true → ∀ s (i : CallId), w.co.shutdownWorkers.get? s = some i →
        i ∈ rest ∨ ∃ job, w.calls[i]? = some (.worker job (.finished true)))
  | .snapshotWatchers stopped => stopped = true → Stopped w
  | .joiningWatchers _ stopped => stopped = true → Stopped w
  | .concluding stopped => stopped = true → Stopped w
  | _ => True

section Frame

variable {w w' : World} (hworkers : WorkersKept w.calls w'.calls)

include hworkers

theorem WorkersKept.finished {i : CallId} {job : RuntimeCall} {ok : Bool} (h : w.calls[i]? = some (.worker job (.finished ok))) :
    w'.calls[i]? = some (.worker job (.finished ok)) := by
  obtain ⟨pc', hi, hsame⟩ := hworkers i job _ h
  rw [hsame ok rfl] at hi
  exact hi

theorem Stopped.mono (hruntimes : w'.co.runtimes = w.co.runtimes) (h : Stopped w) : Stopped w' := by
  intro s rt hs
  rw [hruntimes] at hs
  obtain ⟨i, hi⟩ := h s rt hs
  exact ⟨i, hworkers.finished hi⟩

theorem Phase.mono (hruntimes : w'.co.runtimes = w.co.runtimes) (hregistry : w'.co.shutdownWorkers = w.co.shutdownWorkers)
    {pc : ShutdownPc} (h : Phase w pc) : Phase w' pc := by
  cases pc with
  | stopping rest stopped =>
      simp only [Phase] at h ⊢
      rw [hruntimes, hregistry]
      exact h
  | joining rest joined stopped =>
      simp only [Phase] at h ⊢
      rw [hruntimes, hregistry]
      refine ⟨h.1, fun hjoined s i hi => (h.2 hjoined s i hi).imp_right ?_⟩
      rintro ⟨job, hjob⟩
      exact ⟨job, hworkers.finished hjob⟩
  | snapshotWatchers stopped => exact fun hstopped => Stopped.mono hworkers hruntimes (h hstopped)
  | joiningWatchers rest stopped => exact fun hstopped => Stopped.mono hworkers hruntimes (h hstopped)
  | concluding stopped => exact fun hstopped => Stopped.mono hworkers hruntimes (h hstopped)
  | requesting | waiting | snapshotActive | marking _ _ | aborting _ _ _ _ | joiningAborts _ _ _ | snapshotRuntimes _ =>
      exact trivial

end Frame

def ShutdownPc.drained : ShutdownPc → Bool
  | .requesting | .waiting => false
  | _ => true

-- The attempts to shut down, one at a time, and the workers they have started.
structure Closing (w : World) : Prop where
  lock : ∀ (i : CallId) (pc : ShutdownPc), w.calls[i]? = some (.shutdown pc) → w.co.shutdownLock = some i
  requested : ∀ (i : CallId) (pc : ShutdownPc), w.calls[i]? = some (.shutdown pc) → pc ≠ .requesting →
    w.co.shutdownRequested = true
  drained : ∀ (i : CallId) (pc : ShutdownPc), w.calls[i]? = some (.shutdown pc) → pc.drained = true → Drained w.co
  registry : ∀ s (i : CallId), w.co.shutdownWorkers.get? s = some i →
    Drained w.co ∧ ∃ rt pc, w.co.runtimes.get? s = some rt ∧ w.calls[i]? = some (.worker (.shutdown rt) pc)
  phase : ∀ (i : CallId) (pc : ShutdownPc), w.calls[i]? = some (.shutdown pc) → Phase w pc

structure Still (w w' : World) : Prop where
  registry : w'.co.shutdownWorkers = w.co.shutdownWorkers
  lock : w'.co.shutdownLock = w.co.shutdownLock
  requested : w.co.shutdownRequested = true → w'.co.shutdownRequested = true
  drained : Drained w.co → Drained w'.co ∧ w'.co.runtimes = w.co.runtimes
  shutdowns : ∀ (i : CallId) (pc : ShutdownPc), w'.calls[i]? = some (.shutdown pc) → w.calls[i]? = some (.shutdown pc)
  workers : WorkersKept w.calls w'.calls

theorem Phase.of_not_drained {w : World} {pc : ShutdownPc} (h : pc.drained = false) : Phase w pc := by
  cases pc with
  | requesting => exact trivial
  | waiting => exact trivial
  | _ => cases h

theorem Closing.frame {w w' : World} (hw : Closing w) (h : Still w w') : Closing w' where
  lock := fun i pc hi => h.lock.trans (hw.lock i pc (h.shutdowns i pc hi))
  requested := fun i pc hi hne => h.requested (hw.requested i pc (h.shutdowns i pc hi) hne)
  drained := fun i pc hi hpc => (h.drained (hw.drained i pc (h.shutdowns i pc hi) hpc)).1
  registry := by
    intro s i hs
    rw [h.registry] at hs
    obtain ⟨hdrained, rt, pc, hrt, hi⟩ := hw.registry s i hs
    obtain ⟨pc', hi', _⟩ := h.workers i _ pc hi
    obtain ⟨hdrained', hruntimes⟩ := h.drained hdrained
    exact ⟨hdrained', rt, pc', hruntimes ▸ hrt, hi'⟩
  phase := by
    intro i pc hi
    have hold := h.shutdowns i pc hi
    cases hpc : pc.drained with
    | false => exact .of_not_drained hpc
    | true =>
        obtain ⟨_, hruntimes⟩ := h.drained (hw.drained i pc hold hpc)
        exact (hw.phase i pc hold).mono h.workers hruntimes h.registry

namespace Still

variable {w : World}

theorem refl (w : World) : Still w w where
  registry := rfl
  lock := rfl
  requested := id
  drained := fun hd => ⟨hd, rfl⟩
  shutdowns := fun _ _ => id
  workers := fun _ _ pc hi => ⟨pc, hi, fun _ => id⟩

theorem enter {admitted : Except CoordinatorError SessionCoordinator} {call : Call} (hcall : ∀ pc, call ≠ .shutdown pc)
    (hok : ∀ co, admitted = .ok co → w.co.shutdownRequested = false ∧ co.shutdownWorkers = w.co.shutdownWorkers ∧
      co.shutdownLock = w.co.shutdownLock) : Still w (w.enter admitted call) := by
  unfold World.enter
  split
  · exact .refl w
  · rename_i co
    obtain ⟨hopen, hregistry, hlock⟩ := hok co rfl
    refine ⟨hregistry, hlock, fun hclosed => ?_, fun hd => ?_, fun i pc hi => ?_, workersKept_append _ _⟩
    · rw [hopen] at hclosed
      cases hclosed
    · have hclosed := hd.requested
      rw [hopen] at hclosed
      cases hclosed
    · rcases getElem?_concat_cases hi with hold | ⟨_, heq⟩
      · exact hold
      · exact absurd heq.symm (hcall pc)

theorem control {session : SessionId} {operation : String} {pc : ControlPc} : Still w (w.control session operation pc) := by
  refine enter (by simp) fun co hco => ?_
  obtain ⟨hopen, _, _, _, rfl⟩ := reserveControl_ok hco
  exact ⟨hopen, rfl, rfl⟩

theorem aborted {w' : World} {active : RuntimeState} {raises : Bool} (h : AbortStep w active raises w') : Still w w' := by
  cases h <;> exact ⟨rfl, rfl, id, fun hd => ⟨⟨hd.requested, hd.controls, hd.questions⟩, rfl⟩, fun _ _ => id,
    fun _ _ pc hi => ⟨pc, hi, fun _ => id⟩⟩

theorem turn {me : CallId} {o : Outcome} {call : Call} {t : Turn} (hres : Reserved w) (hcall : w.calls[me]? = some call)
    (hshut : ∀ pc, call ≠ .shutdown pc) (h : call.next w me o = some t) : Still w (w.turn me t) := by
  have hapart := turn_apart hshut h
  obtain ⟨_, _, hnot, hspawned⟩ := turn_run hshut h
  refine ⟨hapart.registry, hapart.lock, fun hclosed => hapart.requested.trans hclosed,
    fun hd => ⟨hd.turn hshut h, hd.frozen hres hcall hshut h⟩, fun i pc hi => ?_, turn_workersKept hcall h⟩
  rcases replaceSlot_cases hi with ⟨rfl, heq⟩ | ⟨_, hold⟩ | ⟨_, hnew⟩
  · exact absurd heq.symm (hnot pc)
  · exact hold
  · exact absurd rfl ((hspawned _ hnew).1 pc)

theorem next {w' : World} {a : Action} (hres : Reserved w) (h : w.next a = some w') (hnew : a ≠ .shutdown)
    (hstep : ∀ me o pc, a = .step me o → w.calls[me]? ≠ some (.shutdown pc)) : Still w w' := by
  cases a with
  | submitStream session =>
      cases h
      refine enter (by simp) fun co hco => ?_
      obtain ⟨hopen, _, _, _, rfl⟩ := admitRun_ok hco
      exact ⟨hopen, rfl, rfl⟩
  | sideQuestion session =>
      cases h
      refine enter (by simp) fun co hco => ?_
      obtain ⟨hopen, _, rfl⟩ := admitSideQuestion_ok hco
      exact ⟨hopen, rfl, rfl⟩
  | ensureRuntime session =>
      cases h
      refine enter (by simp) fun co hco => ?_
      obtain ⟨hopen, rfl⟩ := ensure_ok hco
      exact ⟨hopen, rfl, rfl⟩
  | configureIfIdle session | rewind session | exclusive session operation | releaseRuntime session operation shutdown
  | replaceRuntime session operation prepared shutdown =>
      cases h
      exact control
  | abort session run now raises =>
      cases h
      unfold World.abort
      split
      · exact .refl w
      · split
        · exact .refl w
        · exact aborted (abortEntry_step raises)
  | abortIfCurrent session now raises =>
      cases h
      unfold World.abortIfCurrent
      split
      · exact ⟨rfl, rfl, id, fun hd => ⟨hd, rfl⟩, fun _ _ => id, fun _ _ pc hi => ⟨pc, hi, fun _ => id⟩⟩
      · exact aborted (abortEntry_step raises)
  | shutdown => exact absurd rfl hnew
  | step me o =>
      obtain ⟨t, ht, rfl⟩ := Option.map_eq_some_iff.mp h
      obtain ⟨call, hcall, ht⟩ := Option.bind_eq_some_iff.mp ht
      exact turn hres hcall (fun pc heq => hstep me o pc rfl (heq ▸ hcall)) ht

end Still

theorem Closing.begin {w w' : World} (hw : Closing w) (h : w.next .shutdown = some w') : Closing w' := by
  simp only [World.next] at h
  split at h
  · rename_i hfree
    cases h
    have hnone : ∀ (i : CallId) (pc : ShutdownPc), w.calls[i]? ≠ some (.shutdown pc) := by
      intro i pc hi
      have hlock := hw.lock i pc hi
      rw [hfree] at hlock
      cases hlock
    have honly : ∀ (i : CallId) (pc : ShutdownPc), (w.calls ++ [.shutdown .requesting])[i]? = some (.shutdown pc) →
        i = w.calls.length ∧ pc = .requesting := by
      intro i pc hi
      rcases getElem?_concat_cases hi with hold | ⟨rfl, heq⟩
      · exact absurd hold (hnone i pc)
      · cases heq
        exact ⟨rfl, rfl⟩
    refine ⟨fun i pc hi => ?_, fun i pc hi hne => ?_, fun i pc hi hpc => ?_, fun s i hs => ?_, fun i pc hi => ?_⟩
    · rw [(honly i pc hi).1]
    · exact absurd (honly i pc hi).2 hne
    · rw [(honly i pc hi).2] at hpc
      cases hpc
    · obtain ⟨hdrained, rt, pc, hrt, hi⟩ := hw.registry s i hs
      exact ⟨⟨hdrained.requested, hdrained.controls, hdrained.questions⟩, rt, pc, hrt, append_kept _ hi⟩
    · rw [(honly i pc hi).2]
      exact trivial
  · cases h

structure Advances (co co' : SessionCoordinator) : Prop where
  registry : co'.shutdownWorkers = co.shutdownWorkers
  runtimes : co'.runtimes = co.runtimes
  controls : co'.exclusiveControls = co.exclusiveControls
  questions : co'.sideQuestions = co.sideQuestions
  requested : co'.shutdownRequested = true

theorem Advances.drained {co co' : SessionCoordinator} (h : Advances co co') (hd : Drained co) : Drained co' :=
  ⟨h.requested, h.controls ▸ hd.controls, h.questions ▸ hd.questions⟩

section Attempt

variable {w : World} {me : CallId} {pc : ShutdownPc} {t : Turn} (hw : Closing w) (hcall : w.calls[me]? = some (.shutdown pc))
  (hkept : WorkersKept w.calls (w.turn me t).calls) (hspawned : ∀ c, t.spawned = some c → ∃ job wpc, c = .worker job wpc)

include hw hcall hspawned in
theorem Closing.alone {i : CallId} {pc' : ShutdownPc} (hi : (w.turn me t).calls[i]? = some (.shutdown pc')) :
    i = me ∧ t.call = .shutdown pc' := by
  rcases replaceSlot_cases hi with ⟨rfl, heq⟩ | ⟨hne, hold⟩ | ⟨_, hnew⟩
  · exact ⟨rfl, heq.symm⟩
  · have hlock := hw.lock i pc' hold
    rw [hw.lock me pc hcall] at hlock
    cases hlock
    exact absurd rfl hne
  · obtain ⟨_, _, heq⟩ := hspawned _ hnew
    cases heq

include hw hkept in
theorem Closing.kept_registry (hco : Advances w.co t.co) (s : SessionId) (i : CallId)
    (hs : t.co.shutdownWorkers.get? s = some i) :
    Drained t.co ∧ ∃ rt pc, t.co.runtimes.get? s = some rt ∧ (w.turn me t).calls[i]? = some (.worker (.shutdown rt) pc) := by
  rw [hco.registry] at hs
  obtain ⟨hdrained, rt, pc, hrt, hi⟩ := hw.registry s i hs
  obtain ⟨pc', hi', _⟩ := hkept i _ pc hi
  exact ⟨hco.drained hdrained, rt, pc', hco.runtimes ▸ hrt, hi'⟩

include hw hcall hspawned in
theorem Closing.goes_on {pc' : ShutdownPc} (hlock : t.co.shutdownLock = w.co.shutdownLock)
    (hrequested : t.co.shutdownRequested = true) (ht : t.call = .shutdown pc') (hdrained : pc'.drained = true → Drained t.co)
    (hregistry : ∀ s (i : CallId), t.co.shutdownWorkers.get? s = some i → Drained t.co ∧
      ∃ rt pc, t.co.runtimes.get? s = some rt ∧ (w.turn me t).calls[i]? = some (.worker (.shutdown rt) pc))
    (hphase : Phase (w.turn me t) pc') : Closing (w.turn me t) := by
  have honly : ∀ {i : CallId} {pc₁ : ShutdownPc}, (w.turn me t).calls[i]? = some (.shutdown pc₁) → i = me ∧ pc₁ = pc' := by
    intro i pc₁ hi
    obtain ⟨rfl, heq⟩ := hw.alone hcall hspawned hi
    rw [ht] at heq
    cases heq
    exact ⟨rfl, rfl⟩
  refine ⟨fun i pc₁ hi => ?_, fun i pc₁ hi _ => hrequested, fun i pc₁ hi hpc => ?_, hregistry, fun i pc₁ hi => ?_⟩
  · rw [(honly hi).1]
    exact hlock.trans (hw.lock me pc hcall)
  · rw [(honly hi).2] at hpc
    exact hdrained hpc
  · rw [(honly hi).2]
    exact hphase

include hw hcall hkept hspawned in
theorem Closing.moves {pc' : ShutdownPc} (hco : Advances w.co t.co) (hlock : t.co.shutdownLock = w.co.shutdownLock)
    (ht : t.call = .shutdown pc') (hdrained : pc'.drained = true → Drained w.co) (hphase : Phase w pc') :
    Closing (w.turn me t) :=
  hw.goes_on hcall hspawned hlock hco.requested ht (fun hpc => hco.drained (hdrained hpc)) (hw.kept_registry hkept hco)
    (hphase.mono hkept hco.runtimes hco.registry)

include hw hcall hspawned in
theorem Closing.ends (ht : t.call = .done)
    (hregistry : ∀ s (i : CallId), t.co.shutdownWorkers.get? s = some i → Drained t.co ∧
      ∃ rt pc, t.co.runtimes.get? s = some rt ∧ (w.turn me t).calls[i]? = some (.worker (.shutdown rt) pc)) :
    Closing (w.turn me t) := by
  have hnone : ∀ {i : CallId} {pc₁ : ShutdownPc}, (w.turn me t).calls[i]? ≠ some (.shutdown pc₁) := by
    intro i pc₁ hi
    have heq := (hw.alone hcall hspawned hi).2
    rw [ht] at heq
    cases heq
  exact ⟨fun i pc₁ hi => absurd hi hnone, fun i pc₁ hi => absurd hi hnone, fun i pc₁ hi => absurd hi hnone, hregistry,
    fun i pc₁ hi => absurd hi hnone⟩

end Attempt

theorem not_controlsActive {co : SessionCoordinator} (h : co.controlsActive = false) :
    co.exclusiveControls.keys = [] ∧ co.sideQuestions.keys = [] := by
  simpa [SessionCoordinator.controlsActive] using h

theorem marked_advances {co : SessionCoordinator} {active : RuntimeState} {now : Time} (h : co.shutdownRequested = true) :
    Advances co (co.markShutdownAborting active now).2 ∧
      (co.markShutdownAborting active now).2.shutdownLock = co.shutdownLock := by
  unfold SessionCoordinator.markShutdownAborting
  split
  · exact ⟨⟨rfl, rfl, rfl, rfl, h⟩, rfl⟩
  · split
    · exact ⟨⟨rfl, rfl, rfl, rfl, h⟩, rfl⟩
    · split
      · split
        · exact ⟨⟨rfl, rfl, rfl, rfl, h⟩, rfl⟩
        · exact ⟨⟨rfl, rfl, rfl, rfl, h⟩, rfl⟩
      · exact ⟨⟨rfl, rfl, rfl, rfl, h⟩, rfl⟩

theorem joinable_finished {calls : List Call} {thread : CallId} {o : Outcome} {job : RuntimeCall} {pc : WorkerPc}
    (hi : calls[thread]? = some (.worker job pc)) (h : joinable calls thread o = some true) : pc = .finished true := by
  unfold joinable alive unstarted succeeded at h
  rw [hi] at h
  cases pc with
  | finished ok =>
      cases ok with
      | true => rfl
      | false => cases o <;> simp at h
  | unstarted | ready | running => cases o <;> simp at h

section Phases

variable {w : World} (hw : Closing w)

theorem phase_stopping_begin (w : World) (stopped : Bool) : Phase w (.stopping w.co.runtimes.entries stopped) :=
  ⟨fun _ _ => Dict.mem_entries_iff.mp, fun _ _ hs => .inl (Dict.mem_entries_iff.mpr hs)⟩

theorem Phase.stopping_next {s : SessionId} {rt : RuntimeId} {rest : List (SessionId × RuntimeId)} {stopped : Bool}
    (h : Phase w (.stopping ((s, rt) :: rest) stopped)) (hstarted : (w.co.shutdownWorkers.get? s).isSome) :
    Phase w (.stopping rest stopped) := by
  refine ⟨fun s' rt' hmem => h.1 s' rt' (List.mem_cons_of_mem _ hmem), fun s' rt' hs => ?_⟩
  rcases h.2 s' rt' hs with hmem | hsome
  · rcases List.mem_cons.mp hmem with heq | hmem
    · cases heq
      exact .inr hstarted
    · exact .inl hmem
  · exact .inr hsome

theorem Phase.joining_begin {rest : List (SessionId × RuntimeId)} {stopped stopped' : Bool}
    (h : Phase w (.stopping rest stopped)) (hall : stopped' = true → rest = []) :
    Phase w (.joining w.co.shutdownWorkers.values true stopped') := by
  refine ⟨fun hstopped s rt hs => ?_, fun _ s i hi => .inl (Dict.mem_values_iff.mpr ⟨s, hi⟩)⟩
  rcases h.2 s rt hs with hmem | hsome
  · rw [hall hstopped] at hmem
    cases hmem
  · exact hsome

include hw in
theorem Phase.joining_next {thread : CallId} {rest : List CallId} {joined stopped ok : Bool} {o : Outcome}
    (h : Phase w (.joining (thread :: rest) joined stopped)) (hjoin : joinable w.calls thread o = some ok) :
    Phase w (.joining rest (joined && ok) stopped) := by
  refine ⟨h.1, fun hboth s i hi => ?_⟩
  rw [Bool.and_eq_true] at hboth
  rcases h.2 hboth.1 s i hi with hmem | hfinished
  · rcases List.mem_cons.mp hmem with rfl | hmem
    · obtain ⟨_, rt, pc, _, hworker⟩ := hw.registry s i hi
      rw [hboth.2] at hjoin
      rw [joinable_finished hworker hjoin] at hworker
      exact .inr ⟨_, hworker⟩
    · exact .inl hmem
  · exact .inr hfinished

include hw in
theorem Phase.stopped {joined stopped : Bool} (h : Phase w (.joining [] joined stopped)) (hboth : (joined && stopped) = true) :
    Stopped w := by
  rw [Bool.and_eq_true] at hboth
  intro s rt hs
  obtain ⟨i, hi⟩ := Option.isSome_iff_exists.mp (h.1 hboth.2 s rt hs)
  obtain ⟨_, rt', pc, hs', hworker⟩ := hw.registry s i hi
  rw [hs] at hs'
  cases hs'
  rcases h.2 hboth.1 s i hi with hmem | ⟨job, hfinished⟩
  · cases hmem
  · rw [hworker] at hfinished
    cases hfinished
    exact ⟨i, hworker⟩

end Phases

theorem Closing.started {w : World} {me : CallId} {t : Turn} {session : SessionId} {runtime : RuntimeId} {wpc : WorkerPc}
    (hw : Closing w) (hkept : WorkersKept w.calls (w.turn me t).calls)
    (hspawned : t.spawned = some (.worker (.shutdown runtime) wpc)) (hdrained : Drained t.co)
    (hrt : w.co.runtimes.get? session = some runtime) (hruntimes : t.co.runtimes = w.co.runtimes)
    (hregistry : t.co.shutdownWorkers = (w.co.shutdownWorkers.erase session).set session w.calls.length) (s : SessionId)
    (i : CallId) (hs : t.co.shutdownWorkers.get? s = some i) :
    Drained t.co ∧ ∃ rt pc, t.co.runtimes.get? s = some rt ∧ (w.turn me t).calls[i]? = some (.worker (.shutdown rt) pc) := by
  refine ⟨hdrained, ?_⟩
  rw [hregistry] at hs
  rw [hruntimes]
  by_cases hne : s = session
  · subst hne
    rw [Dict.get?_set_self] at hs
    cases hs
    refine ⟨runtime, wpc, hrt, ?_⟩
    simp only [World.turn]
    rw [hspawned]
    exact replaceSlot_added _ _ _ _
  · rw [Dict.get?_set_ne _ _ hne, Dict.get?_erase_ne _ hne] at hs
    obtain ⟨_, rt, pc, hrt', hi⟩ := hw.registry s i hs
    obtain ⟨pc', hi', _⟩ := hkept i _ pc hi
    exact ⟨rt, pc', hrt', hi'⟩

theorem Closing.stopping {w : World} {me : CallId} {o : Outcome} {t : Turn} {session : SessionId} {runtime : RuntimeId}
    {rest : List (SessionId × RuntimeId)} {stopped : Bool} (hw : Closing w)
    (hcall : w.calls[me]? = some (.shutdown (.stopping ((session, runtime) :: rest) stopped)))
    (h : shutdownNext w.co w.calls w.calls.length (.stopping ((session, runtime) :: rest) stopped) o = some t) :
    Closing (w.turn me t) := by
  have hkept : WorkersKept w.calls (w.turn me t).calls := turn_workersKept hcall h
  have hrequested := hw.requested me _ hcall (by simp)
  have hdrained := hw.drained me _ hcall rfl
  have hphase := hw.phase me _ hcall
  have hrt := hphase.1 session runtime List.mem_cons_self
  simp only [shutdownNext] at h
  split at h
  · cases h
    exact hw.moves hcall hkept (by simp) ⟨rfl, rfl, rfl, rfl, hrequested⟩ rfl rfl (fun _ => hdrained)
      (hphase.joining_begin (by simp))
  · split at h
    · rename_i hreused
      split at h
      · cases h
        refine hw.moves hcall hkept (by simp) ⟨rfl, rfl, rfl, rfl, hrequested⟩ rfl rfl (fun _ => hdrained)
          (hphase.stopping_next ?_)
        cases hfound : w.co.shutdownWorkers.get? session with
        | none => simp [hfound] at hreused
        | some i => rfl
      · cases h
    · split at h
      · cases h
        have hdrained' : Drained { w.co with
            shutdownWorkers := (w.co.shutdownWorkers.erase session).set session w.calls.length } :=
          ⟨hdrained.requested, hdrained.controls, hdrained.questions⟩
        refine hw.goes_on hcall (by simp) rfl hrequested rfl (fun _ => hdrained')
          (hw.started hkept rfl hdrained' hrt rfl rfl) ⟨fun s rt hmem => hphase.1 s rt (List.mem_cons_of_mem _ hmem), ?_⟩
        intro s rt hs
        by_cases hne : s = session
        · subst hne
          refine .inr ?_
          simp only [World.turn]
          rw [Dict.get?_set_self]
          rfl
        · rcases hphase.2 s rt hs with hmem | hsome
          · rcases List.mem_cons.mp hmem with heq | hmem
            · cases heq
              exact absurd rfl hne
            · exact .inl hmem
          · refine .inr ?_
            simp only [World.turn]
            rw [Dict.get?_set_ne _ _ hne, Dict.get?_erase_ne _ hne]
            exact hsome
      · cases h
        refine hw.ends hcall (by simp) rfl (hw.started hkept rfl ?_ hrt rfl rfl)
        exact ⟨hdrained.requested, hdrained.controls, hdrained.questions⟩
      · cases h

theorem Closing.attempt {w : World} {me : CallId} {o : Outcome} {pc : ShutdownPc} {t : Turn} (hw : Closing w)
    (hcall : w.calls[me]? = some (.shutdown pc)) (h : shutdownNext w.co w.calls w.calls.length pc o = some t) :
    Closing (w.turn me t) := by
  have hkept : WorkersKept w.calls (w.turn me t).calls := turn_workersKept hcall h
  have hrequested := hw.requested me pc hcall
  have hdrained := hw.drained me pc hcall
  have hphase := hw.phase me pc hcall
  have hends : ∀ {t' : Turn}, Advances w.co t'.co → t'.call = .done →
      (∀ c, t'.spawned = some c → ∃ job wpc, c = .worker job wpc) → WorkersKept w.calls (w.turn me t').calls →
      Closing (w.turn me t') :=
    fun hadvances ht hspawned hkept => hw.ends hcall hspawned ht (hw.kept_registry hkept hadvances)
  unfold shutdownNext at h
  split at h
  · -- requesting
    cases h
    exact hw.moves hcall hkept (by simp) ⟨rfl, rfl, rfl, rfl, rfl⟩ rfl rfl (by simp [ShutdownPc.drained]) trivial
  · -- waiting
    cases h
    refine hw.moves hcall hkept (by simp) ⟨rfl, rfl, rfl, rfl, hrequested (by simp)⟩ rfl rfl ?_ ?_
    · split
      · simp [ShutdownPc.drained]
      · rename_i hidle
        obtain ⟨hcontrols, hquestions⟩ := not_controlsActive (by simpa using hidle)
        exact fun _ => ⟨hrequested (by simp), hcontrols, hquestions⟩
    · split <;> exact trivial
  · cases h
    exact hends ⟨rfl, rfl, rfl, rfl, hrequested (by simp)⟩ rfl (by simp [shutdownReturns]) hkept
  · -- the active runs
    cases h
    exact hw.moves hcall hkept (by simp) ⟨rfl, rfl, rfl, rfl, hrequested (by simp)⟩ rfl rfl (fun _ => hdrained rfl) trivial
  · cases h
    exact hends ⟨rfl, rfl, rfl, rfl, hrequested (by simp)⟩ rfl (by simp [shutdownReturns]) hkept
  · rename_i active rest stopped now
    obtain ⟨hmarked, hlock⟩ := @marked_advances w.co active now (hrequested (by simp))
    split at h
    · rename_i co' heq
      rw [heq] at hmarked hlock
      cases h
      exact hw.moves hcall hkept (by simp) hmarked hlock rfl (fun _ => hdrained rfl) trivial
    · rename_i run runtime co' heq
      rw [heq] at hmarked hlock
      cases h
      exact hw.moves hcall hkept (by simp) hmarked hlock rfl (fun _ => hdrained rfl) trivial
  · cases h
    exact hw.moves hcall hkept (by simp) ⟨rfl, rfl, rfl, rfl, hrequested (by simp)⟩ rfl rfl (fun _ => hdrained rfl) trivial
  · cases h
    exact hw.moves hcall hkept (by simp) ⟨rfl, rfl, rfl, rfl, hrequested (by simp)⟩ rfl rfl (fun _ => hdrained rfl) trivial
  · -- an abort worker
    split at h
    · split at h
      · cases h
        exact hw.moves hcall hkept (by simp) ⟨rfl, rfl, rfl, rfl, hrequested (by simp)⟩ rfl rfl (fun _ => hdrained rfl) trivial
      · cases h
    · split at h
      · cases h
        exact hw.moves hcall hkept (by simp) ⟨rfl, rfl, rfl, rfl, hrequested (by simp)⟩ rfl rfl (fun _ => hdrained rfl) trivial
      · cases h
        exact hends ⟨rfl, rfl, rfl, rfl, hrequested (by simp)⟩ rfl (by simp) hkept
      · cases h
  · split at h
    · cases h
      exact hends ⟨rfl, rfl, rfl, rfl, hrequested (by simp)⟩ rfl (by simp) hkept
    · obtain ⟨ok, _, rfl⟩ := Option.map_eq_some_iff.mp h
      exact hw.moves hcall hkept (by simp) ⟨rfl, rfl, rfl, rfl, hrequested (by simp)⟩ rfl rfl (fun _ => hdrained rfl) trivial
  · cases h
    exact hw.moves hcall hkept (by simp) ⟨rfl, rfl, rfl, rfl, hrequested (by simp)⟩ rfl rfl (fun _ => hdrained rfl) trivial
  · -- the runtimes
    cases h
    exact hw.moves hcall hkept (by simp) ⟨rfl, rfl, rfl, rfl, hrequested (by simp)⟩ rfl rfl (fun _ => hdrained rfl)
      (phase_stopping_begin w _)
  · cases h
    exact hends ⟨rfl, rfl, rfl, rfl, hrequested (by simp)⟩ rfl (by simp [shutdownReturns]) hkept
  · exact hw.stopping hcall h
  · cases h
    exact hw.moves hcall hkept (by simp) ⟨rfl, rfl, rfl, rfl, hrequested (by simp)⟩ rfl rfl (fun _ => hdrained rfl)
      (hphase.joining_begin fun _ => rfl)
  · split at h
    · cases h
      exact hends ⟨rfl, rfl, rfl, rfl, hrequested (by simp)⟩ rfl (by simp) hkept
    · obtain ⟨ok, hjoin, rfl⟩ := Option.map_eq_some_iff.mp h
      exact hw.moves hcall hkept (by simp) ⟨rfl, rfl, rfl, rfl, hrequested (by simp)⟩ rfl rfl (fun _ => hdrained rfl)
        (hphase.joining_next hw hjoin)
  · cases h
    exact hw.moves hcall hkept (by simp) ⟨rfl, rfl, rfl, rfl, hrequested (by simp)⟩ rfl rfl (fun _ => hdrained rfl)
      (hphase.stopped hw)
  · -- the watchers
    cases h
    exact hw.moves hcall hkept (by simp) ⟨rfl, rfl, rfl, rfl, hrequested (by simp)⟩ rfl rfl (fun _ => hdrained rfl) hphase
  · cases h
    exact hends ⟨rfl, rfl, rfl, rfl, hrequested (by simp)⟩ rfl (by simp [shutdownReturns]) hkept
  · split at h
    · cases h
      exact hw.moves hcall hkept (by simp) ⟨rfl, rfl, rfl, rfl, hrequested (by simp)⟩ rfl rfl (fun _ => hdrained rfl) hphase
    · cases h
  · cases h
    exact hw.moves hcall hkept (by simp) ⟨rfl, rfl, rfl, rfl, hrequested (by simp)⟩ rfl rfl (fun _ => hdrained rfl) hphase
  · cases h
    exact hends ⟨rfl, rfl, rfl, rfl, hrequested (by simp)⟩ rfl (by simp [shutdownReturns]) hkept
  · -- the conclusion
    dsimp only at h
    split at h
    · cases h
      refine hw.ends hcall (by simp [shutdownReturns]) rfl fun s i hs => ?_
      simp [shutdownReturns] at hs
    · cases h
      exact hends ⟨rfl, rfl, rfl, rfl, hrequested (by simp)⟩ rfl (by simp [shutdownReturns]) hkept
  · cases h

theorem Closing.next {w w' : World} {a : Action} (hw : Closing w) (hres : Reserved w) (h : w.next a = some w') : Closing w' := by
  by_cases hnew : a = .shutdown
  · subst hnew
    exact hw.begin h
  · by_cases hstep : ∃ me o pc, a = .step me o ∧ w.calls[me]? = some (.shutdown pc)
    · obtain ⟨me, o, pc, rfl, hcall⟩ := hstep
      obtain ⟨t, ht, rfl⟩ := Option.map_eq_some_iff.mp h
      rw [hcall, Option.bind_some] at ht
      exact hw.attempt hcall ht
    · exact hw.frame (Still.next hres h hnew fun me o pc heq hcall => hstep ⟨me, o, pc, heq, hcall⟩)

theorem reachable_closing {capacity : Nat} {abortTimeout : Time} {w : World}
    (hw : (sessionMachine capacity abortTimeout).Reachable w) : Closing w := by
  refine hw.invariant_with reachable_reserved ?_ fun w a w' hw hres h => hw.next hres h
  exact ⟨by simp [sessionMachine], by simp [sessionMachine], by simp [sessionMachine], by simp [sessionMachine],
    by simp [sessionMachine]⟩

theorem marked_watchers (co : SessionCoordinator) (active : RuntimeState) (now : Time) :
    (co.markShutdownAborting active now).2.watchers = co.watchers := by
  unfold SessionCoordinator.markShutdownAborting
  split
  · rfl
  · split
    · rfl
    · split
      · split <;> rfl
      · rfl

theorem shutdown_watchers {co : SessionCoordinator} {calls : List Call} {spawnId : CallId} {pc : ShutdownPc} {o : Outcome}
    {t : Turn} (h : shutdownNext co calls spawnId pc o = some t) : t.co.watchers = co.watchers := by
  unfold shutdownNext at h
  split at h
  case h_6 active rest stopped now =>
    have hmarked := marked_watchers co active now
    split at h <;> rename_i heq <;> rw [heq] at hmarked <;> cases h <;> exact hmarked
  case h_23 =>
    dsimp only at h
    split at h <;> cases h <;> rfl
  case h_24 => cases h
  all_goals first
    | (cases h; rfl)
    | (split at h <;> cases h <;> rfl)
    | (split at h
       · cases h; rfl
       · obtain ⟨ok, _, rfl⟩ := Option.map_eq_some_iff.mp h; rfl)
    | (split at h
       · split at h <;> cases h; rfl
       · split at h <;> cases h <;> rfl)
    | (split at h
       · cases h; rfl
       · split at h
         · split at h <;> cases h; rfl
         · split at h <;> cases h <;> rfl)

inductive WatchersTurn (w : World) (call : Call) (t : Turn) : Prop
  | same (hwatchers : t.co.watchers = w.co.watchers)
      (hspawned : ∀ c, t.spawned = some c → ∀ s r pc, c ≠ .watcher s r pc)
      (hkept : ∀ s r pc, t.call = .watcher s r pc → ∃ pc₀, call = .watcher s r pc₀)
  | started {s : SessionId} {r : RunId} (hrun : call.run = some r)
      (hwatchers : t.co.watchers = w.co.watchers.set r w.calls.length)
      (hspawned : t.spawned = some (.watcher s r .polling)) (ht : t.call = .done)
  | dropped {r : RunId} (hrun : call.run = some r) (hwatchers : t.co.watchers = w.co.watchers.erase r)
      (hspawned : t.spawned = none) (ht : t.call = .done)

theorem CreationStep.watchers {co : SessionCoordinator} {fresh : Nat} {me : CallId} {session : SessionId} {creation : Creation}
    {t : CreationTurn} (h : CreationStep co fresh me session creation t) : t.co.watchers = co.watchers := by
  cases h <;> rfl

theorem turn_watchers {w : World} {me : CallId} {o : Outcome} {call : Call} {t : Turn} (h : call.next w me o = some t) :
    WatchersTurn w call t := by
  cases call with
  | submit session run pc =>
      cases submit_step h with
      | @creating _ ct hc =>
          refine .same hc.watchers (by simp [CreationTurn.turn]) ?_
          cases hp : ct.progress <;> simp [CreationTurn.turn, submitProgress, hp]
      | watched => exact .started rfl rfl rfl rfl
      | orphaned _ => exact .dropped rfl rfl rfl rfl
      | unwatched =>
          refine .dropped rfl ?_ rfl rfl
          dsimp only [SessionCoordinator.rollbackWatcher]
      | released =>
          refine .same ?_ (by simp) (by simp)
          dsimp only [SessionCoordinator.releaseReservation]
          split <;> rfl
      | _ => exact .same rfl (by simp) (by simp)
  | control session operation pc =>
      cases control_step h with
      | @creating _ ct hc =>
          refine .same hc.watchers (by simp [CreationTurn.turn]) ?_
          cases hp : ct.progress <;> simp [CreationTurn.turn, rewindProgress, hp]
      | left =>
          refine .same ?_ (by simp) (by simp)
          dsimp only [SessionCoordinator.leaveControl]
          split <;> rfl
      | _ => exact .same rfl (by simp) (by simp)
  | sideQuestion session pc =>
      cases btw_step h with
      | @creating _ ct hc =>
          refine .same hc.watchers (by simp [CreationTurn.turn]) ?_
          cases hp : ct.progress <;> simp [CreationTurn.turn, btwProgress, hp]
      | _ => exact .same rfl (by simp) (by simp)
  | ensureRuntime session creation =>
      obtain ⟨ct, hc, rfl⟩ := ensure_step h
      refine .same hc.watchers (by simp [CreationTurn.turn]) ?_
      cases hp : ct.progress <;> simp [CreationTurn.turn, ensureProgress, hp]
  | watcher session run pc =>
      cases watcher_step h with
      | closed =>
          by_cases hown : w.co.watchers.get? run = some me
          · refine .dropped rfl ?_ rfl rfl
            simp only [SessionCoordinator.closeWatcher, if_pos hown]
          · refine .same ?_ (by simp) (by simp)
            simp only [SessionCoordinator.closeWatcher, if_neg hown]
      | _ => exact .same rfl (by simp) (by simp)
  | worker job pc =>
      obtain ⟨_, _, _, rfl⟩ := worker_step h
      exact .same rfl (by simp) (by simp)
  | shutdown pc =>
      refine .same (shutdown_watchers h) ?_ ?_
      · intro c hc s r wpc heq
        cases shutdown_step h with
        | requested | marked _ _ _ _ _ | cleared _ _ => cases hc
        | moved _ hspawned =>
            obtain ⟨_, _, rfl⟩ := hspawned c hc
            cases heq
        | ended _ _ hspawned =>
            obtain ⟨_, _, rfl⟩ := hspawned c hc
            cases heq
      · intro s r wpc heq
        cases shutdown_step h <;> cases heq
  | done => cases h

theorem turn_runs {w : World} {me : CallId} {o : Outcome} {call : Call} {t : Turn} (h : call.next w me o = some t) :
    (∀ r, t.call.run = some r → call.run = some r) ∧
      ∀ c r, t.spawned = some c → c.run = some r → call.run = some r ∧ t.call.run ≠ some r := by
  cases call with
  | shutdown pc =>
      cases shutdown_step h with
      | requested | marked _ _ _ _ _ | cleared _ _ => simp [Call.run]
      | moved _ hspawned | ended _ _ hspawned =>
          refine ⟨by simp [Call.run], fun c r hc hr => ?_⟩
          obtain ⟨_, _, rfl⟩ := hspawned c hc
          cases hr
  | _ =>
      obtain ⟨hkept, hspawned, _, _⟩ := turn_run (by simp) h
      exact ⟨hkept, hspawned⟩

-- Every watcher that lives is registered, under the run it watches.
structure Watched (w : World) : Prop where
  apart : Exclusive Call.run w.calls
  known : ∀ call ∈ w.calls, ∀ r, call.run = some r → r < w.serial
  mapped : ∀ (i : CallId) s r pc, w.calls[i]? = some (.watcher s r pc) → w.co.watchers.get? r = some i

theorem Watched.turn {w : World} {me : CallId} {o : Outcome} {call : Call} {t : Turn} (hw : Watched w)
    (hcall : w.calls[me]? = some call) (h : call.next w me o = some t) : Watched (w.turn me t) := by
  obtain ⟨hkept, hspawned⟩ := turn_runs h
  have hmapped : ∀ (i : CallId) s r pc, i ≠ me → w.calls[i]? = some (.watcher s r pc) → t.co.watchers.get? r = some i := by
    intro i s r pc hne hi
    have hold := hw.mapped i s r pc hi
    have hother : ∀ {r'}, call.run = some r' → r ≠ r' := by
      rintro r' hrun rfl
      exact hne (hw.apart i me _ _ r hi hcall rfl hrun)
    cases turn_watchers h with
    | same hwatchers _ _ => exact hwatchers ▸ hold
    | started hrun hwatchers _ _ =>
        rw [hwatchers, Dict.get?_set_ne _ _ (hother hrun)]
        exact hold
    | dropped hrun hwatchers _ _ =>
        rw [hwatchers, Dict.get?_erase_ne _ (hother hrun)]
        exact hold
  refine ⟨hw.apart.replaceSlot hcall hkept hspawned, fun c hc r hr => ?_, fun i s r pc hi => ?_⟩
  · refine Nat.lt_succ_of_lt ?_
    have hbefore := hw.known call (List.mem_of_getElem? hcall) r
    rcases mem_replaceSlot hc with rfl | hold | hnew
    · exact hbefore (hkept r hr)
    · exact hw.known c hold r hr
    · exact hbefore (hspawned c r hnew hr).1
  · rcases replaceSlot_cases hi with ⟨rfl, heq⟩ | ⟨hne, hold⟩ | ⟨rfl, hnew⟩
    · cases turn_watchers h with
      | same hwatchers _ hsame =>
          obtain ⟨pc₀, rfl⟩ := hsame s r pc heq.symm
          change t.co.watchers.get? r = some i
          rw [hwatchers]
          exact hw.mapped i s r pc₀ hcall
      | started _ _ _ ht | dropped _ _ _ ht =>
          rw [ht] at heq
          cases heq
    · exact hmapped i s r pc hne hold
    · cases turn_watchers h with
      | same _ hnone _ => exact absurd rfl (hnone _ hnew s r pc)
      | started _ hwatchers hstarted _ =>
          rw [hstarted] at hnew
          cases hnew
          change t.co.watchers.get? r = some w.calls.length
          rw [hwatchers, Dict.get?_set_self]
      | dropped _ _ hnone _ =>
          rw [hnone] at hnew
          cases hnew

theorem Watched.enter {w : World} (hw : Watched w) {co : SessionCoordinator} {call : Call} {log : List Effect}
    (hwatchers : co.watchers = w.co.watchers) (hrun : ∀ r, call.run = some r → r = w.serial)
    (hcall : ∀ s r pc, call ≠ .watcher s r pc) :
    Watched { co, calls := w.calls ++ [call], serial := w.serial + 1, log } := by
  refine ⟨hw.apart.append fun r hr c hc hr' => ?_, fun c hc r hr => ?_, fun i s r pc hi => ?_⟩
  · have hlt := hw.known c hc r hr'
    rw [hrun r hr] at hlt
    exact Nat.lt_irrefl _ hlt
  · rcases List.mem_append.mp hc with hold | hnew
    · exact Nat.lt_succ_of_lt (hw.known c hold r hr)
    · rw [List.mem_singleton.mp hnew] at hr
      exact hrun r hr ▸ Nat.lt_succ_self _
  · rcases getElem?_concat_cases hi with hold | ⟨_, heq⟩
    · exact hwatchers ▸ hw.mapped i s r pc hold
    · exact absurd heq.symm (hcall s r pc)

theorem Watched.next {w w' : World} {a : Action} (hw : Watched w) (h : w.next a = some w') : Watched w' := by
  cases world_step h with
  | refused => exact hw
  | admitted _ _ _ => exact hw.enter rfl (by simp [Call.run]) (by simp)
  | controlled _ _ _ _ | asked _ | ensured | stopping => exact hw.enter rfl (by simp [Call.run]) (by simp)
  | aborted _ habort _ => cases habort <;> exact ⟨hw.apart, hw.known, hw.mapped⟩
  | routed => exact ⟨hw.apart, hw.known, hw.mapped⟩
  | stepped hcall hnext => exact hw.turn hcall hnext

theorem reachable_watched {capacity : Nat} {abortTimeout : Time} {w : World}
    (hw : (sessionMachine capacity abortTimeout).Reachable w) : Watched w :=
  hw.invariant ⟨.nil _, by simp [sessionMachine], by simp [sessionMachine]⟩ fun _ _ _ hw h => hw.next h

end GaHub.Sessions
