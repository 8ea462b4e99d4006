import GaHub.Sessions.Calls

namespace GaHub.Sessions

open Lib

-- What one step of each kind of call can do, said once. Steps that only move
-- the call on are grouped by the effects they leave.

section Creation

variable {co : SessionCoordinator} {fresh : Nat} {me : CallId} {session : SessionId}

inductive CreationStep (co : SessionCoordinator) (fresh : Nat) (me : CallId) (session : SessionId) :
    Creation → CreationTurn → Prop where
  | found {runtime : RuntimeId} (hr : co.runtimes.get? session = some runtime) :
      CreationStep co fresh me session .lookup { co, progress := .returned runtime }
  | queued {gates : Dict SessionId (Option CallId)} (hr : co.runtimes.get? session = none)
      (hg : ∀ s, gates.get? s = co.creationGates.get? s ∨
        co.creationGates.get? s = none ∧ gates.get? s = some none) :
      CreationStep co fresh me session .lookup
        { co := { co with creationGates := gates }, progress := .goesOn (.waiting (co.epoch session)) }
  | entered {epoch : Nat} (hg : co.creationGates.get? session = some none) :
      CreationStep co fresh me session (.waiting epoch)
        { co := { co with creationGates := co.creationGates.set session (some me) }
          progress := .goesOn (.holding epoch) }
  | refound {epoch : Nat} {runtime : RuntimeId} (hr : co.runtimes.get? session = some runtime) :
      CreationStep co fresh me session (.holding epoch)
        { co := co.openGate session, progress := .returned runtime }
  | started {epoch : Nat} (hr : co.runtimes.get? session = none) :
      CreationStep co fresh me session (.holding epoch)
        { co
          progress := .goesOn (.building epoch (.built fresh))
          log := [.factoryStarted session (.built fresh)] }
  | returned {epoch : Nat} {runtime : RuntimeId} :
      CreationStep co fresh me session (.building epoch runtime)
        { co, progress := .goesOn (.built epoch runtime), log := [.factoryReturned session runtime] }
  | raised {epoch : Nat} {runtime : RuntimeId} :
      CreationStep co fresh me session (.building epoch runtime)
        { co := co.openGate session, progress := .raised .external }
  | installed {epoch : Nat} {runtime : RuntimeId} (he : co.epoch session = epoch)
      (hs : co.shutdownRequested = false) :
      CreationStep co fresh me session (.built epoch runtime)
        { co := { co.openGate session with runtimes := co.runtimes.set session runtime }
          progress := .returned runtime
          log := [.installed session runtime] }
  | rejected {epoch : Nat} {runtime : RuntimeId}
      (he : ¬(co.epoch session = epoch ∧ co.shutdownRequested = false)) :
      CreationStep co fresh me session (.built epoch runtime)
        { co, progress := .goesOn (.discarding runtime co.shutdownRequested) }
  | discarded {runtime : RuntimeId} {stopping : Bool} {error : CoordinatorError} :
      CreationStep co fresh me session (.discarding runtime stopping)
        { co := co.openGate session, progress := .raised error, log := [.shutdownCalled runtime] }

theorem creation_step {creation : Creation} {o : Outcome} {t : CreationTurn}
    (h : creation.next co fresh me session o = some t) :
    CreationStep co fresh me session creation t := by
  unfold Creation.next at h
  split at h
  · split at h <;> cases h
    · exact .found ‹_›
    · refine .queued ‹_› fun s => ?_
      split
      · rename_i hnone
        by_cases hs : s = session
        · subst hs
          exact Or.inr ⟨Option.isNone_iff_eq_none.mp hnone, Dict.get?_set_self ..⟩
        · exact Or.inl (Dict.get?_set_ne _ _ hs)
      · exact Or.inl rfl
  · split at h <;> cases h
    exact .entered ‹_›
  · split at h <;> cases h
    · exact .refound ‹_›
    · exact .started ‹_›
  · cases h
    exact .returned
  · cases h
    exact .raised
  · split at h <;> cases h
    · rename_i hok
      exact .installed hok.1 hok.2
    · exact .rejected ‹_›
  · cases h
    exact .discarded
  · cases h

end Creation

def submitProgress (session : SessionId) (run : RunId) : Progress → Call
  | .goesOn creation => .submit session run (.creating creation)
  | .returned runtime => .submit session run (.obtained runtime)
  | .raised _ => .submit session run .failing

def rewindProgress (session : SessionId) (operation : String) : Progress → Call
  | .goesOn creation => .control session operation (.creating creation)
  | .returned runtime => .control session operation (.rewinding runtime)
  | .raised _ => .control session operation .leaving

def btwProgress (session : SessionId) : Progress → Call
  | .goesOn creation => .sideQuestion session (.creating creation)
  | .returned runtime => .sideQuestion session (.asking runtime)
  | .raised _ => .sideQuestion session .leaving

def ensureProgress (session : SessionId) : Progress → Call
  | .goesOn creation => .ensureRuntime session creation
  | .returned _ => .done
  | .raised _ => .done

def Effect.Silent : Effect → Prop
  | .stateChanged _ | .disposerCalled _ | .shutdownReturned _ => True
  | _ => False

theorem announce_silent {co : SessionCoordinator} {state : RuntimeState} {o : Outcome}
    {returned : Bool} {log : List Effect} (h : announce co state o = some (returned, log)) :
    ∀ e ∈ log, e.Silent := by
  unfold announce at h
  split at h
  · cases h
    split <;> simp [Effect.Silent]
  · split at h <;> cases h
    simp [Effect.Silent]
  · cases h

section Submit

variable {co : SessionCoordinator} {fresh : Nat} {me spawnId : CallId} {session : SessionId}
  {run : RunId}

inductive SubmitStep (co : SessionCoordinator) (fresh : Nat) (me spawnId : CallId)
    (session : SessionId) (run : RunId) : SubmitPc → Turn → Prop where
  | creating {creation : Creation} {t : CreationTurn}
      (hc : CreationStep co fresh me session creation t) :
      SubmitStep co fresh me spawnId session run (.creating creation)
        (t.turn (submitProgress session run))
  | cleared {runtime : RuntimeId} (hp : co.reservationStatus session run = some .starting) :
      SubmitStep co fresh me spawnId session run (.obtained runtime)
        { co, call := .submit session run (.cleared runtime) }
  | stopped {runtime : RuntimeId} (hp : co.reservationStatus session run ≠ some .starting) :
      SubmitStep co fresh me spawnId session run (.obtained runtime)
        { co, call := .submit session run (.settling (co.reservationStatus session run)) }
  | settled {pending : Option Status} {state : RuntimeState} {active : RuntimeState}
      (hr : co.reservation session run = some active) (hs : state.sessionId = session) :
      SubmitStep co fresh me spawnId session run (.settling pending)
        { co := (co.forgetAbort run).retire session state
          call := .submit session run (.settled pending state) }
  | begun {runtime : RuntimeId} :
      SubmitStep co fresh me spawnId session run (.cleared runtime)
        { co, call := .submit session run (.begun runtime) }
  | called {runtime : RuntimeId} :
      SubmitStep co fresh me spawnId session run (.begun runtime)
        { co, call := .submit session run (.submitting runtime), log := [.submitCalled run runtime] }
  | returned {runtime : RuntimeId} {streamId : String} :
      SubmitStep co fresh me spawnId session run (.submitting runtime)
        { co, call := .submit session run (.submitted runtime streamId) }
  | running {runtime : RuntimeId} {streamId : String} {active : RuntimeState}
      (hr : co.reservation session run = some active) (hs : active.status = .starting) :
      SubmitStep co fresh me spawnId session run (.submitted runtime streamId)
        { co := co.project session
            { sessionId := session, status := .running, runId := some run, streamId := some streamId }
          call := .submit session run (.promoted runtime streamId) }
  | aborting {runtime : RuntimeId} {streamId : String} {active : RuntimeState}
      (hr : co.reservation session run = some active) (hs : active.status ≠ .starting) :
      SubmitStep co fresh me spawnId session run (.submitted runtime streamId)
        { co, call := .submit session run (.promoted runtime streamId) }
  | orphaned {runtime : RuntimeId} {streamId : String} (hr : co.reservation session run = none) :
      SubmitStep co fresh me spawnId session run (.submitted runtime streamId)
        { co := co.forgetOrphan run, call := .done, log := [.abortCalled runtime] }
  | watched {runtime : RuntimeId} {streamId : String} :
      SubmitStep co fresh me spawnId session run (.promoted runtime streamId)
        { co := { co with watchers := co.watchers.set run spawnId }
          call := .done
          spawned := some (.watcher session run .polling) }
  | unwatched {runtime : RuntimeId} {streamId : String} :
      SubmitStep co fresh me spawnId session run (.promoted runtime streamId)
        { co := co.rollbackWatcher session run, call := .done, log := [.abortCalled runtime] }
  -- on the way out: towards the handler, between its two halves, or past it
  | failed {pc pc' : SubmitPc} {log : List Effect} (hbusy : ∀ creation, pc ≠ .creating creation)
      (hpc : pc' = .failing ∨ pc' = .releasing) (hlog : ∀ e ∈ log, e.Silent) :
      SubmitStep co fresh me spawnId session run pc { co, call := .submit session run pc', log }
  | ended {pc : SubmitPc} {log : List Effect} (hbusy : ∀ creation, pc ≠ .creating creation)
      (hlog : ∀ e ∈ log, e.Silent) :
      SubmitStep co fresh me spawnId session run pc { co, call := .done, log }
  | released :
      SubmitStep co fresh me spawnId session run .releasing
        { co := co.releaseReservation session run, call := .done }

theorem afterSettling_step {pc : SubmitPc} {pending : Option Status} {log : List Effect}
    (hbusy : ∀ creation, pc ≠ .creating creation) (hlog : ∀ e ∈ log, e.Silent) :
    SubmitStep co fresh me spawnId session run pc
      { co, call := afterSettling session run pending, log } := by
  unfold afterSettling
  split
  · exact .ended hbusy hlog
  · exact .failed hbusy (Or.inl rfl) hlog

theorem submit_step {pc : SubmitPc} {o : Outcome} {t : Turn}
    (h : submitNext co fresh me spawnId session run pc o = some t) :
    SubmitStep co fresh me spawnId session run pc t := by
  unfold submitNext at h
  split at h
  · obtain ⟨ct, hct, rfl⟩ := Option.map_eq_some_iff.mp h
    exact .creating (creation_step hct)
  · cases h
    by_cases hp : co.reservationStatus session run = some .starting
    · simpa only [if_pos hp] using .cleared hp
    · simpa only [if_neg hp] using .stopped hp
  · unfold SessionCoordinator.finishAbortedStart at h
    cases hr : co.reservation session run with
    | none =>
        simp only [hr] at h
        cases h
        exact afterSettling_step (by simp) (by simp)
    | some active =>
        simp only [hr] at h
        cases h
        exact .settled hr rfl
  · obtain ⟨⟨returned, log⟩, ha, rfl⟩ := Option.map_eq_some_iff.mp h
    have hsilent := announce_silent ha
    cases returned with
    | false => exact .failed (by simp) (Or.inl rfl) hsilent
    | true => exact afterSettling_step (by simp) hsilent
  · cases h
    exact .begun
  · cases h
    exact .failed (by simp) (Or.inl rfl) (by simp)
  · cases h
    exact .called
  · cases h
    exact .returned
  · cases h
    exact .failed (by simp) (Or.inl rfl) (by simp)
  · unfold SessionCoordinator.promote at h
    cases hr : co.reservation session run with
    | none =>
        simp only [hr] at h
        cases h
        exact .orphaned hr
    | some active =>
        by_cases hs : active.status = .starting
        · simp only [hr, if_pos hs] at h
          cases h
          exact .running hr hs
        · simp only [hr, if_neg hs] at h
          cases h
          exact .aborting hr hs
  · cases h
    exact .watched
  · cases h
    exact .unwatched
  · cases h
    exact .failed (by simp) (Or.inr rfl) (by simp)
  · cases h
    exact .ended (by simp) (by simp)
  · cases h
    exact .released
  · cases h

end Submit

section Controls

variable {co : SessionCoordinator} {fresh : Nat} {me : CallId} {session : SessionId}
  {operation : String}

inductive ControlStep (co : SessionCoordinator) (fresh : Nat) (me : CallId) (session : SessionId)
    (operation : String) : ControlPc → Turn → Prop where
  | creating {creation : Creation} {t : CreationTurn}
      (hc : CreationStep co fresh me session creation t) :
      ControlStep co fresh me session operation (.creating creation)
        (t.turn (rewindProgress session operation))
  | worked {pc : ControlPc} {d : Option RuntimeCall}
      (hpc : pc = .acting ∨ (∃ runtime, pc = .rewinding runtime) ∨ ∃ call, pc = .disposing call) :
      ControlStep co fresh me session operation pc
        { co
          call := .control session operation .leaving
          log := (d.map RuntimeCall.effect).toList }
  | detached {shutdown : Bool} :
      ControlStep co fresh me session operation (.detaching shutdown)
        { co := { co with runtimes := co.runtimes.erase session }
          call := .control session operation (.detached (co.runtimes.get? session) shutdown)
          log := .released session :: removal session (co.runtimes.get? session) }
  | bumped {previous : Option RuntimeId} {shutdown : Bool} :
      ControlStep co fresh me session operation (.detached previous shutdown)
        { co := { co.bumpEpoch session with states := co.states.erase session }
          call := .control session operation (.disposing (releaseDisposer previous shutdown))
          log := [.invalidated session] }
  | replaced {prepared : Nat} {shutdown : Bool} :
      ControlStep co fresh me session operation (.replacing prepared shutdown)
        { co := { co.bumpEpoch session with
            runtimes := co.runtimes.set session (.prepared prepared)
            states := co.states.erase session }
          call := .control session operation
            (.disposing (replaceDisposer (co.runtimes.get? session) shutdown))
          log := .replaced session :: removal session (co.runtimes.get? session) }
  | left :
      ControlStep co fresh me session operation .leaving
        { co := co.leaveControl session operation, call := .done }

theorem control_step {pc : ControlPc} {o : Outcome} {t : Turn}
    (h : controlNext co fresh me session operation pc o = some t) :
    ControlStep co fresh me session operation pc t := by
  unfold controlNext at h
  split at h
  · cases h
    exact .worked (d := none) (Or.inl rfl)
  · cases h
    exact .worked (d := none) (Or.inl rfl)
  · obtain ⟨ct, hct, rfl⟩ := Option.map_eq_some_iff.mp h
    exact .creating (creation_step hct)
  · cases h
    exact .worked (d := none) (Or.inr (Or.inl ⟨_, rfl⟩))
  · cases h
    exact .worked (d := none) (Or.inr (Or.inl ⟨_, rfl⟩))
  · cases h
    exact .detached
  · cases h
    exact .bumped
  · cases h
    exact .replaced
  · cases h
    exact .worked (Or.inr (Or.inr ⟨_, rfl⟩))
  · cases h
    exact .worked (Or.inr (Or.inr ⟨_, rfl⟩))
  · cases h
    exact .left
  · cases h

inductive BtwStep (co : SessionCoordinator) (fresh : Nat) (me : CallId) (session : SessionId) :
    BtwPc → Turn → Prop where
  | creating {creation : Creation} {t : CreationTurn}
      (hc : CreationStep co fresh me session creation t) :
      BtwStep co fresh me session (.creating creation) (t.turn (btwProgress session))
  | answered {runtime : RuntimeId} :
      BtwStep co fresh me session (.asking runtime) { co, call := .sideQuestion session .leaving }
  | left : BtwStep co fresh me session .leaving { co := co.leaveSideQuestion session, call := .done }

theorem btw_step {pc : BtwPc} {o : Outcome} {t : Turn}
    (h : sideQuestionNext co fresh me session pc o = some t) : BtwStep co fresh me session pc t := by
  unfold sideQuestionNext at h
  split at h
  · obtain ⟨ct, hct, rfl⟩ := Option.map_eq_some_iff.mp h
    exact .creating (creation_step hct)
  · cases h
    exact .answered
  · cases h
    exact .answered
  · cases h
    exact .left
  · cases h

theorem ensure_step {creation : Creation} {o : Outcome} {t : Turn}
    (h : ensureRuntimeNext co fresh me session creation o = some t) :
    ∃ ct, CreationStep co fresh me session creation ct ∧ t = ct.turn (ensureProgress session) := by
  obtain ⟨ct, hct, rfl⟩ := Option.map_eq_some_iff.mp h
  exact ⟨ct, creation_step hct, rfl⟩

end Controls

section Watcher

variable {co : SessionCoordinator} {me : CallId} {session : SessionId} {run : RunId}

inductive WatcherStep (co : SessionCoordinator) (me : CallId) (session : SessionId) (run : RunId) :
    WatcherPc → Turn → Prop where
  | moved {pc pc' : WatcherPc} {log : List Effect} (hlog : ∀ e ∈ log, e.Silent) :
      WatcherStep co me session run pc { co, call := .watcher session run pc', log }
  | expired {active : RuntimeState} (hr : co.reservation session run = some active)
      (hs : active.status = .aborting) {state : RuntimeState}
      (hstate : state = { active with status := .error, error := some "abort_timeout" }) :
      WatcherStep co me session run .polling
        { co := co.project session state, call := .watcher session run (.notifying state) }
  | completed {active : RuntimeState} (hr : co.reservation session run = some active)
      {state : RuntimeState} :
      WatcherStep co me session run .completing
        { co := (co.forgetAbort run).retire session state
          call := .watcher session run (.announcing state)
          log := [.handleFinished run] }
  | closed : WatcherStep co me session run .closing { co := co.closeWatcher run me, call := .done }

theorem watchTimeout_eq_some {now : Time} {state : RuntimeState} {co' : SessionCoordinator}
    (h : co.watchTimeout session run now = some (state, co')) :
    ∃ active, co.reservation session run = some active ∧ active.status = .aborting ∧
      state = { active with status := .error, error := some "abort_timeout" } ∧
      co' = co.project session state := by
  unfold SessionCoordinator.watchTimeout at h
  split at h
  · split at h
    · rename_i hr _ hok
      cases h
      exact ⟨_, hr, hok.1, rfl, rfl⟩
    · cases h
  · cases h

theorem watcher_step {pc : WatcherPc} {o : Outcome} {t : Turn}
    (h : watcherNext co me session run pc o = some t) : WatcherStep co me session run pc t := by
  unfold watcherNext at h
  split at h
  · split at h <;> cases h
    · exact .moved (by simp)
    · rename_i hw
      obtain ⟨active, hr, hs, hstate, rfl⟩ := watchTimeout_eq_some hw
      exact .expired hr hs hstate
  · cases h
    exact .moved (by simp)
  · obtain ⟨⟨returned, log⟩, ha, rfl⟩ := Option.map_eq_some_iff.mp h
    exact .moved (announce_silent ha)
  · unfold SessionCoordinator.complete at h
    cases hr : co.reservation session run with
    | none =>
        simp only [hr] at h
        cases h
        exact .moved (by simp)
    | some active =>
        simp only [hr] at h
        cases h
        exact .completed hr
  · split at h <;> cases h
    exact .moved (by simp)
  · obtain ⟨⟨returned, log⟩, ha, rfl⟩ := Option.map_eq_some_iff.mp h
    exact .moved (announce_silent ha)
  · cases h
    exact .closed
  · cases h

end Watcher

theorem worker_step {co : SessionCoordinator} {job : RuntimeCall} {pc : WorkerPc} {o : Outcome}
    {t : Turn} (h : workerNext co job pc o = some t) :
    ∃ pc' log, (log = [] ∨ log = [job.effect]) ∧ t = { co, call := .worker job pc', log } := by
  unfold workerNext at h
  split at h <;> cases h
  · exact ⟨_, _, Or.inr rfl, rfl⟩
  · exact ⟨_, _, Or.inl rfl, rfl⟩
  · exact ⟨_, _, Or.inl rfl, rfl⟩

section Shutdown

variable {co : SessionCoordinator} {calls : List Call} {spawnId : CallId}

-- Fields only `shutdown` itself works with.
structure SameButRegistries (co co' : SessionCoordinator) : Prop where
  capacity : co'.capacity = co.capacity
  runtimes : co'.runtimes = co.runtimes
  active : co'.activeBySession = co.activeBySession
  controls : co'.exclusiveControls = co.exclusiveControls
  questions : co'.sideQuestions = co.sideQuestions
  requested : co'.shutdownRequested = co.shutdownRequested
  gates : co'.creationGates = co.creationGates
  epochs : co'.runtimeEpoch = co.runtimeEpoch

inductive ShutdownStep (co : SessionCoordinator) : ShutdownPc → Turn → Prop where
  | requested {pc' : ShutdownPc} :
      ShutdownStep co .requesting
        { co := { co with shutdownRequested := true }
          call := .shutdown pc'
          log := [.shutdownRequested] }
  | marked {active current : RuntimeState} {rest : List RuntimeState} {stopped : Bool} {run : RunId}
      {runtime : RuntimeId} {now : Time}
      (hc : co.activeBySession.get? active.sessionId = some current) (hr : current.runId = some run)
      (hs : SessionCoordinator.stopped current = false)
      (hrt : co.runtimes.get? active.sessionId = some runtime) {state : RuntimeState}
      (hstate : state = { current with status := .aborting }) :
      ShutdownStep co (.marking (active :: rest) stopped)
        { co := { co with abortStarted := co.abortStarted.set run now }.project active.sessionId state
          call := .shutdown (.aborting run runtime rest stopped) }
  | moved {pc pc' : ShutdownPc} {co' : SessionCoordinator} {spawned : Option Call}
      (hco : SameButRegistries co co')
      (hspawned : ∀ c ∈ spawned, ∃ job wpc, c = .worker job wpc) :
      ShutdownStep co pc { co := co', call := .shutdown pc', spawned }
  | ended {pc : ShutdownPc} {co' : SessionCoordinator} {spawned : Option Call} {log : List Effect}
      (hco : SameButRegistries co co') (hlog : ∀ e ∈ log, e.Silent)
      (hspawned : ∀ c ∈ spawned, ∃ job wpc, c = .worker job wpc) :
      ShutdownStep co pc { co := co', call := .done, spawned, log }
  | cleared {stopped : Bool} {co' : SessionCoordinator}
      (hactive : co.activeBySession.keys = [])
      (hco : SameButRegistries { co with runtimes := .empty } co') :
      ShutdownStep co (.concluding stopped)
        { co := co'
          call := .done
          log := co.runtimes.entries.map (fun e => .removed e.1 e.2) ++ [.shutdownReturned true] }

theorem SameButRegistries.refl (co : SessionCoordinator) : SameButRegistries co co :=
  ⟨rfl, rfl, rfl, rfl, rfl, rfl, rfl, rfl⟩

theorem marking_step {active : RuntimeState} {rest : List RuntimeState} {stopped : Bool} {now : Time}
    {t : Turn}
    (h : shutdownNext co calls spawnId (.marking (active :: rest) stopped) (.at now) = some t) :
    ShutdownStep co (.marking (active :: rest) stopped) t := by
  simp only [shutdownNext, SessionCoordinator.markShutdownAborting] at h
  cases hc : co.activeBySession.get? active.sessionId with
  | none =>
      simp only [hc] at h
      cases h
      exact .moved (.refl co) (by simp)
  | some current =>
      simp only [hc] at h
      by_cases hid : current.runId ≠ active.runId
      · simp only [if_pos hid] at h
        cases h
        exact .moved (.refl co) (by simp)
      · simp only [if_neg hid] at h
        cases hrt : co.runtimes.get? active.sessionId with
        | none =>
            simp only [hrt] at h
            cases h
            exact .moved (.refl co) (by simp)
        | some runtime =>
            cases hr : current.runId with
            | none =>
                simp only [hrt, hr] at h
                cases h
                exact .moved (.refl co) (by simp)
            | some run =>
                simp only [hrt, hr] at h
                cases hs : SessionCoordinator.stopped current with
                | true =>
                    simp only [hs, if_true] at h
                    cases h
                    exact .moved (.refl co) (by simp)
                | false =>
                    simp only [hs, Bool.false_eq_true, if_false] at h
                    cases h
                    exact .marked hc hr hs hrt (by rw [hr])

theorem shutdown_step {pc : ShutdownPc} {o : Outcome} {t : Turn}
    (h : shutdownNext co calls spawnId pc o = some t) : ShutdownStep co pc t := by
  cases pc with
  | requesting =>
      cases o <;> cases h
      exact .requested
  | waiting =>
      cases o <;> cases h
      · exact .moved (.refl co) (by simp)
      · exact .ended ⟨rfl, rfl, rfl, rfl, rfl, rfl, rfl, rfl⟩ (by simp [Effect.Silent]) (by simp)
  | snapshotActive =>
      cases o <;> cases h
      · exact .moved (.refl co) (by simp)
      · exact .ended ⟨rfl, rfl, rfl, rfl, rfl, rfl, rfl, rfl⟩ (by simp [Effect.Silent]) (by simp)
  | marking rest stopped =>
      cases rest with
      | nil =>
          cases o <;> cases h
          exact .moved (.refl co) (by simp)
      | cons active rest =>
          cases o with
          | «at» now => exact marking_step h
          | expires =>
              cases h
              exact .moved (.refl co) (by simp)
          | _ => cases h
  | aborting run runtime rest stopped =>
      simp only [shutdownNext] at h
      split at h
      · split at h <;> cases h
        exact .moved (.refl co) (by simp)
      · split at h <;> cases h
        · exact .moved ⟨rfl, rfl, rfl, rfl, rfl, rfl, rfl, rfl⟩ (by simp)
        · exact .ended ⟨rfl, rfl, rfl, rfl, rfl, rfl, rfl, rfl⟩ (by simp) (by simp)
  | joiningAborts rest joined stopped =>
      cases rest with
      | nil =>
          cases o <;> cases h
          exact .moved ⟨rfl, rfl, rfl, rfl, rfl, rfl, rfl, rfl⟩ (by simp)
      | cons thread rest =>
          simp only [shutdownNext] at h
          split at h
          · cases h
            exact .ended ⟨rfl, rfl, rfl, rfl, rfl, rfl, rfl, rfl⟩ (by simp) (by simp)
          · obtain ⟨ok, _, rfl⟩ := Option.map_eq_some_iff.mp h
            exact .moved (.refl co) (by simp)
  | snapshotRuntimes stopped =>
      cases o <;> cases h
      · exact .moved (.refl co) (by simp)
      · exact .ended ⟨rfl, rfl, rfl, rfl, rfl, rfl, rfl, rfl⟩ (by simp [Effect.Silent]) (by simp)
  | stopping rest stopped =>
      cases rest with
      | nil =>
          cases o <;> cases h
          exact .moved (.refl co) (by simp)
      | cons e rest =>
          simp only [shutdownNext] at h
          split at h
          · cases h
            exact .moved (.refl co) (by simp)
          · split at h
            · split at h <;> cases h
              exact .moved (.refl co) (by simp)
            · split at h <;> cases h
              · exact .moved ⟨rfl, rfl, rfl, rfl, rfl, rfl, rfl, rfl⟩ (by simp)
              · exact .ended ⟨rfl, rfl, rfl, rfl, rfl, rfl, rfl, rfl⟩ (by simp) (by simp)
  | joining rest joined stopped =>
      cases rest with
      | nil =>
          cases o <;> cases h
          exact .moved (.refl co) (by simp)
      | cons thread rest =>
          simp only [shutdownNext] at h
          split at h
          · cases h
            exact .ended ⟨rfl, rfl, rfl, rfl, rfl, rfl, rfl, rfl⟩ (by simp) (by simp)
          · obtain ⟨ok, _, rfl⟩ := Option.map_eq_some_iff.mp h
            exact .moved (.refl co) (by simp)
  | snapshotWatchers stopped =>
      cases o <;> cases h
      · exact .moved (.refl co) (by simp)
      · exact .ended ⟨rfl, rfl, rfl, rfl, rfl, rfl, rfl, rfl⟩ (by simp [Effect.Silent]) (by simp)
  | joiningWatchers rest stopped =>
      cases rest with
      | nil =>
          cases o <;> cases h
          · exact .moved (.refl co) (by simp)
          · exact .ended ⟨rfl, rfl, rfl, rfl, rfl, rfl, rfl, rfl⟩ (by simp [Effect.Silent]) (by simp)
      | cons thread rest =>
          simp only [shutdownNext] at h
          split at h <;> cases h
          exact .moved (.refl co) (by simp)
  | concluding stopped =>
      cases o <;> simp only [shutdownNext, reduceCtorEq] at h
      split at h
      · rename_i hidle
        cases h
        simp only [Bool.and_eq_true, List.isEmpty_iff] at hidle
        exact .cleared hidle.2.1 ⟨rfl, rfl, rfl, rfl, rfl, rfl, rfl, rfl⟩
      · cases h
        exact .ended ⟨rfl, rfl, rfl, rfl, rfl, rfl, rfl, rfl⟩ (by simp [Effect.Silent]) (by simp)

end Shutdown

section Entering

variable {co co' : SessionCoordinator} {session : SessionId}

theorem raiseIfShutdown_bind {α : Type} {f : Except CoordinatorError α} {a : α}
    (h : (do co.raiseIfShutdown; f) = .ok a) : co.shutdownRequested = false ∧ f = .ok a := by
  cases hs : co.shutdownRequested with
  | true =>
      simp only [SessionCoordinator.raiseIfShutdown, hs, if_true] at h
      cases h
  | false =>
      simp only [SessionCoordinator.raiseIfShutdown, hs, Bool.false_eq_true, if_false] at h
      exact ⟨rfl, h⟩

theorem raiseIfControlBusy_bind {α : Type} {includeSide : Bool} {f : Except CoordinatorError α} {a : α}
    (h : (do co.raiseIfControlBusy session includeSide; f) = .ok a) :
    co.exclusiveControls.get? session = none ∧ (includeSide = true → co.sideCount session = 0) ∧
      f = .ok a := by
  cases hc : co.exclusiveControls.get? session with
  | some operation =>
      simp only [SessionCoordinator.raiseIfControlBusy, hc] at h
      cases h
  | none =>
      simp only [SessionCoordinator.raiseIfControlBusy, hc] at h
      by_cases hside : (includeSide && decide (0 < co.sideCount session)) = true
      · rw [if_pos hside] at h
        cases h
      · rw [if_neg hside] at h
        refine ⟨rfl, fun hinc => ?_, h⟩
        simp only [hinc, Bool.true_and, decide_eq_true_eq] at hside
        omega

theorem admitRun_ok {run : RunId} (h : co.admitRun session run = .ok co') :
    co.shutdownRequested = false ∧ co.exclusiveControls.get? session = none ∧
      co.activeBySession.get? session = none ∧ co.activeBySession.size < co.capacity ∧
      co' = co.project session { sessionId := session, status := .starting, runId := some run } := by
  obtain ⟨hstop, h⟩ := raiseIfShutdown_bind h
  obtain ⟨hctl, _, h⟩ := raiseIfControlBusy_bind h
  cases ha : co.activeBySession.get? session with
  | some active =>
      simp only [ha] at h
      cases h
  | none =>
      simp only [ha] at h
      split at h
      · split at h <;> cases h
      · cases h
        exact ⟨hstop, hctl, rfl, by omega, rfl⟩

theorem reserveControl_ok {operation : String} (h : co.reserveControl session operation = .ok co') :
    co.shutdownRequested = false ∧ co.exclusiveControls.get? session = none ∧
      co.activeBySession.get? session = none ∧ co.sideCount session = 0 ∧
      co' = { co with exclusiveControls := co.exclusiveControls.set session operation } := by
  obtain ⟨hstop, h⟩ := raiseIfShutdown_bind h
  cases ha : co.activeBySession.get? session with
  | some active =>
      simp only [ha] at h
      cases h
  | none =>
      simp only [ha] at h
      obtain ⟨hctl, hside, h⟩ := raiseIfControlBusy_bind h
      cases h
      exact ⟨hstop, hctl, rfl, hside rfl, rfl⟩

theorem admitSideQuestion_ok (h : co.admitSideQuestion session = .ok co') :
    co.shutdownRequested = false ∧ co.exclusiveControls.get? session = none ∧
      co' = { co with sideQuestions := co.sideQuestions.set session (co.sideCount session + 1) } := by
  obtain ⟨hstop, h⟩ := raiseIfShutdown_bind h
  obtain ⟨hctl, _, h⟩ := raiseIfControlBusy_bind h
  cases h
  exact ⟨hstop, hctl, rfl⟩

theorem ensure_ok (h : (co.raiseIfShutdown.map fun _ => co) = .ok co') :
    co.shutdownRequested = false ∧ co' = co := by
  cases hs : co.shutdownRequested with
  | true =>
      simp only [SessionCoordinator.raiseIfShutdown, hs, if_true] at h
      cases h
  | false =>
      simp only [SessionCoordinator.raiseIfShutdown, hs, Bool.false_eq_true, if_false] at h
      cases h
      exact ⟨rfl, rfl⟩

end Entering

section Abort

variable {w : World} {active : RuntimeState} {now : Time}

-- The effects of `runtime.abort()` inside `_abort_locked`.
def abortCalls (co : SessionCoordinator) (active : RuntimeState) : List Effect :=
  ((co.abortTarget active).map Effect.abortCalled).toList

inductive AbortStep (w : World) (active : RuntimeState) (raises : Bool) : World → Prop where
  | raised : AbortStep w active raises { w with log := w.log ++ abortCalls w.co active }
  | again (hs : SessionCoordinator.stopped active = true) {log : List Effect}
      (hlog : ∀ e ∈ log, ∃ run, e = .stopAccepted run ∧ active.runId = some run ∧
        active.status = .aborting) :
      AbortStep w active raises { w with log := w.log ++ log }
  | marked (hs : SessionCoordinator.stopped active = false) {run : RunId}
      (hr : active.runId = some run) {now : Time} {state : RuntimeState}
      (hstate : state = { active with status := .aborting })
      (hcalled : raises = true → w.co.runtimes.get? active.sessionId = none) :
      AbortStep w active raises { w with
        co := { w.co with abortStarted := w.co.abortStarted.set run now }.project active.sessionId state
        log := w.log ++ (abortCalls w.co active ++ [.stopAccepted run]) }

theorem abortEntry_step (raises : Bool) :
    AbortStep w active raises (w.abortEntry active now raises) := by
  unfold World.abortEntry
  split
  · exact .raised
  · rename_i hcalled
    cases hs : SessionCoordinator.stopped active with
    | true =>
        have hcalls : abortCalls w.co active = [] := by
          simp [abortCalls, SessionCoordinator.abortTarget, hs]
        simp only [SessionCoordinator.abortLocked, hs, if_true]
        change AbortStep w active raises { w with log := w.log ++ abortCalls w.co active ++ _ }
        rw [hcalls, List.append_nil]
        refine .again hs fun e he => ?_
        split at he
        · rename_i hab
          cases hr : active.runId with
          | none => simp [hr] at he
          | some run =>
              simp only [hr, Option.map_some, Option.toList_some, List.mem_singleton] at he
              exact ⟨run, he, rfl, hab⟩
        · simp at he
    | false =>
        simp only [SessionCoordinator.abortLocked, hs, Bool.false_eq_true, if_false]
        cases hr : active.runId with
        | none => exact .raised
        | some run =>
            simp only [Option.map_some, if_true, Option.toList_some, List.append_assoc]
            refine .marked hs hr (by rw [hr]) fun hraises => ?_
            simpa [hraises, SessionCoordinator.abortTarget, hs] using hcalled

end Abort

inductive WorldStep (w : World) : Action → World → Prop where
  | refused {a : Action} : WorldStep w a w
  | admitted {session : SessionId} (hctl : w.co.exclusiveControls.get? session = none)
      (hfree : w.co.activeBySession.get? session = none)
      (hroom : w.co.activeBySession.size < w.co.capacity) :
      WorldStep w (.submitStream session) { w with
        co := w.co.project session
          { sessionId := session, status := .starting, runId := some w.serial }
        calls := w.calls ++ [.submit session w.serial (.creating .lookup)]
        serial := w.serial + 1 }
  | controlled {a : Action} {session : SessionId} {operation : String} {pc : ControlPc}
      (hpc : pc ∈ [ControlPc.acting, .creating .lookup] ∨ (∃ shutdown, pc = .detaching shutdown) ∨
        ∃ prepared shutdown, pc = .replacing prepared shutdown)
      (hctl : w.co.exclusiveControls.get? session = none)
      (hfree : w.co.activeBySession.get? session = none) (hquiet : w.co.sideCount session = 0) :
      WorldStep w a { w with
        co := { w.co with exclusiveControls := w.co.exclusiveControls.set session operation }
        calls := w.calls ++ [.control session operation pc]
        serial := w.serial + 1 }
  | asked {session : SessionId} (hctl : w.co.exclusiveControls.get? session = none) :
      WorldStep w (.sideQuestion session) { w with
        co := { w.co with
          sideQuestions := w.co.sideQuestions.set session (w.co.sideCount session + 1) }
        calls := w.calls ++ [.sideQuestion session (.creating .lookup)]
        serial := w.serial + 1 }
  | ensured {session : SessionId} :
      WorldStep w (.ensureRuntime session) { w with
        calls := w.calls ++ [.ensureRuntime session .lookup]
        serial := w.serial + 1 }
  | aborted {a : Action} {session : SessionId} {active : RuntimeState} {raises : Bool} {w' : World}
      (ha : w.co.activeBySession.get? session = some active) (habort : AbortStep w active raises w')
      (hact : (∃ run now, a = .abort session run now raises ∧ active.runId = some run) ∨
        ∃ now, a = .abortIfCurrent session now raises) :
      WorldStep w a w'
  | routed {a : Action} {runtime : RuntimeId} :
      WorldStep w a { w with log := w.log ++ [.abortCalled runtime] }
  | stopping :
      WorldStep w .shutdown { w with
        co := { w.co with shutdownLock := some w.calls.length }
        calls := w.calls ++ [.shutdown .requesting]
        serial := w.serial + 1 }
  | stepped {me : CallId} {o : Outcome} {call : Call} {t : Turn} (hcall : w.calls[me]? = some call)
      (hnext : call.next w me o = some t) : WorldStep w (.step me o) (w.turn me t)

theorem control_worldStep {w : World} {a : Action} {session : SessionId} {operation : String}
    {pc : ControlPc}
    (hpc : pc ∈ [ControlPc.acting, .creating .lookup] ∨ (∃ shutdown, pc = .detaching shutdown) ∨
      ∃ prepared shutdown, pc = .replacing prepared shutdown) :
    WorldStep w a (w.control session operation pc) := by
  unfold World.control World.enter
  split
  · exact .refused
  · rename_i co hok
    obtain ⟨_, hctl, hfree, hquiet, rfl⟩ := reserveControl_ok hok
    exact .controlled hpc hctl hfree hquiet

theorem world_step {w w' : World} {a : Action} (h : w.next a = some w') : WorldStep w a w' := by
  cases a with
  | submitStream session =>
      cases h
      dsimp only [World.enter]
      split
      · exact .refused
      · rename_i co hok
        obtain ⟨_, hctl, hfree, hroom, rfl⟩ := admitRun_ok hok
        exact .admitted hctl hfree hroom
  | configureIfIdle session | rewind session | exclusive session operation =>
      cases h
      exact control_worldStep (Or.inl (by simp))
  | releaseRuntime session operation shutdown =>
      cases h
      exact control_worldStep (Or.inr (Or.inl ⟨shutdown, rfl⟩))
  | replaceRuntime session operation prepared shutdown =>
      cases h
      exact control_worldStep (Or.inr (Or.inr ⟨prepared, shutdown, rfl⟩))
  | sideQuestion session =>
      cases h
      dsimp only [World.enter]
      split
      · exact .refused
      · rename_i co hok
        obtain ⟨_, hctl, rfl⟩ := admitSideQuestion_ok hok
        exact .asked hctl
  | ensureRuntime session =>
      cases h
      dsimp only [World.enter]
      split
      · exact .refused
      · rename_i co hok
        obtain ⟨_, rfl⟩ := ensure_ok hok
        exact .ensured
  | abort session run now raises =>
      cases h
      unfold World.abort
      split
      · exact .refused
      · split
        · exact .refused
        · rename_i ha hid
          exact .aborted ha (abortEntry_step raises) (Or.inl ⟨run, now, rfl, not_not.mp hid⟩)
  | abortIfCurrent session now raises =>
      cases h
      unfold World.abortIfCurrent
      split
      · cases w.co.runtimes.get? session with
        | none =>
            simp only [Option.map_none, Option.toList_none, List.append_nil]
            exact .refused
        | some runtime => exact .routed
      · exact .aborted ‹_› (abortEntry_step raises) (Or.inr ⟨now, rfl⟩)
  | shutdown =>
      simp only [World.next] at h
      split at h <;> cases h
      exact .stopping
  | step me o =>
      obtain ⟨t, ht, rfl⟩ := Option.map_eq_some_iff.mp h
      obtain ⟨call, hcall, ht⟩ := Option.bind_eq_some_iff.mp ht
      exact .stepped hcall ht

end GaHub.Sessions
