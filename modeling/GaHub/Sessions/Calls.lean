import GaHub.Sessions
import GaHub.Lib.Machine
import GaHub.Lib.Slots

namespace GaHub.Sessions

open Lib

-- What the coordinator does to the outside, and what becomes of runtimes and
-- runs, in the order it happens.
inductive Effect where
  | factoryStarted (session : SessionId) (runtime : RuntimeId)
  | factoryReturned (session : SessionId) (runtime : RuntimeId)
  | installed (session : SessionId) (runtime : RuntimeId)
  | released (session : SessionId)
  | invalidated (session : SessionId)
  | replaced (session : SessionId)
  | removed (session : SessionId) (runtime : RuntimeId)
  | submitCalled (run : RunId) (runtime : RuntimeId)
  | abortCalled (runtime : RuntimeId)
  | shutdownCalled (runtime : RuntimeId)
  | disposerCalled (runtime : RuntimeId)
  | stopAccepted (run : RunId)
  | handleFinished (run : RunId)
  | stateChanged (state : RuntimeState)
  | shutdownRequested
  | shutdownReturned (stopped : Bool)
  deriving DecidableEq

-- A call of a runtime that something else makes later: a worker thread of
-- `shutdown`, or the disposer of a displaced runtime.
inductive RuntimeCall where
  | abort (runtime : RuntimeId)
  | shutdown (runtime : RuntimeId)
  | disposer (runtime : RuntimeId)
  deriving DecidableEq

def RuntimeCall.effect : RuntimeCall → Effect
  | .abort runtime => .abortCalled runtime
  | .shutdown runtime => .shutdownCalled runtime
  | .disposer runtime => .disposerCalled runtime

-- Where a call of `_runtime_for_session` stands: before its first section,
-- at the gate, inside it before the second look, in the factory, before the
-- install section, or about to shut down a runtime it may not install.
inductive Creation where
  | lookup
  | waiting (epoch : Nat)
  | holding (epoch : Nat)
  | building (epoch : Nat) (runtime : RuntimeId)
  | built (epoch : Nat) (runtime : RuntimeId)
  | discarding (runtime : RuntimeId) (stopping : Bool)
  deriving DecidableEq

inductive SubmitPc where
  | creating (creation : Creation)
  | obtained (runtime : RuntimeId)
  | settling (pending : Option Status)
  | settled (pending : Option Status) (state : RuntimeState)
  -- the reservation was read as STARTING; `theme_task_runs.begin` comes next
  | cleared (runtime : RuntimeId)
  | begun (runtime : RuntimeId)
  | submitting (runtime : RuntimeId)
  | submitted (runtime : RuntimeId) (streamId : String)
  | promoted (runtime : RuntimeId) (streamId : String)
  | failing
  | releasing
  deriving DecidableEq

-- The bodies run under an exclusive control, and its `finally`.
inductive ControlPc where
  | acting
  | creating (creation : Creation)
  | rewinding (runtime : RuntimeId)
  | detaching (shutdown : Bool)
  -- `_release` popped the runtime and has not bumped the epoch yet
  | detached (previous : Option RuntimeId) (shutdown : Bool)
  | replacing (prepared : Nat) (shutdown : Bool)
  | disposing (call : Option RuntimeCall)
  | leaving
  deriving DecidableEq

inductive BtwPc where
  | creating (creation : Creation)
  | asking (runtime : RuntimeId)
  | leaving
  deriving DecidableEq

inductive WatcherPc where
  | polling
  | notifying (state : RuntimeState)
  | completing
  | announcing (state : RuntimeState)
  | closing
  deriving DecidableEq

inductive WorkerPc where
  | unstarted
  | ready
  | running
  | finished (ok : Bool)
  deriving DecidableEq

inductive ShutdownPc where
  | requesting
  | waiting
  | snapshotActive
  | marking (rest : List RuntimeState) (stopped : Bool)
  | aborting (run : RunId) (runtime : RuntimeId) (rest : List RuntimeState) (stopped : Bool)
  | joiningAborts (rest : List CallId) (joined stopped : Bool)
  | snapshotRuntimes (stopped : Bool)
  | stopping (rest : List (SessionId × RuntimeId)) (stopped : Bool)
  | joining (rest : List CallId) (joined stopped : Bool)
  | snapshotWatchers (stopped : Bool)
  | joiningWatchers (rest : List CallId) (stopped : Bool)
  | concluding (stopped : Bool)
  deriving DecidableEq

inductive Call where
  | submit (session : SessionId) (run : RunId) (pc : SubmitPc)
  | control (session : SessionId) (operation : String) (pc : ControlPc)
  | sideQuestion (session : SessionId) (pc : BtwPc)
  | ensureRuntime (session : SessionId) (creation : Creation)
  | watcher (session : SessionId) (run : RunId) (pc : WatcherPc)
  -- a daemon thread of `shutdown`, running `runtime.abort` or `runtime.shutdown`
  | worker (job : RuntimeCall) (pc : WorkerPc)
  | shutdown (pc : ShutdownPc)
  | done
  deriving DecidableEq

-- What the environment decides at a step: how an external call ends, what a
-- handle reports, which time a clock shows, whether a deadline has passed.
inductive Outcome where
  | returns
  | raises
  | expires
  | at (now : Time)
  | streams (streamId : String)
  | finishes
  | reports (runOutcome : Option String)
  deriving DecidableEq

inductive Progress where
  | goesOn (creation : Creation)
  | returned (runtime : RuntimeId)
  | raised (error : CoordinatorError)
  deriving DecidableEq

-- A step of one call: the shared state, the call, a thread it starts, and
-- what it does to the outside.
structure Turn where
  co : SessionCoordinator
  call : Call
  spawned : Option Call := none
  log : List Effect := []

structure CreationTurn where
  co : SessionCoordinator
  progress : Progress
  log : List Effect := []

section Creation

variable (co : SessionCoordinator) (fresh : Nat) (me : CallId) (session : SessionId)

-- `_runtime_for_session`, one critical section or external call at a time.
-- Leaving the gate is part of the step that returns or raises.
def Creation.next : Creation → Outcome → Option CreationTurn
  | .lookup, .returns =>
      match co.runtimes.get? session with
      | some runtime => some { co, progress := .returned runtime }
      | none =>
          let gates :=
            if (co.creationGates.get? session).isNone then co.creationGates.set session none
            else co.creationGates
          some {
            co := { co with creationGates := gates }
            progress := .goesOn (.waiting (co.epoch session)) }
  | .waiting epoch, .returns =>
      if co.creationGates.get? session = some none then
        some {
          co := { co with creationGates := co.creationGates.set session (some me) }
          progress := .goesOn (.holding epoch) }
      else none
  | .holding epoch, .returns =>
      match co.runtimes.get? session with
      | some runtime => some { co := co.openGate session, progress := .returned runtime }
      | none =>
          some {
            co
            progress := .goesOn (.building epoch (.built fresh))
            log := [.factoryStarted session (.built fresh)] }
  | .building epoch runtime, .returns =>
      some { co, progress := .goesOn (.built epoch runtime), log := [.factoryReturned session runtime] }
  | .building _ _, .raises => some { co := co.openGate session, progress := .raised .external }
  | .built epoch runtime, .returns =>
      if co.epoch session = epoch ∧ co.shutdownRequested = false then
        some {
          co := { co.openGate session with runtimes := co.runtimes.set session runtime }
          progress := .returned runtime
          log := [.installed session runtime] }
      else
        some { co, progress := .goesOn (.discarding runtime co.shutdownRequested) }
  -- an exception of `shutdown` is logged and swallowed
  | .discarding runtime stopping, .returns =>
      some {
        co := co.openGate session
        progress := .raised (if stopping then .stopped else .controlBusy session "release")
        log := [.shutdownCalled runtime] }
  | _, _ => none

end Creation

def CreationTurn.turn (t : CreationTurn) (wrap : Progress → Call) : Turn :=
  { co := t.co, call := wrap t.progress, log := t.log }

-- `_emit_state_change`; only a callback that is called can raise.
def announce (co : SessionCoordinator) (state : RuntimeState) : Outcome → Option (Bool × List Effect)
  | .returns => some (true, if co.shutdownRequested then [] else [.stateChanged state])
  | .raises => if co.shutdownRequested then none else some (false, [.stateChanged state])
  | _ => none

section Submit

variable (co : SessionCoordinator) (fresh : Nat) (me spawnId : CallId) (session : SessionId)
  (run : RunId)

-- How `submit_stream` ends when it was stopped before the agent took the run.
def afterSettling (pending : Option Status) : Call :=
  if pending = some .aborting then .done else .submit session run .failing

def submitNext : SubmitPc → Outcome → Option Turn
  | .creating creation, o =>
      (creation.next co fresh me session o).map fun t => t.turn fun
        | .goesOn creation => .submit session run (.creating creation)
        | .returned runtime => .submit session run (.obtained runtime)
        | .raised _ => .submit session run .failing
  | .obtained runtime, .returns =>
      let pending := co.reservationStatus session run
      some {
        co
        call := .submit session run
          (if pending = some .starting then .cleared runtime else .settling pending) }
  | .settling pending, .returns =>
      match co.finishAbortedStart session run with
      | none => some { co, call := afterSettling session run pending }
      | some (state, co) => some { co, call := .submit session run (.settled pending state) }
  | .settled pending state, o =>
      (announce co state o).map fun (returned, log) =>
        { co
          call := if returned then afterSettling session run pending else .submit session run .failing
          log }
  | .cleared runtime, .returns => some { co, call := .submit session run (.begun runtime) }
  | .cleared _, .raises => some { co, call := .submit session run .failing }
  | .begun runtime, .returns =>
      some { co, call := .submit session run (.submitting runtime), log := [.submitCalled run runtime] }
  | .submitting runtime, .streams streamId =>
      some { co, call := .submit session run (.submitted runtime streamId) }
  | .submitting _, .raises => some { co, call := .submit session run .failing }
  | .submitted runtime streamId, .returns =>
      match co.promote session run streamId with
      | .running co => some { co, call := .submit session run (.promoted runtime streamId) }
      | .aborting => some { co, call := .submit session run (.promoted runtime streamId) }
      | .orphaned => some { co := co.forgetOrphan run, call := .done, log := [.abortCalled runtime] }
  | .promoted _ _, .returns =>
      some {
        co := { co with watchers := co.watchers.set run spawnId }
        call := .done
        spawned := some (.watcher session run .polling) }
  -- `watcher.start()` raised
  | .promoted runtime _, .raises =>
      some { co := co.rollbackWatcher session run, call := .done, log := [.abortCalled runtime] }
  -- `theme_task_runs.finish` in the handler may raise and skip the release
  | .failing, .returns => some { co, call := .submit session run .releasing }
  | .failing, .raises => some { co, call := .done }
  | .releasing, .returns => some { co := co.releaseReservation session run, call := .done }
  | _, _ => none

end Submit

section Controls

variable (co : SessionCoordinator) (fresh : Nat) (me : CallId) (session : SessionId)
  (operation : String)

-- The disposer `replace_runtime` picks for the runtime it displaced.
def replaceDisposer (previous : Option RuntimeId) (shutdown : Bool) : Option RuntimeCall :=
  previous.map fun runtime => if shutdown then .disposer runtime else .shutdown runtime

def releaseDisposer (previous : Option RuntimeId) (shutdown : Bool) : Option RuntimeCall :=
  if shutdown then previous.map RuntimeCall.disposer else none

def removal (session : SessionId) (previous : Option RuntimeId) : List Effect :=
  (previous.map (Effect.removed session)).toList

def controlNext : ControlPc → Outcome → Option Turn
  | .acting, .returns => some { co, call := .control session operation .leaving }
  | .acting, .raises => some { co, call := .control session operation .leaving }
  | .creating creation, o =>
      (creation.next co fresh me session o).map fun t => t.turn fun
        | .goesOn creation => .control session operation (.creating creation)
        | .returned runtime => .control session operation (.rewinding runtime)
        | .raised _ => .control session operation .leaving
  | .rewinding _, .returns => some { co, call := .control session operation .leaving }
  | .rewinding _, .raises => some { co, call := .control session operation .leaving }
  -- `self._runtimes.pop` runs without the lock
  | .detaching shutdown, .returns =>
      let previous := co.runtimes.get? session
      some {
        co := { co with runtimes := co.runtimes.erase session }
        call := .control session operation (.detached previous shutdown)
        log := .released session :: removal session previous }
  | .detached previous shutdown, .returns =>
      some {
        co := { co.bumpEpoch session with states := co.states.erase session }
        call := .control session operation (.disposing (releaseDisposer previous shutdown))
        log := [.invalidated session] }
  | .replacing prepared shutdown, .returns =>
      let previous := co.runtimes.get? session
      some {
        co := { co.bumpEpoch session with
          runtimes := co.runtimes.set session (.prepared prepared)
          states := co.states.erase session }
        call := .control session operation (.disposing (replaceDisposer previous shutdown))
        log := .replaced session :: removal session previous }
  -- the disposer, then `after_release`; either may raise
  | .disposing call, .returns =>
      some {
        co
        call := .control session operation .leaving
        log := (call.map RuntimeCall.effect).toList }
  | .disposing call, .raises =>
      some {
        co
        call := .control session operation .leaving
        log := (call.map RuntimeCall.effect).toList }
  | .leaving, .returns => some { co := co.leaveControl session operation, call := .done }
  | _, _ => none

def sideQuestionNext : BtwPc → Outcome → Option Turn
  | .creating creation, o =>
      (creation.next co fresh me session o).map fun t => t.turn fun
        | .goesOn creation => .sideQuestion session (.creating creation)
        | .returned runtime => .sideQuestion session (.asking runtime)
        | .raised _ => .sideQuestion session .leaving
  | .asking _, .returns => some { co, call := .sideQuestion session .leaving }
  | .asking _, .raises => some { co, call := .sideQuestion session .leaving }
  | .leaving, .returns => some { co := co.leaveSideQuestion session, call := .done }
  | _, _ => none

def ensureRuntimeNext (creation : Creation) (o : Outcome) : Option Turn :=
  (creation.next co fresh me session o).map fun t => t.turn fun
    | .goesOn creation => .ensureRuntime session creation
    | .returned _ => .done
    | .raised _ => .done

end Controls

section Watcher

variable (co : SessionCoordinator) (me : CallId) (session : SessionId) (run : RunId)

-- `_watch_completion`. An exception inside it ends the thread through `finally`.
def watcherNext : WatcherPc → Outcome → Option Turn
  | .polling, .at now =>
      match co.watchTimeout session run now with
      | none => some { co, call := .watcher session run .polling }
      | some (state, co) => some { co, call := .watcher session run (.notifying state) }
  | .polling, .finishes => some { co, call := .watcher session run .completing }
  | .notifying state, o =>
      (announce co state o).map fun (returned, log) =>
        { co, call := .watcher session run (if returned then .polling else .closing), log }
  | .completing, .reports runOutcome =>
      match co.complete session run runOutcome with
      | none => some { co, call := .watcher session run .closing }
      | some (state, co) =>
          some { co, call := .watcher session run (.announcing state), log := [.handleFinished run] }
  -- `theme_task_runs.finish` raised before the entry was dropped
  | .completing, .raises =>
      if (co.reservation session run).isSome then some { co, call := .watcher session run .closing }
      else none
  | .announcing state, o =>
      (announce co state o).map fun (_, log) => { co, call := .watcher session run .closing, log }
  | .closing, .returns => some { co := co.closeWatcher run me, call := .done }
  | _, _ => none

end Watcher

def workerNext (co : SessionCoordinator) (job : RuntimeCall) : WorkerPc → Outcome → Option Turn
  | .ready, .returns => some { co, call := .worker job .running, log := [job.effect] }
  | .running, .returns => some { co, call := .worker job (.finished true) }
  | .running, .raises => some { co, call := .worker job (.finished false) }
  | _, _ => none

section Shutdown

variable (co : SessionCoordinator) (calls : List Call) (spawnId : CallId)

-- `Thread.is_alive`
def alive (thread : CallId) : Bool :=
  match calls[thread]? with
  | some (.watcher ..) => true
  | some (.worker _ .ready) => true
  | some (.worker _ .running) => true
  | _ => false

-- `error is None and result is not False`, also of a thread that never started
def succeeded (thread : CallId) : Bool :=
  match calls[thread]? with
  | some (.worker _ (.finished false)) => false
  | _ => true

def reusable (thread : CallId) : Bool := alive calls thread || succeeded calls thread

def shutdownReturns (stopped : Bool) : Turn :=
  { co := { co with shutdownLock := none }, call := .done, log := [.shutdownReturned stopped] }

def unstarted (thread : CallId) : Bool :=
  match calls[thread]? with
  | some (.worker _ .unstarted) => true
  | _ => false

-- A thread that never started makes `join` raise.
def joinable (thread : CallId) : Outcome → Option Bool
  | .returns =>
      if alive calls thread || unstarted calls thread then none
      else some (succeeded calls thread)
  | .expires =>
      if unstarted calls thread then none
      else some (!alive calls thread && succeeded calls thread)
  | _ => none

def prunedWorkers (workers : Dict RunId CallId) : Dict RunId CallId :=
  workers.filter fun e => reusable calls e.2

-- `shutdown` and its helpers. `expires` is a deadline found to have passed.
def shutdownNext : ShutdownPc → Outcome → Option Turn
  | .requesting, .returns =>
      some {
        co := { co with shutdownRequested := true }
        call := .shutdown .waiting
        log := [.shutdownRequested] }
  | .waiting, .returns =>
      some { co, call := .shutdown (if co.controlsActive then .waiting else .snapshotActive) }
  | .waiting, .expires => some (shutdownReturns co false)
  | .snapshotActive, .returns =>
      some { co, call := .shutdown (.marking co.activeBySession.values true) }
  | .snapshotActive, .expires => some (shutdownReturns co false)
  | .marking (active :: rest) stopped, .at now =>
      match co.markShutdownAborting active now with
      | (none, co) => some { co, call := .shutdown (.marking rest stopped) }
      | (some (run, runtime), co) => some { co, call := .shutdown (.aborting run runtime rest stopped) }
  | .marking (_ :: _) _, .expires =>
      some { co, call := .shutdown (.joiningAborts co.shutdownAbortWorkers.values true false) }
  | .marking [] stopped, .returns =>
      some { co, call := .shutdown (.joiningAborts co.shutdownAbortWorkers.values true stopped) }
  | .aborting run runtime rest stopped, o =>
      if (co.shutdownAbortWorkers.get? run).any (reusable calls) then
        if o = .returns then some { co, call := .shutdown (.marking rest stopped) } else none
      else
        let workers := (co.shutdownAbortWorkers.erase run).set run spawnId
        match o with
        | .returns =>
            some {
              co := { co with shutdownAbortWorkers := workers }
              call := .shutdown (.marking rest stopped)
              spawned := some (.worker (.abort runtime) .ready) }
        | .raises =>
            some {
              co := { co with shutdownAbortWorkers := workers, shutdownLock := none }
              call := .done
              spawned := some (.worker (.abort runtime) .unstarted) }
        | _ => none
  | .joiningAborts (thread :: rest) joined stopped, o =>
      if o = .raises ∧ unstarted calls thread = true then
        some { co := { co with shutdownLock := none }, call := .done }
      else
        (joinable calls thread o).map fun ok =>
          { co, call := .shutdown (.joiningAborts rest (joined && ok) stopped) }
  | .joiningAborts [] joined stopped, .returns =>
      some {
        co := { co with shutdownAbortWorkers := prunedWorkers calls co.shutdownAbortWorkers }
        call := .shutdown (.snapshotRuntimes (joined && stopped)) }
  | .snapshotRuntimes stopped, .returns =>
      some { co, call := .shutdown (.stopping co.runtimes.entries stopped) }
  | .snapshotRuntimes _, .expires => some (shutdownReturns co false)
  | .stopping ((session, runtime) :: rest) stopped, o =>
      if o = .expires then
        some { co, call := .shutdown (.joining co.shutdownWorkers.values true false) }
      else if (co.shutdownWorkers.get? session).any (reusable calls) then
        if o = .returns then some { co, call := .shutdown (.stopping rest stopped) } else none
      else
        let workers := (co.shutdownWorkers.erase session).set session spawnId
        match o with
        | .returns =>
            some {
              co := { co with shutdownWorkers := workers }
              call := .shutdown (.stopping rest stopped)
              spawned := some (.worker (.shutdown runtime) .ready) }
        | .raises =>
            some {
              co := { co with shutdownWorkers := workers, shutdownLock := none }
              call := .done
              spawned := some (.worker (.shutdown runtime) .unstarted) }
        | _ => none
  | .stopping [] stopped, .returns =>
      some { co, call := .shutdown (.joining co.shutdownWorkers.values true stopped) }
  | .joining (thread :: rest) joined stopped, o =>
      if o = .raises ∧ unstarted calls thread = true then
        some { co := { co with shutdownLock := none }, call := .done }
      else
        (joinable calls thread o).map fun ok =>
          { co, call := .shutdown (.joining rest (joined && ok) stopped) }
  | .joining [] joined stopped, .returns =>
      some { co, call := .shutdown (.snapshotWatchers (joined && stopped)) }
  | .snapshotWatchers stopped, .returns =>
      some { co, call := .shutdown (.joiningWatchers co.watchers.values stopped) }
  | .snapshotWatchers _, .expires => some (shutdownReturns co false)
  | .joiningWatchers (thread :: rest) stopped, o =>
      if o = .expires ∨ (o = .returns ∧ alive calls thread = false) then
        some { co, call := .shutdown (.joiningWatchers rest stopped) }
      else none
  | .joiningWatchers [] stopped, .returns => some { co, call := .shutdown (.concluding stopped) }
  | .joiningWatchers [] _, .expires => some (shutdownReturns co false)
  | .concluding stopped, .returns =>
      let idle := co.activeBySession.keys.isEmpty && !co.watchers.values.any (alive calls)
      if stopped && idle then
        some { shutdownReturns { co with
            runtimes := .empty
            abortStarted := .empty
            shutdownWorkers := .empty
            shutdownAbortWorkers := .empty } true with
          log := co.runtimes.entries.map (fun e => .removed e.1 e.2) ++ [.shutdownReturned true] }
      else some (shutdownReturns co false)
  | _, _ => none

end Shutdown

structure World where
  co : SessionCoordinator
  calls : List Call := []
  serial : Nat := 0
  log : List Effect := []

def Call.next (w : World) (me : CallId) : Call → Outcome → Option Turn
  | .submit session run pc, o => submitNext w.co w.serial me w.calls.length session run pc o
  | .control session operation pc, o => controlNext w.co w.serial me session operation pc o
  | .sideQuestion session pc, o => sideQuestionNext w.co w.serial me session pc o
  | .ensureRuntime session creation, o => ensureRuntimeNext w.co w.serial me session creation o
  | .watcher session run pc, o => watcherNext w.co me session run pc o
  | .worker job pc, o => workerNext w.co job pc o
  | .shutdown pc, o => shutdownNext w.co w.calls w.calls.length pc o
  | .done, _ => none

inductive Action where
  | submitStream (session : SessionId)
  | configureIfIdle (session : SessionId)
  | sideQuestion (session : SessionId)
  | rewind (session : SessionId)
  | exclusive (session : SessionId) (operation : String)
  | releaseRuntime (session : SessionId) (operation : String) (shutdown : Bool)
  | replaceRuntime (session : SessionId) (operation : String) (prepared : Nat) (shutdown : Bool)
  | ensureRuntime (session : SessionId)
  | abort (session : SessionId) (run : RunId) (now : Time) (raises : Bool)
  | abortIfCurrent (session : SessionId) (now : Time) (raises : Bool)
  | shutdown
  | step (call : CallId) (o : Outcome)
  deriving DecidableEq

namespace World

variable (w : World)

def enter (admitted : Except CoordinatorError SessionCoordinator) (call : Call) : World :=
  match admitted with
  | .error _ => w
  | .ok co => { w with co, calls := w.calls ++ [call], serial := w.serial + 1 }

def control (session : SessionId) (operation : String) (pc : ControlPc) : World :=
  w.enter (w.co.reserveControl session operation) (.control session operation pc)

-- `_abort_locked` with the call of `runtime.abort()` inside it.
def abortEntry (active : RuntimeState) (now : Time) (raises : Bool) : World :=
  let called := ((w.co.abortTarget active).map Effect.abortCalled).toList
  if raises && (w.co.abortTarget active).isSome then { w with log := w.log ++ called }
  else match w.co.abortLocked active now with
    | none => { w with log := w.log ++ called }
    | some (state, co) =>
        let accepted := if state.status = .aborting then
          (state.runId.map Effect.stopAccepted).toList else []
        { w with co, log := w.log ++ called ++ accepted }

def abort (session : SessionId) (run : RunId) (now : Time) (raises : Bool) : World :=
  match w.co.activeBySession.get? session with
  | none => w
  | some active => if active.runId ≠ some run then w else w.abortEntry active now raises

def abortIfCurrent (session : SessionId) (now : Time) (raises : Bool) : World :=
  match w.co.activeBySession.get? session with
  -- an error retry may still be backing off on the runtime
  | none => { w with log := w.log ++ ((w.co.runtimes.get? session).map Effect.abortCalled).toList }
  | some active => w.abortEntry active now raises

def turn (me : CallId) (t : Turn) : World where
  co := t.co
  calls := replaceSlot w.calls me t.call t.spawned
  serial := w.serial + 1
  log := w.log ++ t.log

def next : Action → Option World
  | .submitStream session =>
      some (w.enter (w.co.admitRun session w.serial) (.submit session w.serial (.creating .lookup)))
  | .configureIfIdle session => some (w.control session "configure" .acting)
  | .sideQuestion session =>
      some (w.enter (w.co.admitSideQuestion session) (.sideQuestion session (.creating .lookup)))
  | .rewind session => some (w.control session "rewind" (.creating .lookup))
  | .exclusive session operation => some (w.control session operation .acting)
  | .releaseRuntime session operation shutdown => some (w.control session operation (.detaching shutdown))
  | .replaceRuntime session operation prepared shutdown =>
      some (w.control session operation (.replacing prepared shutdown))
  | .ensureRuntime session =>
      some (w.enter (w.co.raiseIfShutdown.map fun _ => w.co) (.ensureRuntime session .lookup))
  | .abort session run now raises => some (w.abort session run now raises)
  | .abortIfCurrent session now raises => some (w.abortIfCurrent session now raises)
  | .shutdown =>
      if w.co.shutdownLock = none then
        some { w with
          co := { w.co with shutdownLock := some w.calls.length }
          calls := w.calls ++ [.shutdown .requesting]
          serial := w.serial + 1 }
      else none
  | .step me o => (w.calls[me]?.bind fun call => call.next w me o).map (w.turn me)

end World

def sessionMachine (capacity : Nat) (abortTimeout : Time) : Machine World Action where
  start := { co := { capacity, abortTimeout } }
  next := World.next

end GaHub.Sessions
