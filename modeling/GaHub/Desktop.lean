import GaHub.Lib.Machine
import GaHub.Lib.Slots

namespace GaHub.Desktop

inductive Platform where
  | windows
  | unix
  deriving DecidableEq

-- Processes are numbered in the order in which they are spawned.
abbrev Pid := Nat

inductive SidecarPhase where
  | spawning
  | running
  | ready
  | failed (error : String)
  | stopping
  | stopped
  deriving DecidableEq

structure SidecarLifecycle where
  phase : SidecarPhase := .spawning
  process : Option Pid := none
  deriving DecidableEq

inductive ShutdownClaim where
  | owner (process : Option Pid)
  | inProgress
  | complete
  deriving DecidableEq

namespace SidecarLifecycle

variable (l : SidecarLifecycle)

def commitSpawn (p : Pid) : Option SidecarLifecycle :=
  if l.phase = .spawning ∧ l.process = none then some { phase := .running, process := some p } else none

def markReady : Option SidecarLifecycle :=
  if l.phase = .running ∧ l.process.isSome then some { l with phase := .ready } else none

def markFailed (error : String) : Option SidecarLifecycle :=
  match l.phase with
  | .spawning | .running | .ready => some { l with phase := .failed error }
  | _ => none

def beginShutdown : ShutdownClaim × SidecarLifecycle :=
  match l.phase with
  | .stopping => (.inProgress, l)
  | .stopped => (.complete, l)
  | _ => (.owner l.process, { phase := .stopping, process := none })

def finishShutdown : SidecarLifecycle := if l.phase = .stopping then { l with phase := .stopped } else l

def restartable : Bool :=
  match l.phase with
  | .ready | .failed _ => true
  | _ => false

end SidecarLifecycle

inductive ExitPhase where
  | running
  | cleaning
  | allowExit
  deriving DecidableEq

inductive ExitAction where
  | startCleanup
  | waitForCleanup
  | allowExit
  deriving DecidableEq

def ExitPhase.requestExit : ExitPhase → ExitAction × ExitPhase
  | .running => (.startCleanup, .cleaning)
  | .cleaning => (.waitForCleanup, .cleaning)
  | .allowExit => (.allowExit, .allowExit)

-- How far `stop_owned_process` has come.
inductive Stage where
  | idle
  | line
  | grace
  | forcing
  | reaping
  | stopped
  deriving DecidableEq

structure OwnedProcess where
  -- the restart whose supervisor has spawned it
  generation : Nat
  -- the owner's end of the lifecycle pipe
  ownerStdin : Bool
  childStdin : Bool
  exited : Bool := false
  groupSwept : Bool := false
  cleanupComplete : Bool := false
  stage : Stage := .idle
  -- what has been done to it
  lineSent : Bool := false
  stoppedRunning : Bool := false
  graceOver : Bool := false
  forced : Bool := false
  dropped : Bool := false
  deriving DecidableEq

inductive Input where
  | step
  -- a wait ends: the process has exited, or the deadline has passed
  | exited
  | deadline
  -- a process or a thread is created
  | created
  -- it is not, or the status of a process cannot be read
  | fails (error : String)
  -- the readiness probe is answered with the token by a process, or not
  | answer (q : Pid)
  | silence
  deriving DecidableEq

namespace OwnedProcess

variable (platform : Platform) (p : OwnedProcess)

def spawn (generation : Nat) : OwnedProcess :=
  match platform with
  | .windows => { generation, ownerStdin := true, childStdin := false }
  | .unix => { generation, ownerStdin := false, childStdin := true }

-- `take_owner_stdin`, and the line that is written to it.
def requestShutdown : Option OwnedProcess :=
  match platform with
  | .windows => if p.ownerStdin then some { p with ownerStdin := false, lineSent := true } else none
  | .unix => if p.childStdin then some { p with childStdin := false, lineSent := true } else none

def sweep : OwnedProcess := { p with groupSwept := p.groupSwept || decide (platform = .unix) }

def finishExitedTree : OwnedProcess := { p.sweep platform with cleanupComplete := p.exited }

-- `stop_owned_process`, step by step.
def stopStep (input : Input) : Option OwnedProcess :=
  match p.stage, input with
  | .idle, .step =>
      let p := { p with stoppedRunning := !p.exited }
      if p.cleanupComplete then some { p with stage := .stopped }
      else if platform = .unix ∧ p.groupSwept then some { p with cleanupComplete := p.exited, stage := .stopped }
      else some { p with stage := .line }
  | .line, .step =>
      some (if p.childStdin then { p with childStdin := false, lineSent := true, stage := .grace }
        else { p with stage := .grace })
  | .grace, .exited => if p.exited then some { p.finishExitedTree platform with stage := .stopped } else none
  | .grace, .deadline => if p.exited then none else some { p with graceOver := true, stage := .forcing }
  | .grace, .fails _ => some { p with stage := .forcing }
  | .forcing, .step => some { p.sweep platform with forced := true, stage := .reaping }
  | .reaping, .exited => if p.exited then some { p.finishExitedTree platform with stage := .stopped } else none
  | .reaping, .deadline => if p.exited then none else some { p with stage := .stopped }
  | .reaping, .fails _ => some { p with stage := .stopped }
  | _, _ => none

-- `Drop`: a process that has not been cleaned up is killed. Without `stop_owned_process` before, this is its stop.
def drop : OwnedProcess :=
  let killed := !p.cleanupComplete && !(decide (platform = .unix) && p.groupSwept)
  { p with
    dropped := true
    forced := p.forced || killed
    stoppedRunning := if p.stage = .stopped then p.stoppedRunning else !p.exited }

end OwnedProcess

-- The generation of a process that a thread has observed goes with the thread.
inductive SupervisorPc where
  | starting
  | spawning
  | spawnFailed (error : String)
  | offering (p : Pid)
  -- `commit_spawn` holds the lock and has seen that no exit is requested
  | granted (p : Pid)
  | rejected (p : Pid)
  -- `wait_http_ready`
  | waiting
  | probing
  | sawReady (observed : Nat)
  | sawFailure (observed : Nat) (error : String)
  | requesting (observed : Nat)
  -- `watch_ready_sidecar`
  | watching
  | sawExit (observed : Nat)
  | ended
  deriving DecidableEq

inductive RestartPc where
  | requested
  | claimed (process : Option Pid)
  | stopping (p : Pid)
  -- the error of a worker that could not be created
  | finishing (error : Option String)
  | resetting (error : Option String)
  -- `spawn_background_supervisor`
  | respawning (generation : Nat)
  | failing (error : String)
  | over
  deriving DecidableEq

-- `spawn_background_shutdown`
inductive CloserPc where
  | beginning
  | stopping (p : Pid)
  | finishing
  | allowing
  | over
  deriving DecidableEq

inductive Thread where
  | supervisor (generation : Nat) (pc : SupervisorPc)
  | restart (pc : RestartPc)
  | closer (pc : CloserPc)
  deriving DecidableEq

inductive Event where
  | exitRequested
  | committed (p : Pid)
  -- a transition or a shutdown request made for an observation of a process of one generation, on another one
  | applied (observed generation : Nat)
  deriving DecidableEq

structure Shell where
  lifecycle : SidecarLifecycle := {}
  exit : ExitPhase := .running
  processes : List OwnedProcess := []
  -- how often the lifecycle has been reset
  restarts : Nat := 0
  log : List Event := []
  deriving DecidableEq

namespace Shell

variable (sh : Shell)

def slot : Option OwnedProcess := sh.lifecycle.process.bind fun p => sh.processes[p]?

-- The restart the lifecycle belongs to: that of its process, if it has one.
def current : Nat := (sh.slot.map OwnedProcess.generation).getD sh.restarts

def update (p : Pid) (f : OwnedProcess → OwnedProcess) : Shell := { sh with processes := sh.processes.modify p f }

def note (event : Event) : Shell := { sh with log := sh.log ++ [event] }

-- `set_ready` and `set_failed`, with their effect when they have one.
def mark (changed : Option SidecarLifecycle) : Option Shell :=
  if sh.exit = .running then changed.map fun l => { sh with lifecycle := l } else none

def sweepSlot (platform : Platform) : Shell :=
  match sh.lifecycle.process with
  | none => sh
  | some p => sh.update p (OwnedProcess.finishExitedTree platform)

-- `reset` drops what the old lifecycle holds.
def reset (platform : Platform) : Shell :=
  let sh' : Shell := { sh with lifecycle := {}, restarts := sh.restarts + 1 }
  match sh.lifecycle.process with
  | none => sh'
  | some p => sh'.update p (OwnedProcess.drop platform)

end Shell

def Thread.locks : Thread → Bool
  | .supervisor _ pc =>
      match pc with
      | .starting | .spawning | .granted _ | .rejected _ | .probing | .ended => false
      | _ => true
  | .restart pc =>
      match pc with
      | .requested | .finishing _ | .resetting _ | .failing _ => true
      | _ => false
  | .closer pc =>
      match pc with
      | .beginning | .finishing => true
      | _ => false

def Thread.granted : Thread → Bool
  | .supervisor _ (.granted _) => true
  | _ => false

abbrev Result := Shell × Thread × Option Thread

section Steps

variable (platform : Platform)

-- A thread that stops a process goes on when the process is stopped, and drops it.
def stopping (sh : Shell) (p : Pid) (here next : Thread) (input : Input) : Option Result :=
  sh.processes[p]?.bind fun process =>
    if process.stage = .stopped then
      if input = .step then some (sh.update p (OwnedProcess.drop platform), next, none) else none
    else (process.stopStep platform input).map fun process' => (sh.update p fun _ => process', here, none)

def supervisorStep (sh : Shell) (generation : Nat) (pc : SupervisorPc) (input : Input) : Option Result :=
  let goto (sh : Shell) (pc : SupervisorPc) : Option Result := some (sh, .supervisor generation pc, none)
  match pc, input with
  | .starting, .step => goto sh (if sh.exit = .running then .spawning else .ended)
  | .spawning, .created =>
      goto { sh with processes := sh.processes ++ [.spawn platform generation] } (.offering sh.processes.length)
  | .spawning, .fails error => goto sh (.spawnFailed error)
  | .spawnFailed error, .step =>
      goto ((sh.mark (sh.lifecycle.markFailed ("GA-Hub desktop startup: " ++ error))).getD sh) .ended
  | .offering p, .step => goto sh (if sh.exit = .running then .granted p else .rejected p)
  | .granted p, .step =>
      match sh.lifecycle.commitSpawn p with
      | some l => goto ({ sh with lifecycle := l }.note (.committed p)) .waiting
      | none => goto sh (.rejected p)
  | .rejected p, input =>
      stopping platform sh p (.supervisor generation (.rejected p)) (.supervisor generation .ended) input
  | .waiting, .step =>
      if sh.exit = .running then
        match sh.slot with
        | none => goto sh (.sawFailure generation "owned sidecar disappeared before readiness")
        | some process =>
            if process.exited then
              goto (sh.sweepSlot platform) (.sawFailure process.generation "sidecar exited before readiness")
            else goto sh .probing
      else goto sh .ended
  | .waiting, .fails error =>
      if sh.exit = .running then
        sh.slot.bind fun process => goto sh (.sawFailure process.generation ("sidecar status check failed: " ++ error))
      else goto sh .ended
  | .waiting, .deadline => goto sh (.sawFailure generation "sidecar readiness timed out after 120 seconds")
  | .probing, .answer q => sh.processes[q]?.bind fun process =>
      if process.exited then none else goto sh (.sawReady process.generation)
  | .probing, .silence => goto sh .waiting
  | .sawReady observed, .step =>
      match sh.mark sh.lifecycle.markReady with
      | some sh' => goto (sh'.note (.applied observed sh.current)) .watching
      | none => goto sh .ended
  | .sawFailure observed error, .step =>
      match sh.mark (sh.lifecycle.markFailed ("GA-Hub desktop startup: " ++ error)) with
      | some sh' => goto (sh'.note (.applied observed sh.current)) (.requesting observed)
      | none => goto sh .ended
  -- `request_owned_shutdown`
  | .requesting observed, .step =>
      match sh.lifecycle.process, sh.slot.bind (OwnedProcess.requestShutdown platform) with
      | some p, some process => goto ((sh.update p fun _ => process).note (.applied observed sh.current)) .ended
      | _, _ => goto sh .ended
  | .watching, .step =>
      if sh.exit = .running then
        match sh.slot with
        | none => goto sh .ended
        | some process =>
            if process.exited then goto (sh.sweepSlot platform) (.sawExit process.generation) else goto sh .watching
      else goto sh .ended
  | .watching, .fails _ => if sh.exit = .running then sh.slot.bind fun _ => goto sh .watching else goto sh .ended
  | .sawExit observed, .step =>
      match sh.mark (sh.lifecycle.markFailed "GA-Hub 后端进程已退出（可能崩溃或被系统终止），请重启后端。") with
      | some sh' => goto (sh'.note (.applied observed sh.current)) .ended
      | none => goto sh .ended
  | _, _ => none

-- `restart_backend` after its look at the exit, and its worker.
def restartStep (sh : Shell) (pc : RestartPc) (input : Input) : Option Result :=
  let goto (sh : Shell) (pc : RestartPc) : Option Result := some (sh, .restart pc, none)
  match pc, input with
  | .requested, .step =>
      if sh.lifecycle.restartable then
        let (claim, l) := sh.lifecycle.beginShutdown
        goto { sh with lifecycle := l } (.claimed (match claim with | .owner process => process | _ => none))
      else goto sh .over
  | .claimed (some p), .created => goto sh (.stopping p)
  | .claimed none, .created => goto sh (.finishing none)
  -- the closure of the thread is dropped, with the claim in it
  | .claimed (some p), .fails error => sh.processes[p]?.bind fun _ =>
      goto (sh.update p (OwnedProcess.drop platform)) (.finishing (some error))
  | .claimed none, .fails error => goto sh (.finishing (some error))
  | .stopping p, input => stopping platform sh p (.restart (.stopping p)) (.restart (.finishing none)) input
  | .finishing error, .step => goto { sh with lifecycle := sh.lifecycle.finishShutdown } (.resetting error)
  | .resetting (some error), .step => goto (sh.reset platform) (.failing ("GA-Hub desktop restart: " ++ error))
  | .resetting none, .step => goto (sh.reset platform) (.respawning (sh.restarts + 1))
  | .respawning generation, .created => some (sh, .restart .over, some (.supervisor generation .starting))
  | .respawning generation, .fails error =>
      let action := if generation = 0 then "startup" else "restart"
      goto sh (.failing ("GA-Hub desktop " ++ action ++ ": sidecar supervisor thread failed: " ++ error))
  | .failing error, .step => goto ((sh.mark (sh.lifecycle.markFailed error)).getD sh) .over
  | _, _ => none

def closerStep (sh : Shell) (pc : CloserPc) (input : Input) : Option Result :=
  let goto (sh : Shell) (pc : CloserPc) : Option Result := some (sh, .closer pc, none)
  match pc, input with
  -- `stop_owned`
  | .beginning, .step =>
      match sh.lifecycle.beginShutdown with
      | (.owner (some p), l) => goto { sh with lifecycle := l } (.stopping p)
      | (.owner none, l) => goto { sh with lifecycle := l } .finishing
      | (_, l) => goto { sh with lifecycle := l } .allowing
  | .stopping p, input => stopping platform sh p (.closer (.stopping p)) (.closer .finishing) input
  | .finishing, .step => goto { sh with lifecycle := sh.lifecycle.finishShutdown } .allowing
  | .allowing, .step => goto { sh with exit := .allowExit } .over
  | _, _ => none

def Thread.step (sh : Shell) (t : Thread) (input : Input) : Option Result :=
  match t with
  | .supervisor generation pc => supervisorStep platform sh generation pc input
  | .restart pc => restartStep platform sh pc input
  | .closer pc => closerStep platform sh pc input

structure State where
  shell : Shell := {}
  -- `setup` starts the first supervisor as a restart starts the others
  threads : List Thread := [.restart (.respawning 0)]
  deriving DecidableEq

inductive Action where
  | restart
  -- the window is closed, or the exit of the application is requested
  | close
  | exits (p : Pid)
  | thread (i : Nat) (input : Input)
  deriving DecidableEq

def next (s : State) : Action → Option State
  | .restart => if s.shell.exit = .running then some { s with threads := s.threads ++ [.restart .requested] } else none
  | .close =>
      match s.shell.exit.requestExit with
      | (.startCleanup, exit) =>
          some { shell := { s.shell with exit }.note .exitRequested, threads := s.threads ++ [.closer .beginning] }
      | _ => some s
  | .exits p => some { s with shell := s.shell.update p fun process => { process with exited := true } }
  | .thread i input => s.threads[i]?.bind fun t =>
      if t.locks && s.threads.any Thread.granted then none
      else (t.step platform s.shell input).map fun r =>
        { shell := r.1, threads := Lib.replaceSlot s.threads i r.2.1 r.2.2 }

def machine : Lib.Machine State Action where
  start := {}
  next := next platform

end Steps

end GaHub.Desktop
