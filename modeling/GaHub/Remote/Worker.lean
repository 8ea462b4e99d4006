import GaHub.Lib.Machine
import Mathlib.Data.List.Basic

namespace GaHub.Remote.Worker

abbrev CallId := Nat
abbrev WorkerId := Nat

-- One line a worker has written: the request it answers, and the projection unless it is the error line.
structure Line (R : Type) where
  origin : CallId
  result : Option R
  deriving DecidableEq

-- A `compact-worker` process with its two pipes. `returncode` says that the event loop has noticed its end.
structure Process (D R : Type) where
  stdin : List (CallId × D) := []
  stdout : List (Line R) := []
  alive : Bool := true
  returncode : Bool := false
  deriving DecidableEq

-- Where a `compact_messages` call stands: at the lock, in `create_subprocess_exec`, before `write`, in `drain`,
-- in `readline`, or waiting for a killed worker.
inductive Stage (R : Type) where
  | waiting
  | spawning
  | writing (w : WorkerId)
  | draining (w : WorkerId)
  | reading (w : WorkerId)
  | killing (w : WorkerId)
  | returned (line : Line R)
  | failed
  | cancelled
  deriving DecidableEq

structure Call (D R : Type) where
  data : D
  stage : Stage R := .waiting
  deriving DecidableEq

-- One lane: its lock, its worker, and everything that was ever started on it.
structure State (D R : Type) where
  owner : Option CallId := none
  worker : Option WorkerId := none
  processes : List (Process D R) := []
  calls : List (Call D R) := []
  deriving DecidableEq

inductive Action (D : Type) where
  | arrive (data : D)
  -- the lock is granted; `node` says whether a node runtime was found
  | acquire (i : CallId) (node : Bool)
  | spawned (i : CallId)
  | write (i : CallId)
  | drained (i : CallId)
  | read (i : CallId)
  -- the await of the call raises, or the twenty seconds are over
  | fault (i : CallId)
  | reaped (i : CallId)
  | cancel (i : CallId)
  -- the worker answers a line, dies, and is noticed to be dead
  | answer (w : WorkerId)
  | die (w : WorkerId)
  | notice (w : WorkerId)
  deriving DecidableEq

section Steps

variable {D R : Type}

namespace State

variable (s : State D R)

def setStage (i : CallId) (stage : Stage R) : State D R :=
  { s with calls := s.calls.modify i fun c => { c with stage } }

def modifyProcess (w : WorkerId) (f : Process D R → Process D R) : State D R :=
  { s with processes := s.processes.modify w f }

def finish (i : CallId) (stage : Stage R) : State D R := { s.setStage i stage with owner := none }

-- The handler of `compact_messages`, for the worker the call has got.
def except (i : CallId) : Option WorkerId → State D R
  | none => { s.finish i .failed with worker := none }
  | some w =>
      match s.processes[w]? with
      | none => { s.finish i .failed with worker := none }
      | some p =>
          if p.returncode then { s.finish i .failed with worker := none }
          else (s.modifyProcess w fun p => { p with alive := false }).setStage i (.killing w)

def running (w : WorkerId) : Bool :=
  match s.processes[w]? with
  | some p => !p.returncode
  | none => false

def acquire (i : CallId) (node : Bool) : State D R :=
  let s := { s with owner := some i }
  match s.worker.filter s.running with
  | some w => s.setStage i (.writing w)
  | none => if node then s.setStage i .spawning else s.except i s.worker

def spawned (i : CallId) : State D R :=
  { s.setStage i (.writing s.processes.length) with
    processes := s.processes ++ [{}]
    worker := some s.processes.length }

def write (i : CallId) (data : D) (w : WorkerId) : State D R :=
  (s.modifyProcess w fun p => if p.alive then { p with stdin := p.stdin ++ [(i, data)] } else p).setStage i (.draining w)

-- `readline`; the error line is no projection.
def read (i : CallId) (w : WorkerId) : Option (State D R) :=
  s.processes[w]?.bind fun p =>
    match p.stdout with
    | [] => none
    | line :: rest =>
        let s := s.modifyProcess w fun p => { p with stdout := rest }
        some (if line.result.isSome then s.finish i (.returned line) else s.except i (some w))

end State

def next (compact : D → Option R) (s : State D R) : Action D → Option (State D R)
  | .arrive data => some { s with calls := s.calls ++ [{ data }] }
  | .acquire i node =>
      s.calls[i]?.bind fun c =>
        match c.stage with
        | .waiting => if s.owner.isNone then some (s.acquire i node) else none
        | _ => none
  | .spawned i =>
      s.calls[i]?.bind fun c =>
        match c.stage with
        | .spawning => some (s.spawned i)
        | _ => none
  | .write i =>
      s.calls[i]?.bind fun c =>
        match c.stage with
        | .writing w => some (s.write i c.data w)
        | _ => none
  | .drained i =>
      s.calls[i]?.bind fun c =>
        match c.stage with
        | .draining w => some (s.setStage i (.reading w))
        | _ => none
  | .read i =>
      s.calls[i]?.bind fun c =>
        match c.stage with
        | .reading w => s.read i w
        | _ => none
  | .fault i =>
      s.calls[i]?.bind fun c =>
        match c.stage with
        | .spawning => some (s.except i s.worker)
        | .writing w | .draining w | .reading w => some (s.except i (some w))
        | _ => none
  | .reaped i =>
      s.calls[i]?.bind fun c =>
        match c.stage with
        | .killing w =>
            some { (s.modifyProcess w fun p => { p with returncode := true }).finish i .failed with worker := none }
        | _ => none
  | .cancel i =>
      s.calls[i]?.bind fun c =>
        match c.stage with
        | .waiting => some (s.setStage i .cancelled)
        -- no handler for a cancellation: the lock is left, the worker stays
        | .spawning | .writing _ | .draining _ | .reading _ | .killing _ => some (s.finish i .cancelled)
        | _ => none
  | .answer w =>
      s.processes[w]?.bind fun p =>
        if p.alive then
          match p.stdin with
          | [] => none
          | (origin, data) :: rest =>
              some (s.modifyProcess w fun p =>
                { p with stdin := rest, stdout := p.stdout ++ [⟨origin, compact data⟩] })
        else none
  | .die w => s.processes[w]?.map fun _ => s.modifyProcess w fun p => { p with alive := false }
  | .notice w =>
      s.processes[w]?.bind fun p =>
        if p.alive then none else some (s.modifyProcess w fun p => { p with returncode := true })

def machine (compact : D → Option R) : Lib.Machine (State D R) (Action D) where
  start := {}
  next := next compact

end Steps

end GaHub.Remote.Worker
