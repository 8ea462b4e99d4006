import GaHub.Lib.Machine
import GaHub.Streams.Retry

namespace GaHub.Streams

-- Streams are numbered in the order of their submission.
abbrev StreamId := Nat

inductive Outcome where
  | completed
  | cancelled
  | failed
  deriving DecidableEq

def autoContinueMax : Nat := 2

def retryEligibleSources : List String :=
  ["user", "webui", "chat_error_retry", "auto_continue", "scheduled_task", "scheduled", "autonomous", "reflect"]

def autoContinueSources : List String := retryEligibleSources

def autoContinueMarkers : List String := ["[!!! 流异常中断", "[!!! Response truncated: max_tokens"]

-- `marker in text`
def contains (text marker : List Char) : Bool := text.tails.any fun tail => marker.isPrefixOf tail

def truncated (text : List Char) : Bool := autoContinueMarkers.any fun marker => contains text marker.toList

structure Plan where
  label : String
  origin : String
  scheduled : Bool
  maxAttempts : Int
  deriving DecidableEq

inductive Kind where
  | retry (plan : Plan)
  | autoContinue
  deriving DecidableEq

-- Where the thread of a stream stands.
inductive Pc where
  -- `fanout_thread.start` has not been called, or has failed
  | unstarted
  | draining
  -- the `done` item is read, and its text stored
  | committing (content : String)
  -- the terminal item is committed
  | concluding (content : String)
  -- `_maybe_retry_recoverable_error`
  | deciding (content : String)
  | registering (content : String) (plan : Plan) (delay : ℚ)
  | waiting (content : String) (plan : Plan)
  | woken (content : String) (plan : Plan)
  | reloading (content : String) (plan : Plan)
  | checking (content : String) (plan : Plan)
  | discarding (content : String)
  -- `_maybe_auto_continue`
  | continuing (content : String)
  | enrolling
  | withdrawing
  -- both: the submission, the link to the new stream, and the look at the snapshot after it
  | submitting (kind : Kind)
  | starting (child : StreamId)
  | linking (child : StreamId)
  | rechecking
  | aborting
  | failing
  -- `finally`
  | ending
  | signalling
  | ended
  deriving DecidableEq

-- The handle of a stream, with what the service uses of its snapshot.
structure Stream where
  source : String
  sessionId : String
  logicalId : StreamId
  retryOf : Option StreamId := none
  retryReason : String := ""
  retryMax : Int := 0
  autoContinueCount : Nat := 0
  errorRetryCount : Nat := 0
  errorRetryOrigin : String := ""
  lastChunk : String := ""
  finished : Bool := false
  finalText : String := ""
  outcome : Option Outcome := none
  continuation : Option StreamId := none
  fanoutDone : Bool := false
  -- `snap.content` and `snap.aborted`
  content : String := ""
  aborted : Bool := false
  pc : Pc := .unstarted
  deriving DecidableEq

-- A call of `abort` after its first step, and after its second.
inductive AbortPc where
  | cancelled
  | stopped
  | returned
  deriving DecidableEq

-- What happened, in order.
inductive Event where
  | submitted (x : StreamId)
  -- an error-retry decision of a stream: whose budget and curve it used, and what they were
  | decided (x : StreamId) (scheduled : Bool) (budget : Int) (delay : Option ℚ)
  | cancelled (call : Nat)
  | agentAbort
  | abortReturned (call : Nat)
  deriving DecidableEq

structure State where
  streams : List Stream := []
  -- `_streams`
  live : List StreamId := []
  -- `_pending_error_retry`
  pending : List StreamId := []
  -- `_fanout_stop_event`
  stopEvent : Bool := false
  aborts : List AbortPc := []
  log : List Event := []
  deriving DecidableEq

inductive Input (V : Type) where
  | step
  | next (content : String)
  | done (content : String)
  -- nothing on the queue for a second
  | empty
  | raises (detail : String)
  -- the configuration as it is stored now (`none`: it cannot be read), and the factor drawn for the delay
  | config (stored : Option (Option (Payload V))) (jitter : ℚ)
  -- the wait ends: the delay is over, or it is given up
  | wake (elapsed : Bool)
  -- whether the call succeeds
  | call (ok : Bool)

inductive Action (V : Type) where
  -- a task from outside, and whether its thread starts
  | submit (source sessionId : String) (started : Bool)
  | thread (x : StreamId) (input : Input V)
  | abort
  | abortStep (call : Nat)
  | shutdown

section Steps

variable {V : Type} (reading : Reading V) (classify : String → Option RecoverableErrorMatch)

namespace State

variable (s : State)

def update (x : StreamId) (f : Stream → Stream) : State := { s with streams := s.streams.modify x f }

def goto (x : StreamId) (pc : Pc) : State := s.update x fun h => { h with pc }

def note (event : Event) : State := { s with log := s.log ++ [event] }

def register (x : StreamId) : State := { s with pending := if x ∈ s.pending then s.pending else s.pending ++ [x] }

def discard (x : StreamId) : State := { s with pending := s.pending.filter fun y => decide (y ≠ x) }

end State

def Stream.crashed (h : Stream) (detail : String) : Stream :=
  let content := h.content ++ "\n[stream error: " ++ detail ++ "]"
  { h with content, aborted := true, finished := true, outcome := some .failed, finalText := content, pc := .ending }

def Stream.shutDown (h : Stream) : Stream :=
  let seen := if h.lastChunk = "" then h.content else h.lastChunk
  let content := if seen = "" then "[stream aborted: service shutdown]" else seen ++ "\n[stream aborted: service shutdown]"
  { h with content, aborted := true, finished := true, outcome := some .failed, finalText := content, pc := .ending }

def Stream.concluded (h : Stream) (content : String) : Outcome :=
  if h.aborted then .cancelled
  else if (classify content).isSome || truncated content.toList then .failed
  else .completed

def Stream.origin (h : Stream) : String := if h.errorRetryOrigin = "" then h.source else h.errorRetryOrigin

-- `_maybe_retry_recoverable_error` up to the registration.
def decideRetry (s : State) (x : StreamId) (h : Stream) (content : String) (stored : Option (Option (Payload V)))
    (jitter : ℚ) : State :=
  if h.source ∉ retryEligibleSources then s.goto x (.continuing content)
  else
    match classify content with
    | none => s.goto x (.continuing content)
    | some found =>
        let cfg := loadChatRetryConfig reading stored
        let scheduled := decide (h.origin ∈ scheduledRetrySources)
        let effMax := found.limit (cfg.budget scheduled)
        if !cfg.enabled ∨ effMax ≤ 0 then (s.note (.decided x scheduled effMax none)).goto x (.continuing content)
        else if effMax ≤ h.errorRetryCount then (s.note (.decided x scheduled effMax none)).goto x .ending
        else
          let delay := computeBackoffDelay h.errorRetryCount cfg found.delayScale jitter scheduled
          (s.note (.decided x scheduled effMax (some delay))).goto x
            (.registering content { label := found.label, origin := h.origin, scheduled, maxAttempts := effMax } delay)

def reloadPolicy (s : State) (x : StreamId) (h : Stream) (content : String) (plan : Plan)
    (stored : Option (Option (Payload V))) : State :=
  let cfg := loadChatRetryConfig reading stored
  let effMax := cfg.budget plan.scheduled
  let s := s.note (.decided x plan.scheduled effMax none)
  if !cfg.enabled ∨ effMax ≤ 0 ∨ effMax ≤ h.errorRetryCount then s.goto x (.discarding content)
  else s.goto x (.checking content { plan with maxAttempts := effMax })

-- `_error_retry_still_alone`
def stillAlone (s : State) (x : StreamId) (h : Stream) : Bool :=
  s.live.all fun y => decide (y = x) || match s.streams[y]? with
    | none => true
    | some other => other.finished || decide (other.sessionId ≠ h.sessionId)

def Stream.successor (h : Stream) (x : StreamId) : Kind → Stream
  | .retry plan =>
      { source := "chat_error_retry", sessionId := h.sessionId, logicalId := h.logicalId, retryOf := some x
        retryReason := plan.label, retryMax := plan.maxAttempts, autoContinueCount := h.autoContinueCount
        errorRetryCount := h.errorRetryCount + 1, errorRetryOrigin := plan.origin }
  | .autoContinue =>
      { source := "auto_continue", sessionId := h.sessionId, logicalId := h.logicalId, retryOf := some x
        retryReason := "truncated", retryMax := autoContinueMax, autoContinueCount := h.autoContinueCount + 1
        errorRetryCount := h.errorRetryCount, errorRetryOrigin := h.errorRetryOrigin }

-- `put_task`, and the handle of the new stream.
def create (s : State) (h : Stream) : State :=
  { s with streams := s.streams ++ [h], log := s.log ++ [.submitted s.streams.length] }

def threadStep (s : State) (x : StreamId) (h : Stream) (input : Input V) : Option State :=
  match h.pc, input with
  | .draining, .next content => some (if s.stopEvent then s else s.update x fun h => { h with lastChunk := content, content })
  | .draining, .empty => some (if s.stopEvent then s.update x Stream.shutDown else s)
  | .draining, .done content => some (s.update x fun h => { h with finalText := content, content, pc := .committing content })
  | .draining, .raises detail => some (s.update x fun h => h.crashed detail)
  | .committing content, .step => some (s.update x fun h => { h with finished := true, pc := .concluding content })
  | .committing _, .raises detail => some (s.update x fun h => h.crashed detail)
  | .concluding content, .step =>
      some (s.update x fun h => { h with outcome := some (h.concluded classify content), pc := .deciding content })
  | .concluding _, .raises _ => some (s.goto x .ending)
  | .deciding content, .config stored jitter => some (decideRetry reading classify s x h content stored jitter)
  | .deciding _, .raises _ => some (s.goto x .ending)
  | .registering content plan delay, .step =>
      some ((s.register x).goto x (if 0 < delay then .waiting content plan else .submitting (.retry plan)))
  | .waiting content plan, .wake true => if h.aborted then none else some (s.goto x (.woken content plan))
  | .waiting content _, .wake false =>
      if h.aborted ∨ s.stopEvent then some (s.goto x (.discarding content)) else none
  | .waiting _ _, .raises _ => some (s.goto x .ending)
  | .woken content plan, .step =>
      some (s.goto x (if h.aborted then .discarding content else .reloading content plan))
  | .reloading content plan, .config stored _ => some (reloadPolicy reading s x h content plan stored)
  | .checking content plan, .step =>
      some (s.goto x (if stillAlone s x h then .submitting (.retry plan) else .discarding content))
  | .discarding content, .step => some ((s.discard x).goto x (.continuing content))
  | .continuing content, .step =>
      some (s.goto x (
        if h.source ∈ autoContinueSources ∧ h.autoContinueCount < autoContinueMax ∧
            truncated (content.toList.drop (content.length - 300)) then .enrolling
        else .ending))
  | .enrolling, .step => some ((s.register x).goto x (if h.aborted then .withdrawing else .submitting .autoContinue))
  | .withdrawing, .step => some ((s.discard x).goto x .ending)
  | .submitting _, .raises _ => some (s.goto x .ending)
  -- a service that is shutting down takes no task
  | .submitting _, .call false => some (s.goto x .failing)
  | .submitting kind, .call true =>
      if s.stopEvent then none else some (((create s (h.successor x kind))).goto x (.starting s.streams.length))
  | .starting child, .call ok =>
      let s := { s with live := s.live ++ [child] }
      some (if ok then (s.goto child .draining).goto x (.linking child) else s.goto x .failing)
  | .linking child, .step => some (s.update x fun h => { h with continuation := some child, pc := .rechecking })
  | .rechecking, .step => some ((s.discard x).goto x (if h.aborted then .aborting else .ending))
  | .aborting, .step => some ((s.note .agentAbort).goto x .ending)
  | .failing, .step => some ((s.discard x).goto x .ending)
  | .ending, .step => some ({ s with live := s.live.filter fun y => decide (y ≠ x) }.goto x .signalling)
  | .signalling, .step => some (s.update x fun h => { h with fanoutDone := true, pc := .ended })
  | _, _ => none

-- `cancel_pending_error_retry`
def cancelPending (s : State) : State :=
  { s with
    streams := s.streams.mapIdx fun x h => if x ∈ s.pending then { h with aborted := true } else h
    pending := [] }

def next (s : State) (a : Action V) : Option State :=
  match a with
  | .submit source sessionId started =>
      if s.stopEvent then none
      else
        let x := s.streams.length
        let pc := if started then .draining else .unstarted
        let created := create s { source, sessionId, logicalId := x, pc }
        some { created with live := s.live ++ [x] }
  | .thread x input => s.streams[x]?.bind fun h => threadStep reading classify s x h input
  | .abort => some { cancelPending s with aborts := s.aborts ++ [.cancelled], log := s.log ++ [.cancelled s.aborts.length] }
  | .abortStep call =>
      match s.aborts[call]? with
      | some .cancelled => some { s with aborts := s.aborts.set call .stopped, log := s.log ++ [.agentAbort] }
      | some .stopped => some { s with aborts := s.aborts.set call .returned, log := s.log ++ [.abortReturned call] }
      | _ => none
  | .shutdown => some { s with stopEvent := true }

def machine : Lib.Machine State (Action V) where
  start := {}
  next := next reading classify

end Steps

end GaHub.Streams
