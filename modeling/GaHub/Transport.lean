import GaHub.Lib.Machine
import Mathlib.Algebra.Order.Group.Int

namespace GaHub.Transport

abbrev SocketId := Nat
abbrev TimerId := Nat

inductive SocketState where
  | closed
  | connecting
  | open
  deriving DecidableEq

-- A socket the object has created, for the generation of the call that created it.
structure Socket where
  generation : Nat
  live : Bool
  deriving DecidableEq

structure Timer where
  generation : Nat
  delay : Int
  pending : Bool
  deriving DecidableEq

-- A call that waits while a callback runs, and where it goes on.
inductive Frame where
  -- `connect`, after `setState('connecting')`
  | connecting (generation : Nat)
  -- `scheduleReconnect`, after `setState('closed')`
  | scheduling (generation : Nat) (delay : Int)
  -- `handleDisconnect`, after `setState('closed')`
  | disconnecting (generation : Nat)
  -- the end of `onopen`, of `close` and of `onmessage`
  | opened
  | closing
  | message
  deriving DecidableEq

def Frame.attempt : Frame → Option Nat
  | .connecting g | .scheduling g _ | .disconnecting g => some g
  | _ => none

-- What the owner of the object was told, and the socket whose event told it.
inductive Delivery (Msg : Type) where
  | message (w : SocketId) (msg : Msg)
  | state (origin : Option SocketId) (state : SocketState)
  deriving DecidableEq

def Delivery.origin {Msg : Type} : Delivery Msg → Option SocketId
  | .message w _ => some w
  | .state origin _ => origin

-- The object, the sockets and timers it has asked for, and the calls in progress, the innermost first.
structure State (Msg : Type) where
  running : Bool := false
  generation : Nat := 0
  reconnectAttempts : Nat := 0
  state : SocketState := .closed
  ws : Option SocketId := none
  reconnectTimer : Option TimerId := none
  sockets : List Socket := []
  timers : List Timer := []
  stack : List Frame := []
  log : List (Delivery Msg) := []
  deriving DecidableEq

-- What can happen next. `ok` says whether `createWebSocket` gives a socket, where the step comes to it.
inductive Action (Msg : Type) where
  | open (ok : Bool)
  | close
  -- the running callback returns or throws
  | ret (ok : Bool)
  | socketOpen (w : SocketId)
  -- `none` for a frame that is no text or no JSON
  | socketMessage (w : SocketId) (decoded : Option Msg)
  | socketError (w : SocketId)
  | socketClose (w : SocketId)
  | timer (t : TimerId) (ok : Bool)
  deriving DecidableEq

def defaultReconnectDelayMs (attempt : Nat) : Int := min (1000 * 2 ^ attempt) 30000

section Calls

variable {Msg : Type} (reconnectDelayMs : Nat → Option Int)

namespace State

variable (s : State Msg)

def isCurrent (w : SocketId) (generation : Nat) : Bool :=
  s.running && decide (generation = s.generation) && decide (s.ws = some w)

-- `setState` to another state: the callback runs, and the call goes on from the frame.
def suspend (origin : Option SocketId) (state : SocketState) (frame : Frame) : State Msg :=
  { s with state, stack := frame :: s.stack, log := s.log ++ [.state origin state] }

def closeSocket (w : SocketId) : State Msg :=
  { s with sockets := s.sockets.modify w fun x => { x with live := false } }

-- The delay of the next attempt; a failing `reconnectDelayMs` falls back to the default.
def delay : Int :=
  match reconnectDelayMs s.reconnectAttempts with
  | some d => max 0 d
  | none => defaultReconnectDelayMs s.reconnectAttempts

-- `window.setTimeout`
def setTimeout (generation : Nat) (delay : Int) : State Msg :=
  { s with timers := s.timers ++ [{ generation, delay, pending := true }], reconnectTimer := some s.timers.length }

def scheduleReconnect (generation : Nat) : State Msg :=
  if s.running ∧ generation = s.generation ∧ s.reconnectTimer = none then
    let delay := s.delay reconnectDelayMs
    let s := { s with reconnectAttempts := s.reconnectAttempts + 1 }
    if s.state = .closed then s.setTimeout generation delay
    else s.suspend none .closed (.scheduling generation delay)
  else s

-- `connect` after its callback: the generation is not looked at again.
def establish (ok : Bool) (generation : Nat) : State Msg :=
  if ok then { s with sockets := s.sockets ++ [{ generation, live := true }], ws := some s.sockets.length }
  else s.scheduleReconnect reconnectDelayMs generation

def connect (ok : Bool) (generation : Nat) : State Msg :=
  if s.running ∧ generation = s.generation then
    if s.state = .connecting then s.establish reconnectDelayMs ok generation
    else s.suspend none .connecting (.connecting generation)
  else s

def handleDisconnect (w : SocketId) (generation : Nat) : State Msg :=
  if s.isCurrent w generation then
    let s := { s with ws := none }.closeSocket w
    if s.state = .closed then s.scheduleReconnect reconnectDelayMs generation
    else s.suspend (some w) .closed (.disconnecting generation)
  else s

def openCall (ok : Bool) : State Msg :=
  if s.running then s
  else
    { s with running := true, reconnectAttempts := 0, generation := s.generation + 1 }.connect reconnectDelayMs ok
      (s.generation + 1)

def clearTimeout : State Msg :=
  match s.reconnectTimer with
  | none => s
  | some t =>
      { s with timers := s.timers.modify t fun x => { x with pending := false }, reconnectTimer := none }

def closeCall : State Msg :=
  if !s.running ∧ s.ws = none ∧ s.reconnectTimer = none ∧ s.state = .closed then s
  else
    let s := { s with running := false, generation := s.generation + 1 }.clearTimeout
    let s := match s.ws with
      | none => { s with reconnectAttempts := 0 }
      | some w => { s with ws := none, reconnectAttempts := 0 }.closeSocket w
    if s.state = .closed then s else s.suspend none .closed .closing

def onOpen (w : SocketId) (generation : Nat) : State Msg :=
  if s.isCurrent w generation then
    let s := { s with reconnectAttempts := 0 }
    if s.state = .open then s else s.suspend (some w) .open .opened
  else s

def onMessage (w : SocketId) (generation : Nat) (decoded : Option Msg) : State Msg :=
  match decoded with
  | none => s
  | some msg =>
      if s.isCurrent w generation then { s with stack := .message :: s.stack, log := s.log ++ [.message w msg] } else s

-- The call that waited for the callback goes on.
def resume (ok : Bool) : Frame → State Msg
  | .connecting generation => s.establish reconnectDelayMs ok generation
  | .scheduling generation delay => s.setTimeout generation delay
  | .disconnecting generation => s.scheduleReconnect reconnectDelayMs generation
  | .opened | .closing | .message => s

-- The function of the timer: `reconnectTimer` is cleared, whichever timer it holds.
def fire (t : TimerId) (ok : Bool) (generation : Nat) : State Msg :=
  { s with timers := s.timers.modify t fun x => { x with pending := false }, reconnectTimer := none }.connect
    reconnectDelayMs ok generation

end State

-- Code of the owner runs while no call is in progress or while a callback does; sockets and timers only speak
-- while nothing else runs.
def next (s : State Msg) (a : Action Msg) : Option (State Msg) :=
  match a with
  | .open ok => some (s.openCall reconnectDelayMs ok)
  | .close => some s.closeCall
  | .ret ok =>
      match s.stack with
      | [] => none
      | frame :: rest => some ({ s with stack := rest }.resume reconnectDelayMs ok frame)
  | .socketOpen w => if s.stack = [] then s.sockets[w]?.map fun x => s.onOpen w x.generation else none
  | .socketMessage w decoded =>
      if s.stack = [] then s.sockets[w]?.map fun x => s.onMessage w x.generation decoded else none
  | .socketError w =>
      if s.stack = [] then s.sockets[w]?.map fun x => s.handleDisconnect reconnectDelayMs w x.generation else none
  | .socketClose w =>
      if s.stack = [] then
        s.sockets[w]?.map fun x => (s.closeSocket w).handleDisconnect reconnectDelayMs w x.generation
      else none
  | .timer t ok =>
      if s.stack = [] then
        (s.timers[t]?.filter Timer.pending).map fun x => s.fire reconnectDelayMs t ok x.generation
      else none

def machine : Lib.Machine (State Msg) (Action Msg) where
  start := {}
  next := next reconnectDelayMs

end Calls

end GaHub.Transport
