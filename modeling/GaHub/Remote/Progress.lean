import GaHub.Lib.Dict
import GaHub.Lib.Machine
import Mathlib.Algebra.Order.Ring.Rat

namespace GaHub.Remote.Progress

open Lib

abbrev Key := String × String

-- A channel is a place in the list of those ever made, a call of `get` one in the list of calls.
abbrev ChannelId := Nat
abbrev CallId := Nat

-- Where the task of a channel stands: not begun, before its `finally`, in it at the publisher's end, or done.
inductive Task where
  | starting
  | streaming
  | finishing
  | ended
  deriving DecidableEq

structure Channel where
  key : Key
  lastUsed : ℚ
  task : Task := .starting
  -- `close` was called; and it was called when the task was in its `finally`, which then stops there
  closed : Bool := false
  cut : Bool := false
  ready : Bool := false
  latest : Option Nat := none
  listeners : List CallId := []
  deriving DecidableEq

def Channel.running (ch : Channel) : Bool := ch.task ≠ .ended && !ch.closed

-- A call of `get`, and for `live` the handler that made it and goes on with the channel.
inductive Stage where
  | replacing (c : ChannelId)
  | evicting (c : ChannelId)
  | waiting (c : ChannelId)
  | returned (c : ChannelId)
  | listening (c : ChannelId)
  | leaving (c : ChannelId)
  | left
  | failed
  deriving DecidableEq

-- The queue of a handler holds one item, a revision or `None`; `told` stays once it was given `None`.
structure Call where
  key : Key
  live : Bool
  stage : Stage
  queue : Option (Option Nat) := none
  told : Bool := false
  deriving DecidableEq

inductive Sweeper where
  | sleeping (wake : ℚ)
  | closing (c : ChannelId) (rest : List (Key × ChannelId))
  | stopped
  deriving DecidableEq

-- `ProgressHub.close`: waiting for the sweeper and the channel it closes, closing the channels, or done.
inductive Closing where
  | stopping (c : Option ChannelId)
  | closing (pending all : List ChannelId)
  | closed
  deriving DecidableEq

structure Hub where
  now : ℚ := 0
  channels : Dict Key ChannelId := .empty
  made : List Channel := []
  calls : List Call := []
  sweeper : Option Sweeper := none
  closing : Option Closing := none
  deriving DecidableEq

inductive Action where
  | pass (seconds : ℚ)
  | get (key : Key) (live : Bool)
  -- what the call waited for has ended
  | resume (i : CallId)
  | obtain (i : CallId)
  | timeout (i : CallId)
  -- the WebSocket handshake is over
  | listen (i : CallId)
  | take (i : CallId)
  | leave (i : CallId)
  | begin (c : ChannelId)
  | publish (c : ChannelId)
  | finish (c : ChannelId)
  | notify (c : ChannelId)
  | sweep
  | swept
  | stop
  | closeAll
  | closeNext
  | cleared
  deriving DecidableEq

def limit : Nat := 64

namespace Hub

variable (s : Hub)

def setStage (i : CallId) (stage : Stage) : Hub :=
  { s with calls := s.calls.modify i fun call => { call with stage } }

def modifyChannel (c : ChannelId) (f : Channel → Channel) : Hub := { s with made := s.made.modify c f }

def ended (c : ChannelId) : Bool := s.made[c]?.all fun ch => ch.task = .ended

def runs (key : Key) : Bool := (s.channels.get? key).any fun c => s.made[c]?.any Channel.running

-- `close`, up to its await.
def cancel (c : ChannelId) : Hub :=
  s.modifyChannel c fun ch => { ch with closed := true, cut := ch.cut || ch.task = .finishing }

def pop (key : Key) (c : ChannelId) : Hub := { s.cancel c with channels := s.channels.erase key }

def idle (c : ChannelId) : Bool := s.made[c]?.all fun ch => ch.listeners.isEmpty

def lastUsed (c : ChannelId) : ℚ := (s.made[c]?.map Channel.lastUsed).getD 0

def older (best : Option (Key × ChannelId)) (e : Key × ChannelId) : Option (Key × ChannelId) :=
  match best with
  | none => some e
  | some b => if s.lastUsed e.2 < s.lastUsed b.2 then some e else some b

-- The first of those without a listener that were used the longest ago.
def victim : Option (Key × ChannelId) := (s.channels.entries.filter fun e => s.idle e.2).foldl s.older none

def wait (i : CallId) (c : ChannelId) : Hub :=
  (s.modifyChannel c fun ch => { ch with lastUsed := s.now }).setStage i (.waiting c)

def insert (i : CallId) (key : Key) : Hub :=
  { s.setStage i (.waiting s.made.length) with
    made := s.made ++ [{ key, lastUsed := s.now }]
    channels := s.channels.set key s.made.length }

def makeRoom (i : CallId) (key : Key) : Hub :=
  if s.channels.size ≥ limit ∧ key ∉ s.channels.keys then
    match s.victim with
    | none => s.setStage i .failed
    | some (key', c) => (s.pop key' c).setStage i (.evicting c)
  else s.insert i key

def get (key : Key) (live : Bool) : Hub :=
  let i := s.calls.length
  let s : Hub :=
    { s with
      calls := s.calls ++ [{ key, live, stage := .failed }]
      sweeper := some (s.sweeper.getD (.sleeping (s.now + 10))) }
  match s.channels.get? key with
  | none => s.makeRoom i key
  | some c => if s.ended c then s.setStage i (.replacing c) else s.wait i c

def resume (i : CallId) (call : Call) : Option Hub :=
  match call.stage with
  | .replacing c => if s.ended c then some (s.makeRoom i call.key) else none
  | .evicting c => if s.ended c then some (s.insert i call.key) else none
  | _ => none

def put (i : CallId) (item : Option Nat) : Hub :=
  { s with calls := s.calls.modify i fun call => { call with queue := some item, told := call.told || item.isNone } }

def give (listeners : List CallId) (item : Option Nat) : Hub := listeners.foldl (fun s i => s.put i item) s

def publish (c : ChannelId) (ch : Channel) : Hub :=
  let revision := ch.latest.getD 0 + 1
  (s.modifyChannel c fun ch => { ch with latest := some revision, ready := true }).give ch.listeners (some revision)

-- The end of the `finally`: a task that was cancelled in it has left it before.
def notify (c : ChannelId) (ch : Channel) : Hub :=
  if ch.cut then s.modifyChannel c fun ch => { ch with task := .ended }
  else (s.modifyChannel c fun ch => { ch with task := .ended, ready := true }).give ch.listeners none

def unused (c : ChannelId) : Bool := s.idle c && decide (30 < s.now - s.lastUsed c)

def sweepOn (entries : List (Key × ChannelId)) : Hub :=
  match entries.dropWhile fun e => !s.unused e.2 with
  | [] => { s with sweeper := some (.sleeping (s.now + 10)) }
  | (key, c) :: rest => { s.pop key c with sweeper := some (.closing c rest) }

def listen (i : CallId) (c : ChannelId) : Hub :=
  (s.modifyChannel c fun ch => { ch with listeners := ch.listeners ++ [i] }).setStage i (.listening c)

def take (i : CallId) (c : ChannelId) (item : Option Nat) : Hub :=
  { s with
    calls := s.calls.modify i fun call =>
      { call with queue := none, stage := if item.isNone then .leaving c else .listening c } }

def leave (i : CallId) (c : ChannelId) : Hub :=
  (s.modifyChannel c fun ch => { ch with listeners := ch.listeners.erase i, lastUsed := s.now }).setStage i .left

def stop : Hub :=
  match s.sweeper with
  | some (.closing c _) => { s.cancel c with sweeper := some .stopped, closing := some (.stopping (some c)) }
  | sweeper => { s with sweeper := sweeper.map fun _ => .stopped, closing := some (.stopping none) }

def stepCall (i : CallId) (call : Call) : Action → Option Hub
  | .resume _ => s.resume i call
  | .obtain _ =>
      match call.stage with
      | .waiting c =>
          s.made[c]?.bind fun ch =>
            if ch.ready then
              some (s.setStage i (if ch.task = .ended ∨ ch.latest = none then .failed else .returned c))
            else none
      | _ => none
  | .timeout _ =>
      match call.stage with
      | .waiting _ => some (s.setStage i .failed)
      | _ => none
  | .listen _ =>
      match call.stage, call.live with
      | .returned c, true => some (s.listen i c)
      | _, _ => none
  | .take _ =>
      match call.stage, call.queue with
      | .listening c, some item => some (s.take i c item)
      | _, _ => none
  | .leave _ =>
      match call.stage with
      | .returned _ => some (s.setStage i .left)
      | .listening c | .leaving c => some (s.leave i c)
      | _ => none
  | _ => none

def stepChannel (c : ChannelId) (ch : Channel) : Action → Option Hub
  | .begin _ =>
      match ch.task with
      | .starting =>
          some (s.modifyChannel c fun ch => { ch with task := if ch.closed then .ended else .streaming })
      | _ => none
  | .publish _ =>
      match ch.task with
      | .streaming => some (s.publish c ch)
      | _ => none
  | .finish _ =>
      match ch.task with
      | .streaming => some (s.modifyChannel c fun ch => { ch with task := .finishing })
      | _ => none
  | .notify _ =>
      match ch.task with
      | .finishing => some (s.notify c ch)
      | _ => none
  | _ => none

def next (s : Hub) (a : Action) : Option Hub :=
  match a with
  | .pass seconds => some { s with now := s.now + max seconds 0 }
  | .get key live => some (s.get key live)
  | .resume i | .obtain i | .timeout i | .listen i | .take i | .leave i =>
      s.calls[i]?.bind fun call => s.stepCall i call a
  | .begin c | .publish c | .finish c | .notify c => s.made[c]?.bind fun ch => s.stepChannel c ch a
  | .sweep =>
      match s.sweeper with
      | some (.sleeping wake) => if wake ≤ s.now then some (s.sweepOn s.channels.entries) else none
      | _ => none
  | .swept =>
      match s.sweeper with
      | some (.closing c rest) => if s.ended c then some (s.sweepOn rest) else none
      | _ => none
  | .stop => if s.closing = none then some s.stop else none
  | .closeAll =>
      match s.closing with
      | some (.stopping c) =>
          if c.all s.ended then some { s with closing := some (.closing s.channels.values s.channels.values) } else none
      | _ => none
  | .closeNext =>
      match s.closing with
      | some (.closing (c :: pending) all) => some { s.cancel c with closing := some (.closing pending all) }
      | _ => none
  | .cleared =>
      match s.closing with
      | some (.closing [] all) =>
          if all.all s.ended then some { s with channels := .empty, closing := some .closed } else none
      | _ => none

end Hub

def hub : Machine Hub Action where
  start := {}
  next := Hub.next

end GaHub.Remote.Progress
