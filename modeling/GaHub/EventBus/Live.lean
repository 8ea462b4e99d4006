import GaHub.EventBus.Replay
import GaHub.Lib.Machine
import Mathlib.Logic.Function.Basic

namespace GaHub.EventBus

open Lib

variable {P : Type}

-- Callbacks the bus posts on a loop.
inductive Callback where
  | drainDispatch (generation : Nat)
  | wakeQueue (queue : QueueId)
  deriving DecidableEq

-- Where a `live()` generator stands: before its loop head, inside
-- `await queue.get()`, suspended at `yield`, or returned.
inductive LivePc where
  | top
  | waiting
  | yielding
  | done
  deriving DecidableEq

-- One queue with its reader. `subscription` is `none` for a `subscribe`
-- generator. `attachedAtStart` remembers whether the owner loop was the
-- attached one when the reader registered.
structure Channel (P : Type) where
  owner : LoopId
  items : List (Option (Event P)) := []
  subscription : Option (EventSubscription P) := none
  pc : LivePc := .top
  yielded : List (Event P) := []
  attachedAtStart : Bool := false

-- The event `_dispatch_async` is handing out, with what is left of its
-- snapshot of `_subs` and its copy of `_subscriber_loops`.
structure Handout (P : Type) where
  evt : Event P
  entries : List (List String × QueueId)
  owners : Dict QueueId LoopId

-- A loop runs one callback at a time. Producers and `attach_loop` run on
-- other threads, so a batch can be interrupted between two queues.
inductive Thread (P : Type) where
  | idle
  | dispatching (generation : Nat) (hasMore : Bool) (batch : List (Event P))
      (current : Option (Handout P))

-- `outbox` holds `call_soon_threadsafe` calls decided under the lock and not
-- made yet, `ready` the callbacks already posted. Both may be taken in any
-- order, which allows more interleavings than asyncio does.
structure World (P : Type) where
  bus : Bus P
  channels : QueueId → Option (Channel P) := fun _ => none
  nextQueue : Nat := 0
  threads : LoopId → Thread P := fun _ => .idle
  outbox : List (LoopId × Callback) := []
  ready : List (LoopId × Callback) := []
  closedLoops : LoopId → Bool := fun _ => false
  published : List (Event P) := []

inductive Action (P : Type) where
  | publish (call : Publication P)
  | attachLoop (loop : LoopId)
  | detachLoop (loop : LoopId)
  | closeLoop (loop : LoopId)
  | subscribe (loop : LoopId) (filter : PrefixFilter)
  | subscribeAfter (loop : LoopId) (filter : PrefixFilter) (afterEventId : Option Int)
      (epoch : Option String) (replay : Int)
  | post (index : Nat)
  | runCallback (index : Nat)
  | dispatch (loop : LoopId)
  | resume (queue : QueueId)
  | receive (queue : QueueId)
  | close (queue : QueueId)

-- `asyncio.Queue`: a size of zero or less is unbounded.
def queueFull (queueSize : Int) (items : List (Option (Event P))) : Bool :=
  decide (0 < queueSize) && decide (queueSize ≤ items.length)

def EventSubscription.resync (sub : EventSubscription P) (reason : ResyncReason) :
    EventSubscription P :=
  { sub with liveResyncReason := some reason }

def Channel.resync (c : Channel P) (reason : ResyncReason) : Channel P :=
  { c with subscription := c.subscription.map (EventSubscription.resync · reason) }

def World.modify (w : World P) (q : QueueId) (f : Channel P → Channel P) : World P :=
  { w with channels := Function.update w.channels q ((w.channels q).map f) }

def World.runs (w : World P) (loop : LoopId) : Bool :=
  !w.closedLoops loop && match w.threads loop with
    | .idle => true
    | .dispatching .. => false

def unregister (bus : Bus P) (q : QueueId) : Bus P :=
  { bus with
    subs := bus.subs.filter fun e => decide (e.2 ≠ q)
    resumableSubs := bus.resumableSubs.filter fun r => decide (r ≠ q)
    subscriberLoops := bus.subscriberLoops.erase q }

-- Entries without a recorded owner count as stale, as in `_retire_subscriptions_locked`.
def ownedBy (bus : Bus P) (owner : LoopId) (q : QueueId) : Bool :=
  match bus.subscriberLoops.get? q with
  | some o => decide (o = owner)
  | none => true

def retired (bus : Bus P) (owner : LoopId) : List QueueId :=
  (bus.subs.filter fun e => ownedBy bus owner e.2).map Prod.snd

def retireSubscriptions (w : World P) (owner : LoopId) (reason : ResyncReason) : World P :=
  let gone := retired w.bus owner
  { w with
    bus := { w.bus with
      subs := w.bus.subs.filter fun e => !ownedBy w.bus owner e.2
      resumableSubs := w.bus.resumableSubs.filter fun q => decide (q ∉ gone)
      subscriberLoops := w.bus.subscriberLoops.filter fun e => decide (e.1 ∉ gone) }
    channels := fun q =>
      if q ∈ gone ∧ q ∈ w.bus.resumableSubs then (w.channels q).map (Channel.resync · reason)
      else w.channels q
    -- `_wake_retired` skips queues without an owner
    outbox := w.outbox ++ gone.filterMap fun q =>
      (w.bus.subscriberLoops.get? q).map fun o => (o, .wakeQueue q) }

def dropPending (bus : Bus P) : Bus P :=
  { bus with pendingDispatch := [], dispatchScheduled := false }

def attachLoop (w : World P) (loop : LoopId) : World P :=
  if w.bus.loop = some loop then w
  else
    let cleared := match w.bus.loop with
      | some old => retireSubscriptions { w with bus := dropPending w.bus } old .serverRestarted
      | none => w
    let generation := cleared.bus.dispatchGeneration + 1
    let attached := { cleared.bus with loop := some loop, dispatchGeneration := generation }
    if !attached.pendingDispatch.isEmpty && !attached.dispatchScheduled then
      { cleared with
        bus := { attached with dispatchScheduled := true }
        outbox := cleared.outbox ++ [(loop, .drainDispatch generation)] }
    else
      { cleared with bus := attached }

def detachLoop (w : World P) (loop : LoopId) : World P :=
  if w.bus.loop = some loop then
    retireSubscriptions
      { w with bus := { dropPending w.bus with
          loop := none, dispatchGeneration := w.bus.dispatchGeneration + 1 } }
      loop .serverRestarted
  else w

-- `_schedule_dispatch` and `_wake_retired` reaching the loop. A closed loop
-- raises: the bus then forgets the loop, unless a newer lifespan owns it.
def post (w : World P) (loop : LoopId) (callback : Callback) : World P :=
  if w.closedLoops loop then
    match callback with
    | .wakeQueue _ => w
    | .drainDispatch generation =>
        if w.bus.loop = some loop ∧ w.bus.dispatchGeneration = generation then
          { w with bus := { dropPending w.bus with loop := none } }
        else w
  else
    { w with ready := w.ready ++ [(loop, callback)] }

def wakeQueue (w : World P) (q : QueueId) : World P :=
  w.modify q fun c => { c with items := [none] }

-- The locked head of `_drain_dispatch`.
def drainDispatch (w : World P) (loop : LoopId) (generation : Nat) : World P :=
  if w.bus.loop = some loop ∧ w.bus.dispatchGeneration = generation then
    let batch := w.bus.pendingDispatch.take w.bus.dispatchBatchSize
    let rest := w.bus.pendingDispatch.drop w.bus.dispatchBatchSize
    { w with
      bus := { w.bus with
        pendingDispatch := rest
        dispatchScheduled := if rest.isEmpty then false else w.bus.dispatchScheduled }
      threads := Function.update w.threads loop (.dispatching generation (!rest.isEmpty) batch none) }
  else w

-- `put_nowait` with the overflow policies: a resumable queue is emptied down
-- to the wake-up sentinel, a legacy one loses its oldest item.
def Channel.offer (queueSize : Int) (resumable : Bool) (evt : Event P) (c : Channel P) : Channel P :=
  if !queueFull queueSize c.items then
    { c with items := c.items ++ [some evt] }
  else if resumable then
    { c.resync .subscriberOverflow with items := [none] }
  else if !queueFull queueSize c.items.tail then
    { c with items := c.items.tail ++ [some evt] }
  else
    { c with items := c.items.tail }

-- One turn of the loop in `_dispatch_async`.
def deliver (w : World P) (loop : LoopId) (evt : Event P) (owner : Option LoopId)
    (prefixes : List String) (q : QueueId) : World P :=
  if owner.any fun o => decide (o ≠ loop) then w
  else if !matchesTopic evt.topic prefixes then w
  else w.modify q (Channel.offer w.bus.queueSize (decide (q ∈ w.bus.resumableSubs)) evt)

-- The rest of `_drain_dispatch`, one queue at a time.
def dispatch (w : World P) (loop : LoopId) : Option (World P) :=
  match w.threads loop with
  | .idle => none
  | .dispatching generation hasMore batch (some ⟨evt, (prefixes, q) :: entries, owners⟩) =>
      some { deliver w loop evt (owners.get? q) prefixes q with
        threads := Function.update w.threads loop
          (.dispatching generation hasMore batch (some ⟨evt, entries, owners⟩)) }
  | .dispatching generation hasMore batch (some ⟨_, [], _⟩) =>
      some { w with
        threads := Function.update w.threads loop (.dispatching generation hasMore batch none) }
  | .dispatching generation hasMore (evt :: batch) none =>
      some { w with
        threads := Function.update w.threads loop (.dispatching generation hasMore batch
          (some ⟨evt, w.bus.subs, w.bus.subscriberLoops⟩)) }
  | .dispatching generation hasMore [] none =>
      some { w with
        threads := Function.update w.threads loop .idle
        -- a running loop is not closed, so `call_soon` does not raise here
        ready := if hasMore then w.ready ++ [(loop, .drainDispatch generation)] else w.ready }

def publishAction (w : World P) (call : Publication P) : World P :=
  let (bus, scheduled) := publish w.bus call
  { w with
    bus
    published := w.published ++ [call.toEvent w.bus.nextEventId]
    outbox := w.outbox ++ scheduled.toList.map fun s => (s.1, .drainDispatch s.2) }

def subscribeLegacy (w : World P) (loop : LoopId) (filter : PrefixFilter) : World P :=
  { w with
    bus := { w.bus with
      subs := w.bus.subs ++ [(normalizePrefixes filter, w.nextQueue)]
      subscriberLoops := w.bus.subscriberLoops.set w.nextQueue loop }
    channels := Function.update w.channels w.nextQueue (some { owner := loop })
    nextQueue := w.nextQueue + 1 }

def subscribeResumable (w : World P) (loop : LoopId) (filter : PrefixFilter)
    (afterEventId : Option Int) (epoch : Option String) (replay : Int) : World P :=
  let (sub, bus) := subscribeAfter w.bus filter afterEventId epoch replay w.nextQueue loop
  { w with
    bus
    channels := Function.update w.channels w.nextQueue (some
      { owner := loop, subscription := some sub, attachedAtStart := decide (w.bus.loop = some loop) })
    nextQueue := w.nextQueue + 1 }

-- Up to the next suspension: the loop head of `live()`.
def Channel.resume (c : Channel P) : Option (Channel P) :=
  match c.subscription with
  | none => none
  | some sub =>
      if c.pc = .top ∨ c.pc = .yielding then
        if sub.closed || sub.liveResyncReason.isSome then some { c with pc := .done }
        else some { c with pc := .waiting }
      else none

-- `queue.get()` returning inside `live()`, up to the next suspension or loop head.
def Channel.receive (c : Channel P) (sub : EventSubscription P) : Option (Channel P) :=
  match c.pc, c.items with
  | .waiting, item :: rest =>
      match item with
      | none => some { c with items := rest, pc := .done }
      | some evt =>
          if sub.liveResyncReason.isSome then some { c with items := rest, pc := .done }
          else if evt.eventId ≤ sub.boundaryId then some { c with items := rest, pc := .top }
          else some { c with items := rest, pc := .yielding, yielded := c.yielded ++ [evt] }
  | _, _ => none

-- A read by either kind of generator. A `subscribe` generator that meets the
-- sentinel returns and unregisters itself.
def receiveAction (w : World P) (q : QueueId) (c : Channel P) : Option (World P) :=
  match c.subscription with
  | some sub => (c.receive sub).map fun c' => w.modify q fun _ => c'
  | none =>
      match c.items with
      | [] => none
      | some _ :: rest => some (w.modify q fun c => { c with items := rest })
      | none :: rest =>
          some { w.modify q (fun c => { c with items := rest }) with bus := unregister w.bus q }

def closeAction (w : World P) (q : QueueId) (c : Channel P) : World P :=
  match c.subscription with
  | some sub =>
      if sub.closed then w
      else
        { w.modify q (fun c => { c with subscription := some { sub with closed := true } }) with
          bus := unregister w.bus q }
  | none => { w with bus := unregister w.bus q }

-- Coroutines of a reader (reads, `close`, subscribing) run on its loop, between callbacks.
def World.next (w : World P) : Action P → Option (World P)
  | .publish call => some (publishAction w call)
  | .attachLoop loop => some (attachLoop w loop)
  | .detachLoop loop => some (detachLoop w loop)
  | .closeLoop loop =>
      if w.runs loop then some { w with closedLoops := Function.update w.closedLoops loop true }
      else none
  | .subscribe loop filter =>
      if w.runs loop then some (subscribeLegacy w loop filter) else none
  | .subscribeAfter loop filter afterEventId epoch replay =>
      if w.runs loop then some (subscribeResumable w loop filter afterEventId epoch replay) else none
  | .post index =>
      w.outbox[index]?.map fun c => post { w with outbox := w.outbox.eraseIdx index } c.1 c.2
  | .runCallback index =>
      w.ready[index]?.bind fun c =>
        if w.runs c.1 then
          let taken := { w with ready := w.ready.eraseIdx index }
          match c.2 with
          | .drainDispatch generation => some (drainDispatch taken c.1 generation)
          | .wakeQueue q => some (wakeQueue taken q)
        else none
  | .dispatch loop => dispatch w loop
  | .resume q =>
      (w.channels q).bind fun c =>
        if w.runs c.owner then c.resume.map fun c' => w.modify q fun _ => c' else none
  | .receive q =>
      (w.channels q).bind fun c => if w.runs c.owner then receiveAction w q c else none
  | .close q =>
      (w.channels q).bind fun c => if w.runs c.owner then some (closeAction w q c) else none

def liveMachine (maxlen : Option Nat) (queueSize : Int) (epoch : String) :
    Machine (World P) (Action P) where
  start := { bus := init maxlen queueSize epoch }
  next := World.next

-- The matching events published after the subscription's boundary.
def EventSubscription.wanted (sub : EventSubscription P) (published : List (Event P)) :
    List (Event P) :=
  published.filter fun e =>
    matchesTopic e.topic sub.prefixes && decide (sub.boundaryId < e.eventId)

end GaHub.EventBus
