import GaHub.Lib.Dict

namespace GaHub.EventBus

open Lib

-- `EventPrefixFilter`: one prefix, or any iterable of prefixes.
inductive PrefixFilter where
  | one (value : String)
  | many (values : List String)
  deriving DecidableEq

def normalizePrefixes : PrefixFilter → List String
  | .one value => if value = "" then [] else [value]
  | .many values => if values = [] ∨ "" ∈ values then [] else values.eraseDups

def startsWith (topic pre : String) : Bool := pre.toList.isPrefixOf topic.toList

def matchesTopic (topic : String) (prefixes : List String) : Bool :=
  prefixes.isEmpty || prefixes.any (startsWith topic)

def PrefixFilter.Accepts (filter : PrefixFilter) (topic : String) : Prop :=
  match filter with
  | .one value => value.toList <+: topic.toList
  | .many values => values = [] ∨ ∃ value ∈ values, value.toList <+: topic.toList

-- A clock reading. Only its place in the event matters here.
abbrev Time := Int

-- Payloads are taken after `_json_safe`; the bus never looks inside them.
structure Event (P : Type) where
  topic : String
  payload : P
  ts : Time
  eventId : Nat
  deriving DecidableEq

-- Event loops and queues are compared by identity in the source.
abbrev LoopId := Nat

abbrev QueueId := Nat

inductive ResyncReason where
  | serverRestarted
  | cursorAhead
  | historyWindowExceeded
  | subscriberOverflow
  deriving DecidableEq

structure EventSubscription (P : Type) where
  prefixes : List String
  queue : QueueId
  boundaryId : Nat
  replay : List (Event P)
  resyncReason : Option ResyncReason := none
  liveResyncReason : Option ResyncReason := none
  closed : Bool := false
  deriving DecidableEq

-- `resumableSubs` lists the queues that belong to an `EventSubscription`; the
-- subscription objects live beside the queues (see `Live`).
structure Bus (P : Type) where
  loop : Option LoopId := none
  subs : List (List String × QueueId) := []
  resumableSubs : List QueueId := []
  subscriberLoops : Dict QueueId LoopId := .empty
  history : List (Event P) := []
  maxlen : Option Nat
  evictedTopicIds : Dict String Nat := .empty
  queueSize : Int
  epoch : String
  nextEventId : Nat := 1
  pendingDispatch : List (Event P) := []
  dispatchScheduled : Bool := false
  dispatchGeneration : Nat := 0
  dispatchBatchSize : Nat := 512

variable {P : Type}

-- `deque(maxlen=...)`: appending to a full deque drops from the other end.
def dequeAppend (maxlen : Option Nat) (items : List (Event P)) (evt : Event P) : List (Event P) :=
  match maxlen with
  | none => items ++ [evt]
  | some n => (items ++ [evt]).drop ((items ++ [evt]).length - n)

-- The eviction an append is about to cause, recorded as the last evicted id of its topic.
def noteEviction (bus : Bus P) (evt : Event P) : Dict String Nat :=
  if bus.maxlen = some 0 then
    bus.evictedTopicIds.set evt.topic evt.eventId
  else if bus.maxlen = some bus.history.length then
    match bus.history.head? with
    | some evicted => bus.evictedTopicIds.set evicted.topic evicted.eventId
    | none => bus.evictedTopicIds
  else
    bus.evictedTopicIds

structure Publication (P : Type) where
  topic : String
  payload : P
  ts : Time
  deriving DecidableEq

def Publication.toEvent (call : Publication P) (eventId : Nat) : Event P :=
  ⟨call.topic, call.payload, call.ts, eventId⟩

-- The locked section of `publish`. The second component is the dispatch
-- callback to post once the lock is released.
def publish (bus : Bus P) (call : Publication P) : Bus P × Option (LoopId × Nat) :=
  let evt := call.toEvent bus.nextEventId
  let recorded : Bus P := { bus with
    nextEventId := bus.nextEventId + 1
    evictedTopicIds := noteEviction bus evt
    history := dequeAppend bus.maxlen bus.history evt }
  match bus.loop with
  | none => (recorded, none)
  | some loop =>
      let pending := { recorded with pendingDispatch := bus.pendingDispatch ++ [evt] }
      if bus.dispatchScheduled then
        (pending, none)
      else
        ({ pending with dispatchScheduled := true }, some (loop, bus.dispatchGeneration))

-- Events a cursor still misses when it asks with the current epoch.
def resyncReasonFor (bus : Bus P) (prefixes : List String) (afterEventId : Int)
    (epoch : Option String) : Option ResyncReason :=
  if epoch ≠ some bus.epoch then
    some .serverRestarted
  else if afterEventId > ((bus.nextEventId - 1 : Nat) : Int) then
    some .cursorAhead
  else if bus.evictedTopicIds.entries.any fun e =>
      decide ((e.2 : Int) > afterEventId) && matchesTopic e.1 prefixes then
    some .historyWindowExceeded
  else
    none

-- `items[-count:]` for a positive count.
def lastN {α : Type} (count : Nat) (items : List α) : List α := items.drop (items.length - count)

-- One atomic section: the replay window and the registration share a boundary.
def subscribeAfter (bus : Bus P) (filter : PrefixFilter) (afterEventId : Option Int)
    (epoch : Option String) (replay : Int) (queue : QueueId) (owner : LoopId) :
    EventSubscription P × Bus P :=
  let prefixes := normalizePrefixes filter
  let boundaryId := bus.nextEventId - 1
  let resyncReason := afterEventId.bind fun a => resyncReasonFor bus prefixes a epoch
  let replayEvents :=
    if resyncReason.isSome then []
    else match afterEventId with
      | some a => bus.history.filter fun e =>
          decide ((e.eventId : Int) > a) && decide (e.eventId ≤ boundaryId) &&
            matchesTopic e.topic prefixes
      | none =>
          lastN replay.toNat (bus.history.filter fun e => matchesTopic e.topic prefixes)
  ({ prefixes, queue, boundaryId, replay := replayEvents, resyncReason },
    { bus with
      subs := bus.subs ++ [(prefixes, queue)]
      resumableSubs := bus.resumableSubs ++ [queue]
      subscriberLoops := bus.subscriberLoops.set queue owner })

end GaHub.EventBus
