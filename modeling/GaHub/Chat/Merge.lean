import GaHub.Chat.Archive
import GaHub.Chat.Order

namespace GaHub.Chat

-- `startsWith`
def startsWith (s front : String) : Bool := front.toList.isPrefixOf s.toList

-- Two minutes: `ARCHIVE_SNAPSHOT_TIME_TOLERANCE_MS`
def timeTolerance : Int := 2 * 60 * 1000

def timestampsOverlap (archived snapshot : ChatMsg) : Bool :=
  match archived.timestamp.join, snapshot.timestamp.join with
  | some x, some y => decide (x - y ≤ timeTolerance ∧ y - x ≤ timeTolerance)
  | _, _ => true

namespace ChatMsg

variable (m : ChatMsg)

def logical : Option String := truthy m.logicalId.join

def stream : Option StreamId := truthy m.streamId.join

def fromHistory : Bool := decide (m.source.join = some "history")

-- `livePositionKey`
def livePositionKey : Option (String × Role) := ((m.run.or m.logical).or m.stream).map fun identity => (identity, m.role)

end ChatMsg

def pairsDescribeSameTurn (archivedQuery archivedAnswer query answer : ChatMsg) : Bool :=
  if archivedQuery.role ≠ .user ∨ archivedAnswer.role ≠ .assistant then false
  else if archivedQuery.run.isSome ∨ query.run.isSome then
    archivedQuery.run.isSome && decide (archivedQuery.run = query.run)
  else if archivedQuery.logical.isSome ∨ query.logical.isSome then
    archivedQuery.logical.isSome && decide (archivedQuery.logical = query.logical)
  else if archivedQuery.content ≠ query.content then false
  else if !timestampsOverlap archivedQuery query || !timestampsOverlap archivedAnswer answer then false
  else
    let temporalEvidence := archivedQuery.timestamp.join.isSome && query.timestamp.join.isSome &&
      archivedAnswer.timestamp.join.isSome && answer.timestamp.join.isSome
    temporalEvidence || decide (archivedAnswer.content = answer.content)

-- The first messages of the pairs of a list that meet a condition.
def pairIndices (p : ChatMsg → ChatMsg → Bool) (l : List ChatMsg) : List Nat :=
  (List.range (l.length - 1)).filter fun i =>
    match l[i]?, l[i + 1]? with
    | some x, some y => p x y
    | _, _ => false

-- The messages of a snapshot that `removeArchivedSnapshotOverlap` takes out.
def archivedOverlap (base live : List ChatMsg) : List Nat :=
  let archived := base.filter ChatMsg.fromHistory
  let skipped := pairIndices (fun query answer =>
    decide (query.role = .user ∧ answer.role = .assistant ∧ query.streamId.join ≠ none ∧
      query.streamId.join = answer.streamId.join ∧ answer.streaming.join = some false) &&
    !(pairIndices (fun x y => pairsDescribeSameTurn x y query answer) archived).isEmpty) live
  skipped.flatMap fun i => [i, i + 1]

section Replies

variable (turnStarts : String → List Nat)

-- A segment over the one it continues. Archive tools and fences differ from live text.
def mergeSegment (previous part : ReplySegment) : ReplySegment :=
  let fromArchive := previous.archived || startsWith previous.streamId "history:"
  let keepPrevious := if fromArchive then decide (part.content = "") else startsWith previous.content part.content
  { part with
    content := if keepPrevious then previous.content else part.content
    turnSegments :=
      if previous.content = part.content then part.turnSegments.or previous.turnSegments
      else if keepPrevious then previous.turnSegments else part.turnSegments
    archived := if keepPrevious then previous.archived else part.archived
    -- archive completion is not physical-stream completion for an active run
    done := part.done || (!fromArchive && previous.done) }

def archiveMatch (part previous : ReplySegment) : Bool :=
  startsWith previous.streamId "history:" && decide (previous.content ≠ "") &&
    (startsWith part.content previous.content || startsWith previous.content part.content)

-- One part of an incoming reply, with the place in the archive segments from which the next is looked for.
def mergePart (state : List ReplySegment × Nat) (part : ReplySegment) : List ReplySegment × Nat :=
  match state.1.findIdx? fun previous => decide (previous.streamId = part.streamId) with
  | some index => (state.1.modify index fun previous => mergeSegment previous part, state.2)
  | none =>
      match if part.content = "" then none else (state.1.drop state.2).findIdx? (archiveMatch part) with
      | some offset =>
          (state.1.modify (state.2 + offset) fun previous => mergeSegment previous part, state.2 + offset + 1)
      | none => (state.1 ++ [part], state.2)

def mergeParts (old incoming : List ReplySegment) : List ReplySegment := (incoming.foldl mergePart (old, 0)).1

def mergeRunReply (old incoming : ChatMsg) : ChatMsg :=
  let segments := mergeParts old.parts incoming.parts
  { old.spread incoming with
    segments := some (some segments)
    content := replySegmentsContent segments
    turnSegments := some (replySegmentsTurns turnStarts segments) }

end Replies

-- The pair of a running stream takes over the pair the archive has of it.
def adopts (query archivedQuery archivedAnswer : ChatMsg) : Bool :=
  archivedQuery.fromHistory && archivedAnswer.fromHistory &&
    decide (archivedQuery.role = .user ∧ archivedAnswer.role = .assistant) &&
    decide (archivedQuery.run = none ∧ query.run = none ∧ archivedQuery.logical = none ∧ query.logical = none) &&
    decide (archivedQuery.content = query.content ∧ archivedQuery.timestamp.join ≠ none) &&
    timestampsOverlap archivedQuery query

-- A question and the answer it is getting, as one stream has them.
def livePair (query answer : ChatMsg) : Bool :=
  decide (query.role = .user ∧ answer.role = .assistant ∧ answer.streaming.join = some true ∧
    query.stream.isSome = true ∧ query.streamId.join = answer.streamId.join ∧ query.timestamp.join ≠ none)

-- The list with the pairs taken over so far, and which messages of the snapshot did so.
def adoptPair (live : List ChatMsg) (state : List ChatMsg × List Nat) (i : Nat) : List ChatMsg × List Nat :=
  match live[i]?, live[i + 1]? with
  | some query, some answer =>
      match (pairIndices (adopts query) state.1).getLast? with
      | none => state
      | some j =>
          ((state.1.modify j fun archived => archived.spread query).modify (j + 1) fun archived => archived.spread answer,
            state.2 ++ [i, i + 1])
  | _, _ => state

def adoptPairs (base live : List ChatMsg) : List ChatMsg × List Nat :=
  (pairIndices livePair live).foldl (adoptPair live) (base, [])

def earlierTime (x y : Option Time) : Option Time :=
  match x, y with
  | some x, some y => some (min x y)
  | x, y => x.or y

-- A list under construction with the places of its keys, the newest first.
structure LiveState where
  out : List ChatMsg
  positions : List ((String × Role) × Nat)

section Live

variable (turnStarts : String → List Nat)

def mergeMessage (old msg : ChatMsg) : ChatMsg :=
  if old.outcome.join.isSome then old
  else if startsWith old.content msg.content ∧ msg.content.length < old.content.length then old
  else if old.role = .assistant ∧ old.run.isSome ∧ old.runId.join = msg.runId.join then mergeRunReply turnStarts old msg
  else
    { old.spread msg with
      timestamp := some (
        if old.role = .user ∧ old.run.isSome ∧ old.runId.join = msg.runId.join then
          earlierTime old.timestamp.join msg.timestamp.join
        else msg.timestamp.join) }

def mergeOne (state : LiveState) (msg : ChatMsg) : LiveState :=
  match msg.livePositionKey with
  | none => { state with out := state.out ++ [msg] }
  | some key =>
      match state.positions.lookup key with
      | some index => { state with out := state.out.modify index fun old => mergeMessage turnStarts old msg }
      | none => { out := state.out ++ [msg], positions := (key, state.out.length) :: state.positions }

-- The place of each key; of several messages with one key, the last.
def positionsOf (out : List ChatMsg) : List ((String × Role) × Nat) :=
  (out.zipIdx.filterMap fun e => e.1.livePositionKey.map fun key => (key, e.2)).reverse

def mergeLive (base live : List ChatMsg) : List ChatMsg :=
  let adopted := adoptPairs base live
  let skipped := archivedOverlap base live
  let left := live.zipIdx.filter fun e => decide (e.2 ∉ skipped ∧ e.2 ∉ adopted.2)
  let state := (left.map Prod.fst).foldl (mergeOne turnStarts) { out := adopted.1, positions := positionsOf adopted.1 }
  orderConversationTurns state.out

def distinctArchive (seen : List (StreamId × Role)) : List ChatMsg → List ChatMsg
  | [] => []
  | m :: rest =>
      match if m.run.isSome then none else m.stream with
      | none => m :: distinctArchive seen rest
      | some sid =>
          if (sid, m.role) ∈ seen then distinctArchive seen rest
          else m :: distinctArchive ((sid, m.role) :: seen) rest

def prependUniqueHistory (older current : List ChatMsg) : List ChatMsg :=
  mergeLive turnStarts
    (coalesceArchiveRuns turnStarts (distinctArchive [] (older ++ current.filter ChatMsg.fromHistory)))
    (current.filter fun m => !m.fromHistory)

end Live

end GaHub.Chat
