import Mathlib.Data.List.Sort
import Mathlib.Data.List.Nodup

namespace GaHub.Chat

abbrev StreamId := String
abbrev RunId := String

-- Milliseconds since the epoch.
abbrev Time := Int

inductive Role where
  | user
  | assistant
  | system
  deriving DecidableEq

inductive Outcome where
  | completed
  | cancelled
  | failed
  deriving DecidableEq

-- An optional property of an object: absent, there but undefined, or set. Spreading an object over
-- another one writes what is there, defined or not.
abbrev Slot (α : Type) := Option (Option α)

def truthy (s : Option String) : Option String := s.filter fun s => decide (s ≠ "")

structure ReplySegment where
  streamId : StreamId
  content : String
  turnSegments : Option (List String) := none
  archived : Bool := false
  done : Bool
  deriving DecidableEq

structure ChatMsg where
  role : Role
  content : String
  turnSegments : Slot (List String) := none
  logicalId : Slot String := none
  runId : Slot RunId := none
  outcome : Slot Outcome := none
  recoveryNotice : Slot String := none
  recoveryOffset : Slot Nat := none
  recoveryStreamId : Slot StreamId := none
  segments : Slot (List ReplySegment) := none
  timestamp : Slot Time := none
  startedAt : Slot Time := none
  finishedAt : Slot Time := none
  streamId : Slot StreamId := none
  source : Slot String := none
  streaming : Slot Bool := none
  stopped : Slot Bool := none
  pendingWebui : Slot Bool := none
  pendingWebuiId : Slot String := none
  deriving DecidableEq

namespace ChatMsg

variable (m : ChatMsg)

-- The run of a message, where it has one.
def run : Option RunId := truthy m.runId.join

def parts : List ReplySegment := m.segments.join.getD []

-- `{ ...old, ...msg }`
def spread (old msg : ChatMsg) : ChatMsg where
  role := msg.role
  content := msg.content
  turnSegments := msg.turnSegments.or old.turnSegments
  logicalId := msg.logicalId.or old.logicalId
  runId := msg.runId.or old.runId
  outcome := msg.outcome.or old.outcome
  recoveryNotice := msg.recoveryNotice.or old.recoveryNotice
  recoveryOffset := msg.recoveryOffset.or old.recoveryOffset
  recoveryStreamId := msg.recoveryStreamId.or old.recoveryStreamId
  segments := msg.segments.or old.segments
  timestamp := msg.timestamp.or old.timestamp
  startedAt := msg.startedAt.or old.startedAt
  finishedAt := msg.finishedAt.or old.finishedAt
  streamId := msg.streamId.or old.streamId
  source := msg.source.or old.source
  streaming := msg.streaming.or old.streaming
  stopped := msg.stopped.or old.stopped
  pendingWebui := msg.pendingWebui.or old.pendingWebui
  pendingWebuiId := msg.pendingWebuiId.or old.pendingWebuiId

end ChatMsg

-- What `trim` takes away.
def isSpace (c : Char) : Bool :=
  let n := c.toNat
  decide (9 ≤ n ∧ n ≤ 13 ∨ n = 32 ∨ n = 160 ∨ n = 5760 ∨ 8192 ≤ n ∧ n ≤ 8202 ∨ n = 8232 ∨ n = 8233 ∨
    n = 8239 ∨ n = 8287 ∨ n = 12288 ∨ n = 65279)

def validTurnSegments (value : Option (List String)) (content : String) : Option (List String) :=
  value.filter fun parts => !parts.isEmpty && (parts.all fun part => !part.toList.all isSpace) &&
    decide (String.join parts = content)

def replySegmentsContent (parts : List ReplySegment) : String :=
  "\n\n".intercalate ((parts.map ReplySegment.content).filter fun s => decide (s ≠ ""))

-- The pieces of a text between the given offsets, as `slice` cuts them.
def cut (content : String) : List Nat → List String
  | start :: stop :: rest => String.ofList ((content.toList.take stop).drop start) :: cut content (stop :: rest)
  | _ => []

-- `turnStarts` is where the scan of a transcript finds its turns.
def replySegmentsTurns (turnStarts : String → List Nat) (parts : List ReplySegment) : Option (List String) :=
  if !parts.any fun part => (validTurnSegments part.turnSegments part.content).isSome then none
  else
    let result := (parts.filter fun part => decide (part.content ≠ "")).foldl (fun result part =>
      let turns := match validTurnSegments part.turnSegments part.content with
        | some trusted => trusted
        | none => cut part.content ((0 :: turnStarts part.content ++ [part.content.length]).eraseDups)
      let turns := match result, turns with
        | [], turns => turns
        | _, [] => ["\n\nundefined"]
        | _, first :: rest => ("\n\n" ++ first) :: rest
      result ++ turns) []
    if result.isEmpty then none else some result

end GaHub.Chat
