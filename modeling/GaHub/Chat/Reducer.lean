import GaHub.Chat.Merge

namespace GaHub.Chat

inductive Phase where
  | started
  | next
  | done
  deriving DecidableEq

-- A frame of one stream: `started`, `next` or `done`.
structure ReplyEvent where
  phase : Phase
  streamId : StreamId
  content : Option String := none
  turnSegs : Option (List String) := none
  runId : Option RunId := none
  logicalId : Option String := none
  retryOf : Option StreamId := none
  source : Option String := none
  query : Option String := none
  ts : Option Time := none
  retryAttempt : Nat := 0
  retryMax : Nat := 0
  retryReason : Option String := none
  deriving DecidableEq

structure StreamSnapshot where
  streamId : StreamId
  source : String
  query : String := ""
  content : String := ""
  turnSegs : Option (List String) := none
  done : Bool
  startedAt : Option Time := none
  finishedAt : Option Time := none
  logicalId : Option String := none
  runId : Option RunId := none
  outcome : Option Outcome := none
  retryAttempt : Nat := 0
  retryMax : Nat := 0
  retryOf : Option StreamId := none
  retryReason : Option String := none
  deriving DecidableEq

structure SessionRuntime where
  status : String
  runId : Option RunId := none
  completedRunId : Option RunId := none
  outcome : Option Outcome := none
  deriving DecidableEq

structure ActiveMessage where
  streamId : StreamId
  content : String
  turnSegs : Option (List String) := none
  done : Bool
  query : Option String := none
  ts : Option Time := none
  source : Option String := none
  runId : Option RunId := none
  logicalId : Option String := none
  retryOf : Option StreamId := none
  retryAttempt : Option Nat := none
  retryMax : Option Nat := none
  retryReason : Option String := none
  deriving DecidableEq

structure Snapshot where
  streams : Option (List StreamSnapshot) := none
  status : String := ""
  runId : Option RunId := none
  completedRunId : Option RunId := none
  outcome : Option Outcome := none
  runtime : Option SessionRuntime := none
  activeMessage : Option ActiveMessage := none
  deriving DecidableEq

inductive RetryKind where
  | retry
  | exhausted
  | scheduled (delaySeconds : Nat)
  deriving DecidableEq

structure RetryEvent where
  kind : RetryKind
  streamId : StreamId
  source : Option String := none
  logicalId : Option String := none
  runId : Option RunId := none
  attempt : Nat
  maxAttempts : Nat
  reasonLabel : Option String := none
  retryReason : Option String := none
  deriving DecidableEq

inductive ChatEvent where
  | snapshot (s : Snapshot)
  | sessionRuntime (r : SessionRuntime)
  | reset
  | reply (e : ReplyEvent)
  | retry (e : RetryEvent)
  | aborted
  | error (streamId : StreamId) (code detail : String)
  | rewound (removed : List StreamId)
  -- `heartbeat`, `pong` and the control frames of the connection
  | other
  deriving DecidableEq

def isHiddenSource (source : Option String) : Bool := decide (source = some "wechat")

def isRetrySource (source : Option String) : Bool :=
  decide (source = some "chat_error_retry" ∨ source = some "auto_continue")

-- Server times are seconds or, when they are large, milliseconds.
def epochMilliseconds (value : Option Time) : Option Time :=
  (value.filter fun value => decide (value ≠ 0)).map fun value => if value < 1000000000000 then value * 1000 else value

-- `replace(/^_|_$/g, '')`
def stripMarks (s : String) : String :=
  let front := match s.toList with
    | '_' :: rest => rest
    | chars => chars
  String.ofList (match front.reverse with
    | '_' :: rest => rest.reverse
    | _ => front)

section Segments

def updateReplySegments (previous : List ReplySegment) (streamId : StreamId) (phase : Phase) (content : Option String)
    (turnSegments : Option (List String)) : List ReplySegment :=
  let index := previous.findIdx? fun part => decide (part.streamId = streamId)
  let old := index.bind fun index => previous[index]?
  -- late `started` and `next` events must not reopen or replace a completed stream
  if old.any fun old => old.archived && decide (phase = .started) then previous
  else if old.any fun old => old.done && !old.archived && decide (phase ≠ .done) then previous
  -- delayed cumulative frames cannot roll back content or trusted boundaries
  else if old.any fun old => !old.archived && content.any fun content =>
      decide (old.content ≠ content) && startsWith old.content content then previous
  else
    let text := (content.or (old.map ReplySegment.content)).getD ""
    let part : ReplySegment :=
      { streamId
        content := if phase = .started then (old.map ReplySegment.content).getD "" else text
        done := decide (phase = .done) || old.any fun old => old.done && !old.archived
        turnSegments := (validTurnSegments turnSegments text).or
          (if content = none ∨ content = old.map ReplySegment.content then old.bind ReplySegment.turnSegments else none) }
    match index with
    | none => previous ++ [part]
    | some index => previous.set index part

end Segments

section Replies

variable (turnStarts : String → List Nat)

def ReplyEvent.key (e : ReplyEvent) : String := ((truthy e.logicalId).or (truthy e.retryOf)).getD e.streamId

-- `belongsToRun`: ids of streams and replies only mean something inside their run.
def belongsToRun (m : ChatMsg) (runId : Option RunId) : Bool := decide (m.runId.join = runId)

def ReplyEvent.fits (e : ReplyEvent) (m : ChatMsg) : Bool :=
  decide (m.role = .assistant) && belongsToRun m e.runId &&
    ((truthy e.runId).isSome || decide (m.logicalId.join = some e.key) || decide (m.streamId.join = some e.key) ||
      decide (m.streamId.join = some e.streamId) ||
      m.parts.any fun part => decide (part.streamId = e.streamId) || decide (e.retryOf = some part.streamId))

def initialParts (old : Option ChatMsg) : List ReplySegment :=
  match old with
  | none => []
  | some old =>
      match old.segments.join with
      | some segments => segments
      | none =>
          match old.stream with
          | none => []
          | some sid =>
              [{ streamId := sid, content := old.content
                 done := decide (old.streaming.join ≠ some true) && decide (old.stopped.join ≠ some true) }]

def ReplyEvent.parts (e : ReplyEvent) (old : Option ChatMsg) : List ReplySegment :=
  let initial := initialParts old
  if (old.bind ChatMsg.run).isSome then
    mergeParts initial (updateReplySegments [] e.streamId e.phase e.content e.turnSegs)
  else updateReplySegments initial e.streamId e.phase e.content e.turnSegs

def ReplyEvent.message (e : ReplyEvent) (old : Option ChatMsg) (now : Time) : ChatMsg :=
  let base := old.getD { role := .assistant, content := "" }
  let segments := e.parts old
  let streaming := decide (base.stopped.join ≠ some true) && !(segments.getLast?.any ReplySegment.done)
  { base with
    role := .assistant
    logicalId := some (some (base.logical.getD e.key))
    runId := some ((truthy e.runId).or base.runId.join)
    streamId := some (some (base.stream.getD e.streamId))
    source := some ((truthy base.source.join).or e.source)
    segments := some (some segments)
    content := replySegmentsContent segments
    turnSegments := some (replySegmentsTurns turnStarts segments)
    streaming := some (some streaming)
    timestamp := some (some (base.timestamp.join.getD now))
    startedAt := some (some (base.startedAt.join.getD now))
    finishedAt := some (if streaming then none else some (base.finishedAt.join.getD now))
    recoveryNotice := if streaming then base.recoveryNotice else some none
    recoveryOffset := if streaming then base.recoveryOffset else some none
    recoveryStreamId := if streaming then base.recoveryStreamId else some none }

def updateLogicalReply (prev : List ChatMsg) (e : ReplyEvent) (now : Time) : List ChatMsg :=
  match prev.findIdx? e.fits with
  | none => prev ++ [e.message turnStarts none now]
  | some index =>
      match prev[index]? with
      | none => prev
      | some old =>
          -- queued frames cannot resurrect a terminal run
          if old.outcome.join.isSome then prev
          else if e.phase = .started ∧ (initialParts (some old)).any fun part => decide (part.streamId = e.streamId) then
            prev
          else prev.set index (e.message turnStarts (some old) now)

-- The recovery status inside an answer, or an answer with nothing but the status.
def upsertRetryNotice (prev : List ChatMsg) (retryKey content : String) (timestamp : Option Time)
    (retryStreamId : Option StreamId) (runId : Option RunId) : List ChatMsg :=
  let recoveryNotice := stripMarks content
  let fits := fun m : ChatMsg => decide (m.role = .assistant) && belongsToRun m runId &&
    (decide (m.logicalId.join = some retryKey) || decide (m.streamId.join = some retryKey) ||
      m.parts.any fun part => decide (part.streamId = retryKey))
  match prev.findIdx? fits with
  | none =>
      prev ++ [{ role := .assistant, content := "", streamId := some (some retryKey), logicalId := some (some retryKey)
                 runId := some runId, recoveryNotice := some (some recoveryNotice), recoveryOffset := some (some 0)
                 recoveryStreamId := some retryStreamId, segments := some (some []), timestamp := some timestamp }]
  | some index =>
      prev.modify index fun old =>
        let partIndex := (truthy retryStreamId).bind fun sid => old.parts.findIdx? fun part => decide (part.streamId = sid)
        let offset := match partIndex with
          | some i => (replySegmentsContent (old.parts.take i)).length
          | none => old.content.length
        { old with
          recoveryNotice := some (some recoveryNotice)
          recoveryOffset := some (some (
            if (truthy retryStreamId).isSome ∧ old.recoveryStreamId.join = retryStreamId then
              old.recoveryOffset.join.getD offset
            else offset))
          recoveryStreamId := some retryStreamId }

def attemptLabel (attempt limit : Nat) : String :=
  (if attempt = 0 then "?" else toString attempt) ++ (if limit = 0 then "" else "/" ++ toString limit)

def StreamSnapshot.reply (s : StreamSnapshot) : ReplyEvent where
  phase := if s.done then .done else .next
  streamId := s.streamId
  content := some s.content
  turnSegs := s.turnSegs
  runId := s.runId
  logicalId := s.logicalId
  retryOf := s.retryOf
  source := some s.source

def StreamSnapshot.retryKey (s : StreamSnapshot) : String := s.reply.key

def StreamSnapshot.noticeLabel (s : StreamSnapshot) : String :=
  "_自动重试请求" ++ (if s.done then "已完成" else "进行中") ++ "（" ++ attemptLabel s.retryAttempt s.retryMax ++
    (match truthy s.retryReason with
      | none => ""
      | some reason => " · " ++ reason) ++ "）。_"

def StreamSnapshot.question (s : StreamSnapshot) : ChatMsg where
  role := .user
  content := s.query
  logicalId := some s.logicalId
  runId := some s.runId
  streamId := some (some s.streamId)
  source := some (some s.source)
  timestamp := some (epochMilliseconds s.startedAt)

def StreamSnapshot.answer (s : StreamSnapshot) : ChatMsg where
  role := .assistant
  content := s.content
  logicalId := some s.logicalId
  runId := some s.runId
  outcome := some s.outcome
  turnSegments := some (validTurnSegments s.turnSegs s.content)
  segments := some (some [{ streamId := s.streamId, content := s.content, done := s.done
                            turnSegments := validTurnSegments s.turnSegs s.content }])
  streamId := some (some s.streamId)
  source := some (some s.source)
  streaming := some (some !s.done)
  startedAt := some (epochMilliseconds s.startedAt)
  timestamp := some (epochMilliseconds (if s.done then s.finishedAt else s.startedAt))

-- The list under construction, with the strongest attempt of each reply that is being retried.
def applyStream (now : Time) (state : List ChatMsg × List (String × Nat)) (s : StreamSnapshot) :
    List ChatMsg × List (String × Nat) :=
  let (out, notices) := state
  if isHiddenSource (some s.source) then state
  else if isRetrySource (some s.source) then
    let key := (truthy s.runId).getD "legacy" ++ ":" ++ s.retryKey
    let (out, notices) :=
      if !s.done && (notices.lookup key).all fun attempt => decide (attempt < s.retryAttempt) then
        (upsertRetryNotice out s.retryKey s.noticeLabel (epochMilliseconds s.startedAt) (some s.streamId) s.runId,
          (key, s.retryAttempt) :: notices)
      else (out, notices)
    if s.content ≠ "" ∨ !s.done then
      (updateLogicalReply turnStarts out s.reply
        ((epochMilliseconds (if s.done then s.finishedAt else s.startedAt)).getD now), notices)
    else (out, notices)
  else
    (out ++ (if s.query = "" then [] else [s.question]) ++ (if s.content ≠ "" ∨ !s.done then [s.answer] else []), notices)

def applySnapshot (streams : List StreamSnapshot) (now : Time) : List ChatMsg :=
  (streams.foldl (applyStream turnStarts now) ([], [])).1

end Replies

section Events

variable (turnStarts : String → List Nat)

def applyRuntime (prev : List ChatMsg) (r : SessionRuntime) (now : Time) : List ChatMsg :=
  if r.status = "running" ∧ (truthy r.runId).isSome then
    prev.map fun m =>
      if m.role = .assistant ∧ m.runId.join = r.runId ∧ m.outcome.join = none ∧ m.stopped.join ≠ some true then
        { m with streaming := some (some true), finishedAt := some none }
      else m
  else if r.status ≠ "idle" ∨ (truthy r.completedRunId).isNone ∨ r.outcome = none then prev
  else
    prev.map fun m =>
      if m.role = .assistant ∧ m.runId.join = r.completedRunId then
        { m with
          streaming := some (some false), recoveryNotice := some none, recoveryOffset := some none
          recoveryStreamId := some none, outcome := some r.outcome
          stopped := some (some (decide (r.outcome = some .cancelled)))
          finishedAt := some (some (m.finishedAt.join.getD now)) }
      else m

-- The state of the reducer: the list, and the streams an `aborted` event has stopped.
structure ChatState where
  msgs : List ChatMsg := []
  abortedStreams : List StreamId := []

def settleSnapshot (prev : List ChatMsg) (s : Snapshot) (now : Time) : List ChatMsg :=
  applyRuntime prev
    { status := match s.runtime with
        | some r => r.status
        | none => s.status
      runId := match s.runtime with
        | some r => r.runId
        | none => s.runId
      completedRunId := (s.runtime.bind SessionRuntime.completedRunId).or s.completedRunId
      outcome := (s.runtime.bind SessionRuntime.outcome).or s.outcome } now

def ActiveMessage.stream (active : ActiveMessage) (s : Snapshot) (query : String) (ts : Time) : StreamSnapshot :=
  let existing := (s.streams.getD []).find? fun other => decide (other.streamId = active.streamId)
  { streamId := active.streamId
    source := (active.source.or (existing.map StreamSnapshot.source)).getD "webui"
    query
    content := active.content
    turnSegs := active.turnSegs.or (existing.bind fun e => if active.content = e.content then e.turnSegs else none)
    done := active.done
    startedAt := some ts
    finishedAt := existing.bind StreamSnapshot.finishedAt
    logicalId := (truthy active.logicalId).or (existing.bind StreamSnapshot.logicalId)
    runId := (truthy active.runId).or (truthy s.runId)
    outcome := existing.bind StreamSnapshot.outcome
    retryAttempt := active.retryAttempt.getD ((existing.map StreamSnapshot.retryAttempt).getD 0)
    retryMax := active.retryMax.getD ((existing.map StreamSnapshot.retryMax).getD 0)
    retryOf := (truthy active.retryOf).or (existing.bind StreamSnapshot.retryOf)
    retryReason := (truthy active.retryReason).or (existing.bind StreamSnapshot.retryReason) }

-- The streams a snapshot is folded from, where its running message has a question.
def Snapshot.liveStreams (s : Snapshot) : Option (List StreamSnapshot) :=
  match s.activeMessage with
  | none => s.streams
  | some active =>
      match truthy active.query, active.ts with
      | some query, some ts =>
          some ((s.streams.getD []).filter (fun other => decide (other.streamId ≠ active.streamId)) ++
            [active.stream s query ts])
      | _, _ => s.streams

-- The running message as a frame, where it has none.
def Snapshot.activeReply (s : Snapshot) : Option ReplyEvent :=
  s.activeMessage.bind fun active =>
    if (truthy active.query).isSome ∧ active.ts.isSome then none
    else some
      { phase := if active.done then .done else .next, streamId := active.streamId, content := some active.content
        turnSegs := active.turnSegs, runId := active.runId, logicalId := active.logicalId, source := active.source
        retryOf := active.retryOf }

def ensureRetryStartNotice (prev : List ChatMsg) (e : ReplyEvent) : List ChatMsg :=
  if !isRetrySource e.source then prev
  -- late cumulative events cannot revive recovery status on a completed stream
  else if prev.any fun m => belongsToRun m e.runId && m.parts.any fun part =>
      decide (part.streamId = e.streamId) && part.done then prev
  else
    let reason := if e.retryReason = some "truncated" then "截断续接" else "网络重试"
    upsertRetryNotice prev e.key ("_系统" ++ reason ++ "（" ++ attemptLabel e.retryAttempt e.retryMax ++ "）。_") none
      (some e.streamId) e.runId

def ReplyEvent.opening (e : ReplyEvent) (source : String) (now : Time) : ChatMsg where
  role := .assistant
  content := ""
  streamId := some (some e.streamId)
  runId := some e.runId
  logicalId := some e.logicalId
  source := some (some source)
  streaming := some (some true)
  timestamp := some (some now)
  startedAt := some (some ((epochMilliseconds e.ts).getD now))
  finishedAt := some none

def reduceStarted (prev : List ChatMsg) (e : ReplyEvent) (now : Time) : List ChatMsg :=
  let source := e.source.getD "user"
  if isHiddenSource (some source) then prev
  else if isRetrySource (some source) then
    let reason := if e.retryReason = some "truncated" then "截断续接" else "网络重试"
    let note := "_系统" ++ reason ++ "（" ++ attemptLabel e.retryAttempt e.retryMax ++ "）。_"
    updateLogicalReply turnStarts (upsertRetryNotice prev e.key note (some now) (some e.streamId) e.runId) e
      ((epochMilliseconds e.ts).getD now)
  else if prev.any fun m => decide (m.role = .assistant) && belongsToRun m e.runId &&
      (decide (m.streamId.join = some e.streamId) || (truthy e.runId).isSome ||
        ((truthy e.logicalId).isSome && decide (m.logicalId.join = e.logicalId))) then
    updateLogicalReply turnStarts prev e ((epochMilliseconds e.ts).getD now)
  else
    -- the newest local question that waits for its stream
    let pending := (prev.reverse.findIdx? fun m => decide (m.role = .user ∧ m.pendingWebui.join = some true)).filter
      fun _ => decide (source = "webui")
    match pending with
    | some back =>
        prev.modify (prev.length - 1 - back) (fun m =>
          { m with
            streamId := some (some e.streamId), runId := some e.runId, logicalId := some e.logicalId
            pendingWebui := some (some false) }) ++ [e.opening source now]
    | none =>
        let next := if prev.any fun m => decide (m.role = .user) && belongsToRun m e.runId &&
            decide (m.streamId.join = some e.streamId) then prev
          else prev ++ [{ role := .user, content := e.query.getD "", streamId := some (some e.streamId)
                          runId := some e.runId, logicalId := some e.logicalId, source := some (some source)
                          timestamp := some (some now) }]
        if next.any fun m => decide (m.role = .assistant) && belongsToRun m e.runId &&
            decide (m.streamId.join = some e.streamId) then next
        else next ++ [e.opening source now]

def reduceSideAnswer (prev : List ChatMsg) (e : ReplyEvent) (now : Time) : List ChatMsg :=
  match prev.findIdx? fun m =>
      decide (m.role = .assistant ∨ m.role = .system) && decide (m.streamId.join = some e.streamId) with
  | none =>
      prev ++ [{ role := .system, content := e.content.getD "", streamId := some (some e.streamId), source := some e.source
                 streaming := some (some false), timestamp := some (some now), startedAt := some (some now)
                 finishedAt := some (some now) }]
  | some index =>
      prev.modify index fun m =>
        { m with content := e.content.getD "", streaming := some (some false), timestamp := some (some now)
                 finishedAt := some (some now) }

-- `started`, `next` and `done` as `applyEvent` takes them, with the streams that stay stopped.
def applyReply (state : ChatState) (e : ReplyEvent) (now : Time) : ChatState :=
  match e.phase with
  | .started =>
      { state with
        msgs := (reduceStarted turnStarts state.msgs e now).map fun m =>
          if m.streamId.join = some e.streamId ∧ (m.run = none ∨ belongsToRun m e.runId) then
            { m with
              runId := some ((truthy e.runId).or m.runId.join), logicalId := some ((truthy e.logicalId).or m.logicalId.join) }
          else m }
  | phase =>
      if isHiddenSource e.source then state
      else if (truthy e.runId).isSome ∨ (truthy e.logicalId).isSome then
        { state with msgs := updateLogicalReply turnStarts state.msgs e now }
      else if phase = .next then
        { state with msgs := updateLogicalReply turnStarts (ensureRetryStartNotice state.msgs e) e now }
      else
        let next := ensureRetryStartNotice state.msgs e
        { msgs := if e.source = some "system" then reduceSideAnswer next e now else updateLogicalReply turnStarts next e now
          abortedStreams := state.abortedStreams.filter fun sid => decide (sid ≠ e.streamId) }

-- `mergeSessionSnapshot`
def mergeSessionSnapshot (state : ChatState) (s : Snapshot) (now : Time) : ChatState :=
  -- completed archive text is authoritative; live text must still accept its final frame
  let base := state.msgs.flatMap fun m => if m.fromHistory then settleSnapshot [m] s now else [m]
  let merged := match s.liveStreams with
    | some streams => mergeLive turnStarts base (applySnapshot turnStarts streams now)
    | none => base
  let next := match s.activeReply with
    | some e => applyReply turnStarts { state with msgs := merged } e now
    | none => { state with msgs := merged }
  { next with msgs := orderConversationTurns (settleSnapshot next.msgs s now) }

def RetryEvent.note (e : RetryEvent) : String :=
  let reason := ((truthy e.reasonLabel).or (truthy e.retryReason)).getD "可恢复错误"
  match e.kind with
  | .retry => "_检测到 " ++ reason ++ "，正在自动重试（" ++ toString e.attempt ++ "/" ++ toString e.maxAttempts ++ "）。_"
  | .exhausted =>
      "_检测到 " ++ reason ++ "，但自动重试已达到上限（" ++ toString e.maxAttempts ++ "/" ++ toString e.maxAttempts ++ "）。_"
  | .scheduled delay =>
      "_检测到 " ++ reason ++ "，约 " ++ toString (max 1 delay) ++ "s 后自动重试（" ++ toString e.attempt ++ "/" ++
        toString e.maxAttempts ++ "）。_"

def ChatMsg.halt (m : ChatMsg) (now : Time) : ChatMsg :=
  if m.streaming.join = some true then { m with streaming := some (some false), finishedAt := some (some now) } else m

def reduceError (state : ChatState) (streamId : StreamId) (code detail : String) (now : Time) : List ChatMsg :=
  -- what follows a stop on its stream is no new failure
  if streamId ≠ "" ∧ streamId ∈ state.abortedStreams then state.msgs.map fun m => m.halt now
  else
    let noticeId := streamId ++ ":error:" ++ code
    let stopped := state.msgs.map fun m => if m.streamId.join = some streamId then m.halt now else m
    if stopped.any fun m => decide (m.streamId.join = some noticeId) then stopped
    else
      stopped ++ [{ role := .assistant
                    content := "_运行错误（" ++ code ++ "）：" ++
                      (if detail = "" then "会话运行失败，请稍后重试。" else detail) ++ "_"
                    streamId := some (some noticeId), source := some (some "runtime_error_notice")
                    timestamp := some (some now) }]

def baseId (s : String) : String := String.ofList (s.toList.takeWhile fun c => decide (c ≠ ':'))

def applyEvent (state : ChatState) (event : ChatEvent) (now : Time) : ChatState :=
  match event with
  | .snapshot s => mergeSessionSnapshot turnStarts state s now
  | .sessionRuntime r => { state with msgs := applyRuntime state.msgs r now }
  | .reset => { state with msgs := [] }
  | .reply e => applyReply turnStarts state e now
  | .retry e =>
      if isHiddenSource e.source then state
      else
        { state with
          msgs := upsertRetryNotice state.msgs ((truthy e.logicalId).getD e.streamId) e.note (some now) none e.runId }
  | .aborted =>
      { msgs := state.msgs.map fun m =>
          if m.streaming.join = some true then
            { m with streaming := some (some false), finishedAt := some (some now), stopped := some (some true) }
          else m
        abortedStreams := (state.msgs.filter fun m => decide (m.streaming.join = some true)).filterMap ChatMsg.stream ++
          state.abortedStreams }
  | .error streamId code detail => { state with msgs := reduceError state streamId code detail now }
  | .rewound removed =>
      { state with
        msgs := state.msgs.filter fun m => m.stream.all fun sid => decide (sid ∉ removed ∧ baseId sid ∉ removed) }
  | .other => state

end Events

end GaHub.Chat
