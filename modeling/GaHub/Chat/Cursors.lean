import GaHub.Lib.Dict
import GaHub.Lib.Machine
import Mathlib.Order.Basic

namespace GaHub.Chat.Cursors

open Lib

structure ChatEventCursor where
  eventId : Int
  epoch : String
  deriving DecidableEq

inductive FrameType where
  | snapshot
  | next (streamId : String)
  | resyncRequired
  | replayDone
  | rewound
  -- started, done, aborted, reset, error and the like
  | other
  deriving DecidableEq

-- An event of the socket. A missing epoch is the empty one.
structure ChatWSOut where
  type : FrameType
  eventId : Option Int
  epoch : String
  deriving DecidableEq

inductive HistoryStatus where
  | idle
  | loadingHistory
  | ready
  | historyError
  deriving DecidableEq

-- What a call of `start` keeps for its connection. `loading` while its history is asked for, and
-- `socketOpen` while its socket has not been closed.
structure Connection where
  sessionId : String
  generation : Nat
  loading : Bool
  historyReady : Bool
  bufferedEvents : List ChatWSOut := []
  pendingNext : Dict String ChatWSOut := .empty
  nextTimer : Bool := false
  lastFlush : Int := 0
  socketOpen : Bool := true
  deriving DecidableEq

inductive Microtask where
  | resync (generation : Nat) (sessionId : String)
  | rewound (generation : Nat) (sessionId : String)
  deriving DecidableEq

-- The store and the singletons beside it. Only the connection of the last `start` can be active, and
-- `opened` lists the cursors that connections were made with.
structure ChatState where
  sessionId : Option String := none
  sock : Bool := false
  historyStatus : HistoryStatus := .idle
  historyGeneration : Nat := 0
  sessionCursors : Dict String ChatEventCursor := .empty
  live : Option Connection := none
  microtasks : List Microtask := []
  opened : List (String × Option ChatEventCursor) := []
  deriving DecidableEq

def FLUSH_MS : Int := 100

abbrev CursorMap := Dict String ChatEventCursor

def commitCursor (cursors : CursorMap) (sessionId : String) (event : ChatWSOut) : CursorMap :=
  match event.eventId with
  | none => cursors
  | some eventId =>
    if event.epoch = "" then cursors
    else if (cursors.get? sessionId).all fun current => current.epoch != event.epoch || decide (current.eventId < eventId)
    then cursors.set sessionId { eventId, epoch := event.epoch }
    else cursors

def commitAll (cursors : CursorMap) (sessionId : String) (events : List ChatWSOut) : CursorMap :=
  events.foldl (fun cursors e => commitCursor cursors sessionId e) cursors

namespace ChatState

variable (s : ChatState)

-- `flushNext` of an active connection, at the time `now`.
def flushNext (c : Connection) (now : Int) : ChatState :=
  if c.pendingNext.values.isEmpty then { s with live := some { c with nextTimer := false } }
  else
    { s with
      sessionCursors := commitAll s.sessionCursors c.sessionId c.pendingNext.values
      live := some { c with nextTimer := false, pendingNext := .empty, lastFlush := now } }

-- `runtime.liveCleanup?.()`, after which the connection does nothing any more.
def liveCleanup : ChatState :=
  match s.live with
  | none => s
  | some c =>
    { s with
      sessionCursors := commitAll s.sessionCursors c.sessionId c.pendingNext.values
      live := none }

def commit (sessionId : String) (m : ChatWSOut) : ChatState :=
  { s with sessionCursors := commitCursor s.sessionCursors sessionId m }

-- It begins with `if (!active || get().sessionId !== sessionId) return`.
def handleReadyMessage (now : Int) (m : ChatWSOut) : ChatState :=
  match s.live with
  | none => s
  | some c =>
    if s.sessionId ≠ some c.sessionId then s
    else
      match m.type with
      | .snapshot => { s with live := some { c with pendingNext := .empty, nextTimer := false } }.commit c.sessionId m
      | .next streamId =>
        let c := { c with pendingNext := c.pendingNext.set streamId m }
        if FLUSH_MS ≤ now - c.lastFlush then s.flushNext c now
        else { s with live := some { c with nextTimer := true } }
      | .resyncRequired =>
        { s with
          sessionCursors := s.sessionCursors.erase c.sessionId
          live := some { c with pendingNext := .empty, nextTimer := false, historyReady := false, socketOpen := false }
          sock := false
          historyStatus := .loadingHistory
          microtasks := s.microtasks ++ [.resync c.generation c.sessionId] }
      | .replayDone => (if 0 < c.pendingNext.size then s.flushNext c now else s).commit c.sessionId m
      | .rewound =>
        let s := (if 0 < c.pendingNext.size then s.flushNext c now else s).commit c.sessionId m
        { s with microtasks := s.microtasks ++ [.rewound c.generation c.sessionId] }
      | .other => (if 0 < c.pendingNext.size then s.flushNext c now else s).commit c.sessionId m

def onMessage (now : Int) (m : ChatWSOut) : ChatState :=
  match s.live with
  | none => s
  | some c =>
    if s.sessionId ≠ some c.sessionId then s
    else if !c.historyReady then { s with live := some { c with bufferedEvents := c.bufferedEvents ++ [m] } }
    else s.handleReadyMessage now m

-- `cached` tells whether the view kept of the session is ready.
def start (sessionId : String) (forceHistory cached : Bool) : ChatState :=
  if !forceHistory && s.sock && s.sessionId == some sessionId && s.historyStatus != .historyError then s
  else
    let s := s.liveCleanup
    let switching := s.sessionId != some sessionId
    let resumeCachedView := !forceHistory && switching && cached
    { s with
      sessionId := some sessionId
      sock := true
      historyStatus := if resumeCachedView then .ready else .loadingHistory
      historyGeneration := s.historyGeneration + 1
      live := some
        { sessionId, generation := s.historyGeneration + 1, loading := !resumeCachedView
          historyReady := resumeCachedView }
      opened := s.opened ++ [(sessionId, s.sessionCursors.get? sessionId)] }

-- The history of a connection arrives, or asking for it fails.
def historyLoaded (now : Int) (ok : Bool) : ChatState :=
  match s.live with
  | none => s
  | some c =>
    if !c.loading then s
    else if c.generation ≠ s.historyGeneration ∨ s.sessionId ≠ some c.sessionId then
      { s with live := some { c with loading := false } }
    else
      let s :=
        { s with
          live := some { c with loading := false, historyReady := true, bufferedEvents := [] }
          historyStatus := if ok then .ready else .historyError }
      c.bufferedEvents.foldl (fun s m => s.handleReadyMessage now m) s

def dropSessionView (sessionId : String) : ChatState :=
  let s := { s with sessionCursors := s.sessionCursors.erase sessionId }
  if s.sessionId ≠ some sessionId then s
  else
    let s := { s with historyGeneration := s.historyGeneration + 1 }.liveCleanup
    { s with sock := false, sessionId := none, historyStatus := .idle }

def teardown : ChatState :=
  let s := { s with historyGeneration := s.historyGeneration + 1 }.liveCleanup
  { s with sock := false, sessionId := none, historyStatus := .idle }

def retryHistory (cached : Bool) : ChatState :=
  match s.sessionId with
  | none => s
  | some sessionId => if s.historyStatus = .loadingHistory then s else s.start sessionId true cached

def runMicrotask (cached : Bool) : Microtask → ChatState
  | .resync generation sessionId =>
    if generation = s.historyGeneration ∧ s.sessionId = some sessionId then s.start sessionId false cached else s
  | .rewound generation sessionId =>
    if (s.live.any fun c => c.generation == generation) ∧ s.sessionId = some sessionId then s.retryHistory cached
    else s

end ChatState

inductive Act where
  | start (sessionId : String) (forceHistory cached : Bool)
  | retryHistory (cached : Bool)
  | dropSessionView (sessionId : String)
  | teardown
  -- a frame of the live connection's socket, its flush timer, and its next attempt to connect
  | message (now : Int) (m : ChatWSOut)
  | timer (now : Int)
  | reconnect
  | historyLoaded (now : Int) (ok : Bool)
  | microtask (cached : Bool)
  deriving DecidableEq

def next (s : ChatState) : Act → Option ChatState
  | .start sessionId forceHistory cached => some (s.start sessionId forceHistory cached)
  | .retryHistory cached => some (s.retryHistory cached)
  | .dropSessionView sessionId => some (s.dropSessionView sessionId)
  | .teardown => some s.teardown
  | .message now m => if s.live.any Connection.socketOpen then some (s.onMessage now m) else none
  | .timer now =>
    match s.live with
    | none => none
    | some c => if c.nextTimer then some (s.flushNext c now) else none
  | .reconnect =>
    match s.live with
    | none => none
    | some c =>
      if c.socketOpen then
        some { s with opened := s.opened ++ [(c.sessionId, s.sessionCursors.get? c.sessionId)] }
      else none
  | .historyLoaded now ok => some (s.historyLoaded now ok)
  | .microtask cached =>
    match s.microtasks with
    | [] => none
    | task :: rest => some ({ s with microtasks := rest }.runMicrotask cached task)

def chat : Machine ChatState Act where
  start := {}
  next := next

def ChatWSOut.numbered (m : ChatWSOut) : Bool := m.eventId.isSome && m.epoch != ""

-- No frame that waits to be applied carries a cursor of the session.
def ChatState.Clean (s : ChatState) (sessionId : String) : Bool :=
  s.sessionId != some sessionId || s.live.all fun c => c.pendingNext.values.all fun m => !m.numbered

section Commit

variable {cursors : CursorMap} {sessionId other : String}

theorem commitCursor_ne (m : ChatWSOut) (h : other ≠ sessionId) :
    (commitCursor cursors sessionId m).get? other = cursors.get? other := by
  unfold commitCursor
  split
  · rfl
  split
  · rfl
  split
  · exact Dict.get?_set_ne _ _ h
  · rfl

theorem commitCursor_plain {m : ChatWSOut} (h : m.numbered = false) : commitCursor cursors sessionId m = cursors := by
  unfold commitCursor
  split
  · rfl
  next eventId heq =>
    have hepoch : m.epoch = "" := by simpa [ChatWSOut.numbered, heq] using h
    rw [if_pos hepoch]

theorem commitCursor_isSome {m : ChatWSOut} (h : (cursors.get? sessionId).isSome ∨ m.numbered) :
    ((commitCursor cursors sessionId m).get? sessionId).isSome := by
  by_cases hnum : m.numbered
  · obtain ⟨eventId, heq⟩ := Option.isSome_iff_exists.mp (Bool.and_eq_true_iff.mp hnum).1
    have hepoch : m.epoch ≠ "" := by simpa [ChatWSOut.numbered, heq] using hnum
    unfold commitCursor
    rw [heq]
    simp only [if_neg hepoch]
    split
    · rw [Dict.get?_set_self]
      rfl
    next hold =>
      cases hget : cursors.get? sessionId with
      | none => simp [hget] at hold
      | some current => rfl
  · rw [commitCursor_plain (by simpa using hnum)]
    exact h.resolve_right hnum

theorem commitAll_ne (events : List ChatWSOut) (h : other ≠ sessionId) :
    (commitAll cursors sessionId events).get? other = cursors.get? other := by
  induction events generalizing cursors with
  | nil => rfl
  | cons m events ih =>
    rw [commitAll, List.foldl_cons]
    exact ih.trans (commitCursor_ne m h)

theorem commitAll_plain {events : List ChatWSOut} (h : ∀ m ∈ events, m.numbered = false) :
    commitAll cursors sessionId events = cursors := by
  induction events with
  | nil => rfl
  | cons m events ih =>
    rw [commitAll, List.foldl_cons, commitCursor_plain (h m (by simp))]
    exact ih fun m hm => h m (by simp [hm])

theorem commitAll_isSome {events : List ChatWSOut}
    (h : (cursors.get? sessionId).isSome ∨ ∃ m ∈ events, m.numbered) :
    ((commitAll cursors sessionId events).get? sessionId).isSome := by
  induction events generalizing cursors with
  | nil => exact h.resolve_right (by simp)
  | cons m events ih =>
    refine ih ?_
    obtain hsome | ⟨numbered, hmem, hnum⟩ := h
    · exact .inl (commitCursor_isSome (.inl hsome))
    · obtain rfl | hmem := List.mem_cons.mp hmem
      · exact .inl (commitCursor_isSome (.inr hnum))
      · exact .inr ⟨numbered, hmem, hnum⟩

end Commit

-- A session without a cursor, whose connection is not the live one.
structure ChatState.Quiet (s : ChatState) (sessionId : String) : Prop where
  cursor : s.sessionCursors.get? sessionId = none
  apart : ∀ c ∈ s.live, c.sessionId ≠ sessionId

-- From one state to the next the session stays quiet and no connection is made for it.
structure ChatState.Stays (s t : ChatState) (sessionId : String) : Prop where
  quiet : t.Quiet sessionId
  opened : t.opened = s.opened

section Quiet

variable {s t u : ChatState} {sessionId : String} {c : Connection}

theorem ChatState.Stays.refl (h : s.Quiet sessionId) : s.Stays s sessionId := ⟨h, rfl⟩

theorem ChatState.Stays.trans (h : s.Stays t sessionId) (h' : t.Stays u sessionId) : s.Stays u sessionId :=
  ⟨h'.quiet, h'.opened.trans h.opened⟩

theorem flushNext_stays (h : s.Quiet sessionId) (hc : c.sessionId ≠ sessionId) (now : Int) :
    s.Stays (s.flushNext c now) sessionId := by
  unfold ChatState.flushNext
  split
  · exact ⟨⟨h.cursor, by simpa using hc⟩, rfl⟩
  · exact ⟨⟨(commitAll_ne _ hc.symm).trans h.cursor, by simpa using hc⟩, rfl⟩

theorem liveCleanup_stays (h : s.Quiet sessionId) : s.Stays s.liveCleanup sessionId := by
  unfold ChatState.liveCleanup
  split
  · exact .refl h
  next c hlive => exact ⟨⟨(commitAll_ne _ (h.apart c hlive).symm).trans h.cursor, by simp⟩, rfl⟩

theorem commit_stays (h : s.Quiet sessionId) (hc : c.sessionId ≠ sessionId) (m : ChatWSOut) :
    s.Stays (s.commit c.sessionId m) sessionId :=
  ⟨⟨(commitCursor_ne m hc.symm).trans h.cursor, h.apart⟩, rfl⟩

theorem settle_stays (h : s.Quiet sessionId) (hc : c.sessionId ≠ sessionId) (now : Int) (m : ChatWSOut) :
    s.Stays ((if 0 < c.pendingNext.size then s.flushNext c now else s).commit c.sessionId m) sessionId := by
  have hfirst : s.Stays (if 0 < c.pendingNext.size then s.flushNext c now else s) sessionId := by
    split
    · exact flushNext_stays h hc now
    · exact .refl h
  exact hfirst.trans (commit_stays hfirst.quiet hc m)

theorem handleReadyMessage_stays (h : s.Quiet sessionId) (now : Int) (m : ChatWSOut) :
    s.Stays (s.handleReadyMessage now m) sessionId := by
  unfold ChatState.handleReadyMessage
  split
  · exact .refl h
  next c hlive =>
    have hc := h.apart c hlive
    split
    · exact .refl h
    cases m.type with
    | snapshot =>
      have hfirst : s.Stays { s with live := some { c with pendingNext := .empty, nextTimer := false } } sessionId :=
        ⟨⟨h.cursor, by simpa using hc⟩, rfl⟩
      exact hfirst.trans (commit_stays hfirst.quiet hc m)
    | next streamId =>
      simp only
      split
      · exact flushNext_stays h (by exact hc) now
      · exact ⟨⟨h.cursor, by simpa using hc⟩, rfl⟩
    | resyncRequired =>
      exact ⟨⟨(Dict.get?_erase_ne _ hc.symm).trans h.cursor, by simpa using hc⟩, rfl⟩
    | replayDone => exact settle_stays h hc now m
    | rewound =>
      have hsettled := settle_stays h hc now m
      exact ⟨⟨hsettled.quiet.cursor, hsettled.quiet.apart⟩, hsettled.opened⟩
    | other => exact settle_stays h hc now m

theorem onMessage_stays (h : s.Quiet sessionId) (now : Int) (m : ChatWSOut) :
    s.Stays (s.onMessage now m) sessionId := by
  unfold ChatState.onMessage
  split
  · exact .refl h
  next c hlive =>
    split
    · exact .refl h
    split
    · exact ⟨⟨h.cursor, by simpa using h.apart c hlive⟩, rfl⟩
    · exact handleReadyMessage_stays h now m

theorem historyLoaded_stays (h : s.Quiet sessionId) (now : Int) (ok : Bool) :
    s.Stays (s.historyLoaded now ok) sessionId := by
  have hfold : ∀ (events : List ChatWSOut) {s : ChatState}, s.Quiet sessionId →
      s.Stays (events.foldl (fun s m => s.handleReadyMessage now m) s) sessionId := by
    intro events
    induction events with
    | nil => exact fun h => .refl h
    | cons m events ih =>
      intro s h
      have hone := handleReadyMessage_stays h now m
      exact hone.trans (ih hone.quiet)
  unfold ChatState.historyLoaded
  split
  · exact .refl h
  next c hlive =>
    have hc := h.apart c hlive
    split
    · exact .refl h
    split
    · exact ⟨⟨h.cursor, by simpa using hc⟩, rfl⟩
    · have hfirst : s.Stays { s with
          live := some { c with loading := false, historyReady := true, bufferedEvents := [] }
          historyStatus := if ok then .ready else .historyError } sessionId := ⟨⟨h.cursor, by simpa using hc⟩, rfl⟩
      exact hfirst.trans (hfold _ hfirst.quiet)

theorem close_stays (h : s.Quiet sessionId) (n : Nat) :
    s.Stays { ({ s with historyGeneration := n } : ChatState).liveCleanup with
      sock := false, sessionId := none, historyStatus := .idle } sessionId := by
  have hcleaned := liveCleanup_stays (s := { s with historyGeneration := n }) ⟨h.cursor, h.apart⟩
  exact ⟨⟨hcleaned.quiet.cursor, hcleaned.quiet.apart⟩, hcleaned.opened⟩

theorem dropSessionView_stays (h : s.Quiet sessionId) (dropped : String) :
    s.Stays (s.dropSessionView dropped) sessionId := by
  have hfirst : s.Stays { s with sessionCursors := s.sessionCursors.erase dropped } sessionId := by
    refine ⟨⟨?_, h.apart⟩, rfl⟩
    rw [Dict.get?_erase]
    split
    · rfl
    · exact h.cursor
  unfold ChatState.dropSessionView
  simp only
  split
  · exact hfirst
  · exact hfirst.trans (close_stays hfirst.quiet _)

-- A call of `start` leaves the session quiet, or makes a connection: for another session, or for
-- this one without a cursor.
inductive Starts (s t : ChatState) (sessionId : String) : Prop where
  | stays (h : s.Stays t sessionId)
  | others (other : String) (cursor : Option ChatEventCursor) (hne : other ≠ sessionId) (quiet : t.Quiet sessionId)
      (opened : t.opened = s.opened ++ [(other, cursor)])
  | opens (opened : t.opened = s.opened ++ [(sessionId, none)])

theorem start_starts (h : s.Quiet sessionId) (started : String) (forceHistory cached : Bool) :
    Starts s (s.start started forceHistory cached) sessionId := by
  have hcleaned := liveCleanup_stays h
  unfold ChatState.start
  split
  · exact .stays (.refl h)
  by_cases hsame : started = sessionId
  · subst hsame
    refine .opens ?_
    simp only [hcleaned.opened, hcleaned.quiet.cursor]
  · refine .others started (s.liveCleanup.sessionCursors.get? started) hsame ⟨hcleaned.quiet.cursor, by simpa using hsame⟩ ?_
    simp only [hcleaned.opened]

theorem retryHistory_starts (h : s.Quiet sessionId) (cached : Bool) : Starts s (s.retryHistory cached) sessionId := by
  unfold ChatState.retryHistory
  split
  · exact .stays (.refl h)
  split
  · exact .stays (.refl h)
  · exact start_starts h _ _ _

theorem runMicrotask_starts (h : s.Quiet sessionId) (cached : Bool) (task : Microtask) :
    Starts s (s.runMicrotask cached task) sessionId := by
  cases task with
  | resync generation current =>
    simp only [ChatState.runMicrotask]
    split
    · exact start_starts h _ _ _
    · exact .stays (.refl h)
  | rewound generation current =>
    simp only [ChatState.runMicrotask]
    split
    · exact retryHistory_starts h cached
    · exact .stays (.refl h)

theorem step_starts (h : s.Quiet sessionId) {a : Act} (hnext : chat.next s a = some t) : Starts s t sessionId := by
  simp only [chat] at hnext
  cases a with
  | start started forceHistory cached =>
    cases hnext
    exact start_starts h started forceHistory cached
  | retryHistory cached =>
    cases hnext
    exact retryHistory_starts h cached
  | dropSessionView dropped =>
    cases hnext
    exact .stays (dropSessionView_stays h dropped)
  | teardown =>
    cases hnext
    exact .stays (close_stays h _)
  | message now m =>
    simp only [next, Option.ite_none_right_eq_some, Option.some.injEq] at hnext
    exact .stays (hnext.2 ▸ onMessage_stays h now m)
  | timer now =>
    simp only [next] at hnext
    split at hnext
    · cases hnext
    next c hlive =>
      simp only [Option.ite_none_right_eq_some, Option.some.injEq] at hnext
      exact .stays (hnext.2 ▸ flushNext_stays h (h.apart c hlive) now)
  | reconnect =>
    simp only [next] at hnext
    split at hnext
    · cases hnext
    next c hlive =>
      simp only [Option.ite_none_right_eq_some, Option.some.injEq] at hnext
      obtain ⟨-, rfl⟩ := hnext
      exact .others c.sessionId _ (h.apart c hlive) ⟨h.cursor, h.apart⟩ rfl
  | historyLoaded now ok =>
    cases hnext
    exact .stays (historyLoaded_stays h now ok)
  | microtask cached =>
    simp only [next] at hnext
    split at hnext
    · cases hnext
    next task rest htasks =>
      cases hnext
      have hrun := runMicrotask_starts (s := { s with microtasks := rest }) ⟨h.cursor, h.apart⟩ cached task
      cases hrun with
      | stays hstays => exact .stays ⟨hstays.quiet, hstays.opened⟩
      | others other cursor hne quiet opened => exact .others other cursor hne quiet opened
      | opens opened => exact .opens opened

end Quiet

section Opened

variable {s t : ChatState}

theorem flushNext_opened (c : Connection) (now : Int) : (s.flushNext c now).opened = s.opened := by
  unfold ChatState.flushNext
  split <;> rfl

theorem liveCleanup_opened : s.liveCleanup.opened = s.opened := by
  unfold ChatState.liveCleanup
  split <;> rfl

theorem settle_opened (c : Connection) (now : Int) (m : ChatWSOut) :
    ((if 0 < c.pendingNext.size then s.flushNext c now else s).commit c.sessionId m).opened = s.opened := by
  split
  · exact flushNext_opened c now
  · rfl

theorem handleReadyMessage_opened (now : Int) (m : ChatWSOut) : (s.handleReadyMessage now m).opened = s.opened := by
  unfold ChatState.handleReadyMessage
  split
  · rfl
  next c hlive =>
    split
    · rfl
    cases m.type with
    | snapshot => rfl
    | next streamId =>
      simp only
      split
      · exact flushNext_opened _ now
      · rfl
    | resyncRequired => rfl
    | replayDone => exact settle_opened c now m
    | rewound => exact settle_opened c now m
    | other => exact settle_opened c now m

theorem historyLoaded_opened (now : Int) (ok : Bool) : (s.historyLoaded now ok).opened = s.opened := by
  have hfold : ∀ (events : List ChatWSOut) (s : ChatState),
      (events.foldl (fun s m => s.handleReadyMessage now m) s).opened = s.opened := by
    intro events
    induction events with
    | nil => exact fun s => rfl
    | cons m events ih => exact fun s => (ih _).trans (handleReadyMessage_opened now m)
  unfold ChatState.historyLoaded
  split
  · rfl
  split
  · rfl
  split
  · rfl
  · exact hfold _ _

theorem start_opened (started : String) (forceHistory cached : Bool) :
    s.opened <+: (s.start started forceHistory cached).opened := by
  unfold ChatState.start
  split
  · exact List.prefix_refl _
  · simp only [liveCleanup_opened]
    exact List.prefix_append _ _

theorem retryHistory_opened (cached : Bool) : s.opened <+: (s.retryHistory cached).opened := by
  unfold ChatState.retryHistory
  split
  · exact List.prefix_refl _
  split
  · exact List.prefix_refl _
  · exact start_opened _ _ _

theorem step_opened {a : Act} (hnext : chat.next s a = some t) : s.opened <+: t.opened := by
  simp only [chat] at hnext
  cases a with
  | start started forceHistory cached =>
    cases hnext
    exact start_opened started forceHistory cached
  | retryHistory cached =>
    cases hnext
    exact retryHistory_opened cached
  | dropSessionView dropped =>
    cases hnext
    unfold ChatState.dropSessionView
    simp only
    split
    · exact List.prefix_refl _
    · simp only [liveCleanup_opened]
      exact List.prefix_refl _
  | teardown =>
    cases hnext
    simp only [ChatState.teardown, liveCleanup_opened]
    exact List.prefix_refl _
  | message now m =>
    simp only [next, Option.ite_none_right_eq_some, Option.some.injEq] at hnext
    obtain ⟨-, rfl⟩ := hnext
    unfold ChatState.onMessage
    split
    · exact List.prefix_refl _
    split
    · exact List.prefix_refl _
    split
    · exact List.prefix_refl _
    · exact ⟨[], by rw [List.append_nil, handleReadyMessage_opened]⟩
  | timer now =>
    simp only [next] at hnext
    split at hnext
    · cases hnext
    · simp only [Option.ite_none_right_eq_some, Option.some.injEq] at hnext
      exact ⟨[], by rw [List.append_nil, ← hnext.2, flushNext_opened]⟩
  | reconnect =>
    simp only [next] at hnext
    split at hnext
    · cases hnext
    · simp only [Option.ite_none_right_eq_some, Option.some.injEq] at hnext
      rw [← hnext.2]
      exact List.prefix_append _ _
  | historyLoaded now ok =>
    cases hnext
    exact ⟨[], by rw [List.append_nil, historyLoaded_opened]⟩
  | microtask cached =>
    simp only [next] at hnext
    split at hnext
    · cases hnext
    next task rest htasks =>
      cases hnext
      cases task with
      | resync generation current =>
        simp only [ChatState.runMicrotask]
        split
        · exact start_opened (s := { s with microtasks := rest }) _ _ _
        · exact List.prefix_refl _
      | rewound generation current =>
        simp only [ChatState.runMicrotask]
        split
        · exact retryHistory_opened (s := { s with microtasks := rest }) _
        · exact List.prefix_refl _

theorem run_opened {acts : List Act} (hrun : chat.run s acts = some t) : s.opened <+: t.opened := by
  induction acts generalizing s with
  | nil =>
    cases hrun
    exact List.prefix_refl _
  | cons a acts ih =>
    obtain ⟨u, hu, hrest⟩ := Option.bind_eq_some_iff.mp hrun
    exact (step_opened hu).trans (ih hrest)

end Opened

section Drop

variable {s t : ChatState} {sessionId : String}

theorem quiet_run {acts : List Act} (h : s.Quiet sessionId) (hrun : chat.run s acts = some t) :
    ∃ more, t.opened = s.opened ++ more ∧
      ((∀ e ∈ more, e.1 ≠ sessionId) → t.sessionCursors.get? sessionId = none) ∧
      ∀ before cursor after, more = before ++ (sessionId, cursor) :: after → (∀ e ∈ before, e.1 ≠ sessionId) →
        cursor = none := by
  induction acts generalizing s with
  | nil =>
    cases hrun
    exact ⟨[], by simp, fun _ => h.cursor, by simp⟩
  | cons a acts ih =>
    obtain ⟨u, hu, hrest⟩ := Option.bind_eq_some_iff.mp hrun
    cases step_starts h hu with
    | stays hstays =>
      obtain ⟨more, hopened, hcursor, hfirst⟩ := ih hstays.quiet hrest
      exact ⟨more, by rw [hopened, hstays.opened], hcursor, hfirst⟩
    | others other cursor hne hquiet hmade =>
      obtain ⟨more, hopened, hcursor, hfirst⟩ := ih hquiet hrest
      refine ⟨(other, cursor) :: more, by rw [hopened, hmade, List.append_assoc]; rfl, ?_, ?_⟩
      · exact fun hall => hcursor fun e he => hall e (List.mem_cons_of_mem _ he)
      · intro before found after hmore hbefore
        cases before with
        | nil =>
          obtain ⟨heq, -⟩ := List.cons.inj hmore
          exact absurd (Prod.mk.inj heq).1 hne
        | cons e before =>
          exact hfirst before found after (List.cons.inj hmore).2 fun e he => hbefore e (List.mem_cons_of_mem _ he)
    | opens hmade =>
      obtain ⟨more, hmore⟩ := run_opened hrest
      refine ⟨(sessionId, none) :: more, by rw [← hmore, hmade, List.append_assoc]; rfl, ?_, ?_⟩
      · exact fun hall => absurd rfl (hall (sessionId, none) (by simp))
      · intro before found after hsplit hbefore
        cases before with
        | nil =>
          obtain ⟨heq, -⟩ := List.cons.inj hsplit
          exact (Prod.mk.inj heq).2.symm
        | cons e before =>
          obtain ⟨rfl, -⟩ := List.cons.inj hsplit
          exact absurd rfl (hbefore (sessionId, none) (by simp))

def Bound (s : ChatState) : Prop := ∀ c ∈ s.live, s.sessionId = some c.sessionId

theorem bound_none (hlive : s.live = none) : Bound s := by
  intro c hc
  rw [hlive] at hc
  cases hc

theorem flushNext_bound {c : Connection} (hc : s.sessionId = some c.sessionId) (now : Int) :
    Bound (s.flushNext c now) := by
  unfold ChatState.flushNext
  split
  · intro d hd
    cases hd
    exact hc
  · intro d hd
    cases hd
    exact hc

theorem settle_bound {c : Connection} (h : Bound s) (hc : s.sessionId = some c.sessionId) (now : Int) (m : ChatWSOut) :
    Bound ((if 0 < c.pendingNext.size then s.flushNext c now else s).commit c.sessionId m) := by
  split
  · exact flushNext_bound hc now
  · exact h

theorem handleReadyMessage_bound (h : Bound s) (now : Int) (m : ChatWSOut) : Bound (s.handleReadyMessage now m) := by
  unfold ChatState.handleReadyMessage
  split
  · exact h
  next c hlive =>
    have hc := h c hlive
    split
    · exact h
    cases m.type with
    | snapshot =>
      intro d hd
      cases hd
      exact hc
    | next streamId =>
      simp only
      split
      · exact flushNext_bound (by exact hc) now
      · intro d hd
        cases hd
        exact hc
    | resyncRequired =>
      intro d hd
      cases hd
      exact hc
    | replayDone => exact settle_bound h hc now m
    | rewound => exact settle_bound h hc now m
    | other => exact settle_bound h hc now m

theorem historyLoaded_bound (h : Bound s) (now : Int) (ok : Bool) : Bound (s.historyLoaded now ok) := by
  have hfold : ∀ (events : List ChatWSOut) {s : ChatState}, Bound s →
      Bound (events.foldl (fun s m => s.handleReadyMessage now m) s) := by
    intro events
    induction events with
    | nil => exact fun h => h
    | cons m events ih => exact fun h => ih (handleReadyMessage_bound h now m)
  unfold ChatState.historyLoaded
  split
  · exact h
  next c hlive =>
    have hc := h c hlive
    split
    · exact h
    split
    · intro d hd
      cases hd
      exact hc
    · refine hfold _ fun d hd => ?_
      cases hd
      exact hc

theorem start_bound (h : Bound s) (started : String) (forceHistory cached : Bool) :
    Bound (s.start started forceHistory cached) := by
  unfold ChatState.start
  split
  · exact h
  · intro c hc
    cases hc
    rfl

theorem retryHistory_bound (h : Bound s) (cached : Bool) : Bound (s.retryHistory cached) := by
  unfold ChatState.retryHistory
  split
  · exact h
  split
  · exact h
  · exact start_bound h _ _ _

theorem liveCleanup_live : s.liveCleanup.live = none := by
  unfold ChatState.liveCleanup
  split
  next hlive => exact hlive
  next => rfl

theorem step_bound (h : Bound s) {a : Act} (hnext : chat.next s a = some t) : Bound t := by
  simp only [chat] at hnext
  cases a with
  | start started forceHistory cached =>
    cases hnext
    exact start_bound h started forceHistory cached
  | retryHistory cached =>
    cases hnext
    exact retryHistory_bound h cached
  | dropSessionView dropped =>
    cases hnext
    unfold ChatState.dropSessionView
    simp only
    split
    · exact h
    · exact bound_none liveCleanup_live
  | teardown =>
    cases hnext
    exact bound_none liveCleanup_live
  | message now m =>
    simp only [next, Option.ite_none_right_eq_some, Option.some.injEq] at hnext
    obtain ⟨-, rfl⟩ := hnext
    unfold ChatState.onMessage
    split
    · exact h
    next c hlive =>
      split
      · exact h
      split
      · intro d hd
        cases hd
        exact h c hlive
      · exact handleReadyMessage_bound h now m
  | timer now =>
    simp only [next] at hnext
    split at hnext
    · cases hnext
    next c hlive =>
      simp only [Option.ite_none_right_eq_some, Option.some.injEq] at hnext
      exact hnext.2 ▸ flushNext_bound (h c hlive) now
  | reconnect =>
    simp only [next] at hnext
    split at hnext
    · cases hnext
    · simp only [Option.ite_none_right_eq_some, Option.some.injEq] at hnext
      obtain ⟨-, rfl⟩ := hnext
      exact h
  | historyLoaded now ok =>
    cases hnext
    exact historyLoaded_bound h now ok
  | microtask cached =>
    simp only [next] at hnext
    split at hnext
    · cases hnext
    next task rest htasks =>
      cases hnext
      cases task with
      | resync generation current =>
        simp only [ChatState.runMicrotask]
        split
        · exact start_bound (s := { s with microtasks := rest }) h _ _ _
        · exact h
      | rewound generation current =>
        simp only [ChatState.runMicrotask]
        split
        · exact retryHistory_bound (s := { s with microtasks := rest }) h _
        · exact h

theorem reachable_bound (h : chat.Reachable s) : Bound s :=
  h.invariant (bound_none rfl) fun _ _ _ hs hnext => step_bound hs hnext

theorem drop_cursor_iff (h : Bound s) :
    (s.dropSessionView sessionId).sessionCursors.get? sessionId = none ↔ s.Clean sessionId := by
  unfold ChatState.dropSessionView ChatState.Clean
  simp only
  split
  next hne => simp [hne]
  next hcurrent =>
    have hsession : s.sessionId = some sessionId := not_not.mp hcurrent
    unfold ChatState.liveCleanup
    cases hlive : s.live with
    | none => simp
    | some c =>
      have hbound := h c hlive
      rw [hsession] at hbound
      obtain rfl : sessionId = c.sessionId := Option.some.inj hbound
      simp only [hsession, Option.all_some, bne_self_eq_false, Bool.false_or]
      constructor
      · intro hnone
        by_contra hdirty
        obtain ⟨m, hm, hnum⟩ : ∃ m ∈ c.pendingNext.values, m.numbered := by simpa using hdirty
        have hsome : ((commitAll (s.sessionCursors.erase c.sessionId) c.sessionId
            c.pendingNext.values).get? c.sessionId).isSome := commitAll_isSome (.inr ⟨m, hm, hnum⟩)
        rw [hnone] at hsome
        cases hsome
      · intro hclean
        have hplain : ∀ m ∈ c.pendingNext.values, m.numbered = false := by simpa using hclean
        rw [commitAll_plain hplain]
        exact Dict.get?_erase_self _ _

theorem drop_quiet (h : Bound s) (hclean : s.Clean sessionId) : (s.dropSessionView sessionId).Quiet sessionId := by
  refine ⟨(drop_cursor_iff h).mpr hclean, ?_⟩
  unfold ChatState.dropSessionView
  simp only
  split
  next hne =>
    intro c hc heq
    exact hne ((h c hc).trans (congrArg some heq))
  next =>
    intro c hc
    rw [show _ = none from liveCleanup_live] at hc
    cases hc

end Drop

-- A dropped session has no cursor just where no numbered frame of it waited to be applied; then none
-- appears before the next connection of the session, and that one is made without a cursor.
theorem dropped_cursor (s : ChatState) (h : chat.Reachable s) (sessionId : String) :
    ((s.dropSessionView sessionId).sessionCursors.get? sessionId = none ↔ s.Clean sessionId) ∧
    (s.Clean sessionId → ∀ acts t, chat.run (s.dropSessionView sessionId) acts = some t →
      ∃ more, t.opened = (s.dropSessionView sessionId).opened ++ more ∧
        ((∀ e ∈ more, e.1 ≠ sessionId) → t.sessionCursors.get? sessionId = none) ∧
        ∀ before cursor after, more = before ++ (sessionId, cursor) :: after → (∀ e ∈ before, e.1 ≠ sessionId) →
          cursor = none) := by
  have hbound := reachable_bound h
  exact ⟨drop_cursor_iff hbound, fun hclean acts t hrun => quiet_run (drop_quiet hbound hclean) hrun⟩

theorem dropped_cursor_started : ((chat.start.start "a" false false).dropSessionView "a").sessionCursors.get? "a" = none :=
  (dropped_cursor _ (chat.reachable_start.next (a := .start "a" false false) rfl) "a").1.mpr (by decide)

-- One frame is applied at once, the next waits for the timer; dropping the session applies it.
def throttled : List Act :=
  [.start "a" false false, .historyLoaded 0 true,
    .message 1000 { type := .next "x", eventId := some 1, epoch := "e" },
    .message 1010 { type := .next "x", eventId := some 2, epoch := "e" }]

theorem dropped_cursor_kept : ¬∀ s, chat.Reachable s → ∀ sessionId,
    (s.dropSessionView sessionId).sessionCursors.get? sessionId = none := by
  intro h
  have hrun : ((chat.run chat.start throttled).map fun s =>
      ((s.dropSessionView "a").sessionCursors.get? "a")) = some (some { eventId := 2, epoch := "e" }) := by
    decide
  obtain ⟨s, hs, hcursor⟩ := Option.map_eq_some_iff.mp hrun
  rw [h s ⟨throttled, hs⟩ "a"] at hcursor
  cases hcursor

end GaHub.Chat.Cursors
