import GaHub.Lib.Mirror
import GaHub.Streams.Chain
import GaHub.Streams.Projection

namespace GaHub.Streams.Fanout

open Lib

def STREAM_MIRROR_QUEUE_CAPACITY : Nat := 2

-- An item of the agent's display queue, with what the projection of native turns reads of it.
structure Item where
  next : Option String := none
  done : Option String := none
  native : Projection.Item := ⟨none, none⟩
  deriving DecidableEq

-- GA puts progress and the end of a stream out as items of their own.
def Item.plain (i : Item) : Bool := i.next.isNone || i.done.isNone

-- What callers read of an item: it is mirrored as it came, and the terminal item with a text only.
structure Mirrored where
  next : Option String
  done : Option String
  deriving DecidableEq

def Mirrored.terminal (content : String) : Mirrored := ⟨none, some content⟩

structure Snapshot where
  content : String := ""
  turnSegs : Option (List Projection.Text) := none
  done : Bool := false
  aborted : Bool := false
  deriving DecidableEq

structure StreamHandle where
  lastChunk : String := ""
  finalText : String := ""
  finished : Bool := false
  outcome : Option Outcome := none
  fanoutDone : Bool := false
  deriving DecidableEq

inductive Path where
  | completed
  | shutdown
  | crashed
  deriving DecidableEq

-- What is mirrored, for the sake of which the thread is in `_mirror_stream_item`.
inductive Goal where
  | progress (item : Item) (content : String)
  | terminal (path : Path) (content : String)
  deriving DecidableEq

def Goal.mirrored : Goal → Mirrored
  | .progress item _ => ⟨item.next, item.done⟩
  | .terminal _ content => .terminal content

inductive Pc where
  -- `src_q.get`
  | getting
  -- `put_nowait`, and `get_nowait` after it found the queue full
  | mirroring (goal : Goal)
  | making (goal : Goal)
  -- `native_turns.update` for progress, and the publication
  | projecting (item : Item) (content : String)
  | publishing (item : Item) (content : String)
  -- the final update, and `_sync_rewind_store`
  | storing (item : Item) (content : String)
  | syncing (content : String)
  -- after the terminal item was mirrored: `chat:done`, `agent:done`, the outcome, the continuation
  | announcing (path : Path) (content : String)
  | closing (content : String)
  | concluding (content : String)
  | continuing (content : String)
  -- `finally`
  | ending
  | signalling
  | ended
  deriving DecidableEq

inductive Published where
  | next (content : String) (turnSegs : Option (List Projection.Text))
  | done (content : String) (turnSegs : Option (List Projection.Text))
  | heartbeat
  | agentDone (len : Nat)
  deriving DecidableEq

def Published.isDone : Published → Bool
  | .done _ _ => true
  | _ => false

-- The thread of one stream, with what it shares with its consumer, with `abort` and with the service.
structure State where
  handle : StreamHandle := {}
  snap : Snapshot := {}
  nativeTurns : Projection.NativeTurnProjection := {}
  mirror : Mirror Mirrored := {}
  published : List Published := []
  -- `_fanout_stop_event`
  stopEvent : Bool := false
  -- the stream is in `_streams`
  registered : Bool := true
  pc : Pc := .getting
  deriving DecidableEq

inductive Input where
  | step
  | item (i : Item)
  -- nothing on the queue for a second, and whether a heartbeat is due
  | empty (due : Bool)
  -- the step fails: the message of the exception, and for a publication whether the event went out before
  | raises (detail : String) (out : Bool)

inductive Action where
  | thread (input : Input)
  -- the consumer's `get_nowait`
  | take
  -- `cancel_pending_error_retry` marks the snapshot
  | abort
  | shutdown

section Steps

variable (classify : String → Option RecoverableErrorMatch) (s : State)

namespace State

def publish (event : Published) : State := { s with published := s.published ++ [event] }

-- A publication that fails, before the event goes out or after.
def publishFails (event : Published) (out : Bool) : State := if out then s.publish event else s

-- `_chat_done_payload`
def doneEvent (content : String) : Published :=
  .done content (s.snap.turnSegs.filter fun segs => decide (segs ≠ []))

def nextEvent (content : String) : Published :=
  .next content (s.snap.turnSegs.filter fun segs => decide (segs ≠ []))

def fail (path : Path) (content : String) : State :=
  { s with
    snap := { s.snap with content, turnSegs := none, done := true, aborted := true }
    handle := { s.handle with finished := true, outcome := some .failed, finalText := content }
    pc := .mirroring (.terminal path content) }

def shutDown : State :=
  let content := if s.handle.lastChunk = "" then s.snap.content else s.handle.lastChunk
  s.fail .shutdown (if content = "" then "[stream aborted: service shutdown]"
    else content ++ "\n[stream aborted: service shutdown]")

def crash (detail : String) : State := s.fail .crashed (s.snap.content ++ "\n[stream error: " ++ detail ++ "]")

-- What comes after progress, and first for an item without: the end of the stream, or the next item.
def finish (item : Item) : State :=
  match item.done with
  | some content =>
    { s with
      handle := { s.handle with finalText := content }, snap := { s.snap with content }, pc := .storing item content }
  | none => { s with pc := .getting }

def read (item : Item) : State :=
  if s.stopEvent ∧ item.done = none then s
  else
    match item.next with
    | some content => { s with pc := .mirroring (.progress item content) }
    | none => s.finish item

-- `_mirror_stream_item` returns.
def mirrored : Goal → State
  | .progress item content =>
    { s with
      handle := { s.handle with lastChunk := content }, snap := { s.snap with content }, pc := .projecting item content }
  | .terminal path content => { s with pc := .announcing path content }

def project (item : Item) (content : String) (final : Bool) : State :=
  let updated := Projection.update s.nativeTurns item.native content.toList final
  { s with nativeTurns := updated.1, snap := { s.snap with turnSegs := updated.2, done := s.snap.done || final } }

def outcome (content : String) : Outcome :=
  if s.snap.aborted then .cancelled
  else if (classify content).isSome || truncated content.toList then .failed
  else .completed

end State

def threadStep (input : Input) : Option State :=
  match s.pc, input with
  | .getting, .empty due => some (if s.stopEvent then s.shutDown else if due then s.publish .heartbeat else s)
  | .getting, .item item => some (s.read item)
  | .getting, .raises detail _ => some (s.crash detail)
  | .mirroring goal, .step =>
    match s.mirror.offer STREAM_MIRROR_QUEUE_CAPACITY goal.mirrored with
    | some mirror => some ({ s with mirror }.mirrored goal)
    | none => some { s with pc := .making goal }
  | .making goal, .step => some { s with mirror := s.mirror.evict, pc := .mirroring goal }
  | .projecting item content, .step => some { s.project item content false with pc := .publishing item content }
  | .projecting _ _, .raises detail _ => some (s.crash detail)
  | .publishing item content, .step => some ((s.publish (s.nextEvent content)).finish item)
  | .publishing _ content, .raises detail out =>
    some ((s.publishFails (s.nextEvent content) out).crash detail)
  | .storing item content, .step => some { s.project item content true with pc := .syncing content }
  | .storing _ _, .raises detail _ => some (s.crash detail)
  | .syncing content, .step =>
    some { s with handle := { s.handle with finished := true }, pc := .mirroring (.terminal .completed content) }
  | .syncing _, .raises detail _ => some (s.crash detail)
  | .announcing path content, .step =>
    some { s.publish (s.doneEvent content) with pc := if path = .completed then .closing content else .ending }
  | .announcing _ content, .raises _ out =>
    some { s.publishFails (s.doneEvent content) out with pc := .ending }
  | .closing content, .step => some { s.publish (.agentDone content.length) with pc := .concluding content }
  | .closing content, .raises _ out =>
    some { s.publishFails (.agentDone content.length) out with pc := .ending }
  | .concluding content, .step =>
    some { s with handle := { s.handle with outcome := some (s.outcome classify content) }, pc := .continuing content }
  | .concluding _, .raises _ _ => some { s with pc := .ending }
  -- a retry or a continuation that fails is logged
  | .continuing _, .step | .continuing _, .raises _ _ => some { s with pc := .ending }
  | .ending, .step => some { s with registered := false, pc := .signalling }
  | .signalling, .step => some { s with handle := { s.handle with fanoutDone := true }, pc := .ended }
  | _, _ => none

def next : Action → Option State
  | .thread input => threadStep classify s input
  | .take => if s.mirror.queue = [] then none else some { s with mirror := s.mirror.take }
  | .abort => some { s with snap := { s.snap with aborted := true } }
  | .shutdown => some { s with stopEvent := true }

def machine : Machine State Action where
  start := {}
  next := next classify

-- The runs in which the agent puts progress and the end of the stream out apart.
def orderly : Action → Bool
  | .thread (.item item) => item.plain
  | _ => true

end Steps

section Terminal

variable {classify : String → Option RecoverableErrorMatch} {s t : State} {content : String} {input : Input}
  {item : Item} {handle : StreamHandle} {snap : Snapshot} {mirror mirror' : Mirror Mirrored} {published : List Published}

-- No terminal item was mirrored and no `chat:done` published.
structure Open (mirror : Mirror Mirrored) (published : List Published) : Prop where
  mirrored : ∀ m ∈ mirror.put, m.done = none
  published : ∀ e ∈ published, e.isDone = false

structure Stored (handle : StreamHandle) (snap : Snapshot) (content : String) : Prop where
  final : handle.finalText = content
  snapshot : snap.content = content

structure Settled (handle : StreamHandle) (snap : Snapshot) (content : String) : Prop extends
    Stored handle snap content where
  finished : handle.finished = true
  done : snap.done = true

-- One terminal item was mirrored, and last; it is what the consumer sees last.
structure Committed (mirror : Mirror Mirrored) (content : String) : Prop where
  terminals : mirror.put.filter (·.done.isSome) = [.terminal content]
  last : mirror.put.getLast? = some (.terminal content)
  seen : mirror.seen.getLast? = some (.terminal content)

-- At most one `chat:done`, with this text, and nothing behind it but the event for it.
def Announced (content : String) (published : List Published) : Prop :=
  ∃ before rest, published = before ++ rest ∧ (∀ e ∈ before, e.isDone = false) ∧
    (rest = [] ∨ ∃ segs, rest = [.done content segs] ∨ rest = [.done content segs, .agentDone content.length])

structure Terminated (s : State) (content : String) : Prop where
  settled : Settled s.handle s.snap content
  committed : Committed s.mirror content
  announced : Announced content s.published

def Place (s : State) : Prop :=
  match s.pc with
  | .getting => Open s.mirror s.published
  | .mirroring (.progress item _) | .making (.progress item _) | .projecting item _ | .publishing item _ =>
      Open s.mirror s.published ∧ item.done = none
  | .storing _ content => Open s.mirror s.published ∧ Stored s.handle s.snap content
  | .syncing content => Open s.mirror s.published ∧ Stored s.handle s.snap content ∧ s.snap.done = true
  | .mirroring (.terminal _ content) | .making (.terminal _ content) =>
      Open s.mirror s.published ∧ Settled s.handle s.snap content
  | .announcing _ content =>
      Settled s.handle s.snap content ∧ Committed s.mirror content ∧ ∀ e ∈ s.published, e.isDone = false
  | .closing content => Settled s.handle s.snap content ∧ Committed s.mirror content ∧
      ∃ before segs, s.published = before ++ [Published.done content segs] ∧ ∀ e ∈ before, e.isDone = false
  | .concluding content | .continuing content => Terminated s content
  | .ending | .signalling | .ended => ∃ content, Terminated s content

theorem Open.publish (h : Open mirror published) {event : Published} (hevent : event.isDone = false) :
    Open mirror (published ++ [event]) where
  mirrored := h.mirrored
  published e he := by
    rcases List.mem_append.mp he with he | he
    · exact h.published e he
    · rwa [List.mem_singleton.mp he]

theorem Open.fail (h : Open s.mirror s.published) (path : Path) (content : String) : Place (s.fail path content) :=
  ⟨h, ⟨rfl, rfl⟩, rfl, rfl⟩

theorem Open.crash (h : Open s.mirror s.published) (detail : String) : Place (s.crash detail) := h.fail _ _

theorem Open.finish (h : Open s.mirror s.published) (item : Item) : Place (s.finish item) := by
  unfold State.finish
  split
  · exact ⟨h, rfl, rfl⟩
  · exact h

theorem Open.read (h : Open s.mirror s.published) (hpc : s.pc = .getting) (hplain : item.plain = true) :
    Place (s.read item) := by
  unfold State.read
  split
  · simpa only [Place, hpc] using h
  · split
    · rename_i hnext
      refine ⟨h, ?_⟩
      simpa [Item.plain, hnext] using hplain
    · exact h.finish item

theorem Open.offer (h : Open mirror published) {m : Mirrored} (hm : m.done = none)
    (hoffer : mirror.offer STREAM_MIRROR_QUEUE_CAPACITY m = some mirror') : Open mirror' published := by
  obtain ⟨-, rfl⟩ := Mirror.offer_some hoffer
  refine ⟨fun n hn => ?_, h.published⟩
  rcases List.mem_append.mp hn with hn | hn
  · exact h.mirrored n hn
  · rwa [List.mem_singleton.mp hn]

theorem Open.commit (h : Open mirror published)
    (hoffer : mirror.offer STREAM_MIRROR_QUEUE_CAPACITY (.terminal content) = some mirror') :
    Committed mirror' content := by
  obtain ⟨hlast, hseen⟩ := Mirror.offer_last hoffer
  obtain ⟨-, rfl⟩ := Mirror.offer_some hoffer
  refine ⟨?_, hlast, hseen⟩
  have hbefore : mirror.put.filter (·.done.isSome) = [] :=
    List.filter_eq_nil_iff.mpr fun m hm => by simp [h.mirrored m hm]
  rw [List.filter_append, hbefore]
  rfl

theorem Announced.none (h : ∀ e ∈ published, e.isDone = false) : Announced content published :=
  ⟨published, [], (List.append_nil _).symm, h, .inl rfl⟩

theorem Announced.one (h : ∀ e ∈ published, e.isDone = false) (segs : Option (List Projection.Text)) :
    Announced content (published ++ [Published.done content segs]) :=
  ⟨published, _, rfl, h, .inr ⟨segs, .inl rfl⟩⟩

theorem Announced.closed (h : ∀ e ∈ published, e.isDone = false) (segs : Option (List Projection.Text)) :
    Announced content (published ++ [Published.done content segs] ++ [Published.agentDone content.length]) :=
  ⟨published, _, List.append_assoc .., h, .inr ⟨segs, .inr rfl⟩⟩

theorem Place.thread (h : Place s) (hok : orderly (.thread input) = true)
    (hstep : threadStep classify s input = some t) : Place t := by
  unfold threadStep at hstep
  split at hstep
  all_goals rename_i hpc
  all_goals simp only [Place, hpc] at h
  -- `getting`
  · cases hstep
    split
    · exact h.fail _ _
    · split
      · have hbeat : Open s.mirror (s.published ++ [.heartbeat]) := h.publish rfl
        simpa only [Place, State.publish, hpc] using hbeat
      · simpa only [Place, hpc] using h
  · cases hstep
    exact h.read hpc hok
  · cases hstep
    exact h.crash _
  -- `mirroring`, `making`
  · rename_i goal
    split at hstep
    · rename_i mirror hoffer
      cases hstep
      cases goal with
      | progress item content => exact ⟨h.1.offer h.2 hoffer, h.2⟩
      | terminal path content => exact ⟨h.2, h.1.commit hoffer, h.1.published⟩
    · cases hstep
      cases goal <;> exact h
  · rename_i goal
    cases hstep
    cases goal <;> exact ⟨⟨h.1.mirrored, h.1.published⟩, h.2⟩
  -- `projecting`, `publishing`
  · cases hstep
    exact h
  · cases hstep
    exact h.1.crash _
  · cases hstep
    exact Open.finish (s := s.publish (s.nextEvent _)) (h.1.publish rfl) _
  · rename_i item content detail out
    cases hstep
    cases out with
    | false => exact h.1.crash _
    | true => exact Open.crash (s := s.publish (s.nextEvent _)) (h.1.publish rfl) _
  -- `storing`, `syncing`
  · cases hstep
    exact ⟨h.1, ⟨h.2.final, h.2.snapshot⟩, Bool.or_true _⟩
  · cases hstep
    exact h.1.crash _
  · cases hstep
    exact ⟨h.1, ⟨h.2.1.final, h.2.1.snapshot⟩, rfl, h.2.2⟩
  · cases hstep
    exact h.1.crash _
  -- `announcing`
  · rename_i path content
    cases hstep
    cases path with
    | completed => exact ⟨h.1, h.2.1, _, _, rfl, h.2.2⟩
    | shutdown | crashed => exact ⟨content, h.1, h.2.1, Announced.one h.2.2 _⟩
  · rename_i path content detail out
    cases hstep
    cases out with
    | false => exact ⟨content, h.1, h.2.1, Announced.none h.2.2⟩
    | true => exact ⟨content, h.1, h.2.1, Announced.one h.2.2 _⟩
  -- `closing`
  · rename_i content
    cases hstep
    obtain ⟨hsettled, hcommitted, before, segs, hpublished, hbefore⟩ := h
    exact ⟨hsettled, hcommitted, by simpa only [State.publish, hpublished] using Announced.closed hbefore segs⟩
  · rename_i content detail out
    cases hstep
    obtain ⟨hsettled, hcommitted, before, segs, hpublished, hbefore⟩ := h
    refine ⟨content, ?_⟩
    cases out with
    | false => exact ⟨hsettled, hcommitted, hpublished ▸ Announced.one hbefore segs⟩
    | true =>
        have hclosed : Announced content (s.published ++ [Published.agentDone content.length]) :=
          hpublished ▸ Announced.closed hbefore segs
        exact ⟨hsettled, hcommitted, hclosed⟩
  -- the outcome and what follows
  · cases hstep
    exact ⟨⟨⟨h.settled.final, h.settled.snapshot⟩, h.settled.finished, h.settled.done⟩, h.committed, h.announced⟩
  · cases hstep
    exact ⟨_, h.settled, h.committed, h.announced⟩
  · cases hstep
    exact ⟨_, h.settled, h.committed, h.announced⟩
  · cases hstep
    exact ⟨_, h.settled, h.committed, h.announced⟩
  · cases hstep
    obtain ⟨content, h⟩ := h
    exact ⟨content, h.settled, h.committed, h.announced⟩
  · cases hstep
    obtain ⟨content, h⟩ := h
    exact ⟨content, ⟨⟨h.settled.final, h.settled.snapshot⟩, h.settled.finished, h.settled.done⟩, h.committed,
      h.announced⟩
  · cases hstep

theorem Place.outside (h : Place s) (hpc : t.pc = s.pc) (hhandle : t.handle = s.handle)
    (hcontent : t.snap.content = s.snap.content) (hdone : t.snap.done = s.snap.done)
    (hput : t.mirror.put = s.mirror.put) (hseen : t.mirror.seen = s.mirror.seen)
    (hpublished : t.published = s.published) : Place t := by
  have hopen : Open s.mirror s.published → Open t.mirror t.published := fun h =>
    ⟨by rw [hput]; exact h.mirrored, by rw [hpublished]; exact h.published⟩
  have hstored : ∀ {content}, Stored s.handle s.snap content → Stored t.handle t.snap content := fun h =>
    ⟨by rw [hhandle]; exact h.final, by rw [hcontent]; exact h.snapshot⟩
  have hsettled : ∀ {content}, Settled s.handle s.snap content → Settled t.handle t.snap content := fun h =>
    ⟨hstored h.toStored, by rw [hhandle]; exact h.finished, by rw [hdone]; exact h.done⟩
  have hcommitted : ∀ {content}, Committed s.mirror content → Committed t.mirror content := fun h =>
    ⟨by rw [hput]; exact h.terminals, by rw [hput]; exact h.last, by rw [hseen]; exact h.seen⟩
  have hterminated : ∀ {content}, Terminated s content → Terminated t content := fun h =>
    ⟨hsettled h.settled, hcommitted h.committed, by rw [hpublished]; exact h.announced⟩
  unfold Place at h ⊢
  rw [hpc]
  cases hs : s.pc with
  | getting =>
      rw [hs] at h
      exact hopen h
  | mirroring goal | making goal =>
      rw [hs] at h
      cases goal with
      | progress item content => exact ⟨hopen h.1, h.2⟩
      | terminal path content => exact ⟨hopen h.1, hsettled h.2⟩
  | projecting item content | publishing item content =>
      rw [hs] at h
      exact ⟨hopen h.1, h.2⟩
  | storing item content =>
      rw [hs] at h
      exact ⟨hopen h.1, hstored h.2⟩
  | syncing content =>
      rw [hs] at h
      exact ⟨hopen h.1, hstored h.2.1, by rw [hdone]; exact h.2.2⟩
  | announcing path content | closing content =>
      rw [hs] at h
      exact ⟨hsettled h.1, hcommitted h.2.1, by rw [hpublished]; exact h.2.2⟩
  | concluding content | continuing content =>
      rw [hs] at h
      exact hterminated h
  | ending | signalling | ended =>
      rw [hs] at h
      obtain ⟨content, h⟩ := h
      exact ⟨content, hterminated h⟩

theorem Place.next {a : Action} (h : Place s) (hok : orderly a = true) (hnext : next classify s a = some t) :
    Place t := by
  cases a with
  | thread input => exact h.thread hok hnext
  | take =>
      simp only [Fanout.next] at hnext
      split at hnext
      · cases hnext
      · cases hnext
        exact h.outside rfl rfl rfl rfl rfl Mirror.take_seen rfl
  | abort =>
      cases hnext
      exact h.outside rfl rfl rfl rfl rfl rfl rfl
  | shutdown =>
      cases hnext
      exact h.outside rfl rfl rfl rfl rfl rfl rfl

@[simp] theorem finish_mirror : (s.finish item).mirror = s.mirror := by
  unfold State.finish
  split <;> rfl

@[simp] theorem read_mirror : (s.read item).mirror = s.mirror := by
  unfold State.read
  split
  · rfl
  · split
    · rfl
    · exact finish_mirror

@[simp] theorem mirrored_mirror {goal : Goal} : (s.mirrored goal).mirror = s.mirror := by cases goal <;> rfl

@[simp] theorem publish_mirror {event : Published} : (s.publish event).mirror = s.mirror := rfl

@[simp] theorem publishFails_mirror {event : Published} {out : Bool} :
    (s.publishFails event out).mirror = s.mirror := by
  cases out <;> rfl

@[simp] theorem fail_mirror {path : Path} : (s.fail path content).mirror = s.mirror := rfl

@[simp] theorem crash_mirror {detail : String} : (s.crash detail).mirror = s.mirror := rfl

@[simp] theorem shutDown_mirror : s.shutDown.mirror = s.mirror := rfl

theorem threadStep_mirror (hstep : threadStep classify s input = some t) :
    t.mirror = s.mirror ∨ t.mirror = s.mirror.evict ∨
      ∃ m, s.mirror.offer STREAM_MIRROR_QUEUE_CAPACITY m = some t.mirror := by
  unfold threadStep at hstep
  split at hstep
  case h_4 =>
      split at hstep
      · rename_i hoffer
        cases hstep
        exact .inr (.inr ⟨_, by rwa [mirrored_mirror]⟩)
      · cases hstep
        exact .inl rfl
  case h_5 =>
      cases hstep
      exact .inr (.inl rfl)
  all_goals cases hstep
  all_goals first
    | exact .inl rfl
    | exact .inl (by simp)
    | exact .inl (by split_ifs <;> simp)

theorem sound_next {a : Action} (h : s.mirror.Sound STREAM_MIRROR_QUEUE_CAPACITY) (hnext : next classify s a = some t) :
    t.mirror.Sound STREAM_MIRROR_QUEUE_CAPACITY := by
  cases a with
  | thread input =>
      rcases threadStep_mirror hnext with hsame | hevict | ⟨m, hoffer⟩
      · rwa [hsame]
      · rw [hevict]
        exact h.evict
      · exact h.offer hoffer
  | take =>
      simp only [Fanout.next] at hnext
      split at hnext
      · cases hnext
      · cases hnext
        exact h.take
  | abort | shutdown =>
      cases hnext
      exact h

theorem reachable_sound (hs : (machine classify).Reachable s) : s.mirror.Sound STREAM_MIRROR_QUEUE_CAPACITY :=
  hs.invariant Mirror.Sound.start fun _ _ _ h hnext => sound_next h hnext

theorem reachable_place (hs : ((machine classify).restrict fun _ a => orderly a = true).Reachable s) : Place s := by
  refine hs.invariant ?_ fun _ _ _ h hnext => ?_
  · exact ⟨by rintro _ ⟨⟩, by rintro _ ⟨⟩⟩
  · obtain ⟨hok, hnext⟩ := Machine.restrict_next hnext
    exact h.next hok hnext

-- Whatever fails on the way, a stream ends with one terminal item, which the consumer sees last, and a handle with its
-- text; one `chat:done` at most is published for it, and no `chat:next` after that.
theorem one_terminal (hs : ((machine classify).restrict fun _ a => orderly a = true).Reachable s)
    (hended : s.pc = .ended) : ∃ content, Terminated s content ∧ s.mirror.Sound STREAM_MIRROR_QUEUE_CAPACITY := by
  have h := reachable_place hs
  simp only [Place, hended] at h
  obtain ⟨content, h⟩ := h
  exact ⟨content, h, reachable_sound hs.of_restrict⟩

def syncFails : List Action :=
  [.thread (.item { done := some "a" }), .thread .step, .thread (.raises "disk full" false), .thread .step,
    .thread .step, .thread .step, .thread .step]

theorem one_terminal_failed : ∃ s, ((machine fun _ => none).restrict fun _ a => orderly a = true).Reachable s ∧
    s.pc = .ended ∧ ∃ content, Terminated s content ∧ s.mirror.Sound STREAM_MIRROR_QUEUE_CAPACITY := by
  have hrun : (((machine fun _ => none).restrict fun _ a => orderly a = true).run {} syncFails).map State.pc =
      some .ended := by decide
  obtain ⟨s, hs, hended⟩ := Option.map_eq_some_iff.mp hrun
  exact ⟨s, ⟨_, hs⟩, hended, one_terminal ⟨_, hs⟩ hended⟩

end Terminal

section Progress

variable {classify : String → Option RecoverableErrorMatch} {s t : State} {input : Input}

def Action.isThread : Action → Bool
  | .thread _ => true
  | _ => false

def Goal.rank : Goal → Nat
  | .progress _ _ => 13
  | .terminal _ _ => 6

-- The steps the thread has left until it reads the next item or is over.
def rank (s : State) : Nat :=
  match s.pc with
  | .getting | .ended => 0
  | .signalling => 1
  | .ending => 2
  | .continuing _ => 3
  | .concluding _ => 4
  | .closing _ => 5
  | .announcing _ _ => 6
  | .mirroring goal => goal.rank + if s.mirror.queue.length < STREAM_MIRROR_QUEUE_CAPACITY then 1 else 3
  | .making goal => goal.rank + 2
  | .syncing _ => 10
  | .storing _ _ => 11
  | .publishing _ _ => 12
  | .projecting _ _ => 13

theorem rank_le (s : State) : rank s ≤ 16 := by
  unfold rank
  split
  case h_9 goal _ => cases goal <;> simp only [Goal.rank] <;> split <;> omega
  case h_10 goal _ => cases goal <;> simp only [Goal.rank] <;> omega
  all_goals omega

theorem rank_fail (path : Path) (content : String) : rank (s.fail path content) ≤ 9 := by
  change 6 + (if s.mirror.queue.length < STREAM_MIRROR_QUEUE_CAPACITY then 1 else 3) ≤ 9
  split <;> omega

theorem rank_finish (item : Item) : rank (s.finish item) ≤ 11 := by
  unfold State.finish
  split
  · exact Nat.le_refl 11
  · exact Nat.zero_le 11

theorem rank_thread (hm : s.mirror.Sound STREAM_MIRROR_QUEUE_CAPACITY) (hpc : s.pc ≠ .getting)
    (hstep : threadStep classify s input = some t) : rank t < rank s := by
  have hfail : ∀ {u : State} {path content}, rank (u.fail path content) < 10 := fun {u path content} =>
    Nat.lt_succ_of_le (rank_fail (s := u) path content)
  unfold threadStep at hstep
  split at hstep
  case h_1 h | h_2 h | h_3 h => exact absurd h hpc
  case h_4 goal h =>
      simp only [rank, h]
      split at hstep
      · rename_i mirror hoffer
        obtain ⟨hroom, -⟩ := Mirror.offer_some hoffer
        cases hstep
        rw [if_pos hroom]
        cases goal <;> exact Nat.lt_succ_self _
      · rename_i hoffer
        have hfull := Mirror.offer_none hoffer
        cases hstep
        rw [if_neg (Nat.not_lt.mpr hfull)]
        exact Nat.lt_succ_self _
  case h_5 goal h =>
      have hroom := Mirror.evict_room (by decide : 0 < STREAM_MIRROR_QUEUE_CAPACITY) hm.bounded
      cases hstep
      simp only [rank, h, if_pos hroom]
      exact Nat.lt_succ_self _
  all_goals rename_i h
  all_goals cases hstep
  all_goals simp only [rank, h]
  -- what fails goes to the terminal item, and `publishing` to the end of the stream or to the next item
  case h_7 | h_11 | h_13 => exact Nat.lt_of_le_of_lt (rank_fail ..) (by omega)
  case h_9 => exact Nat.lt_of_le_of_lt (rank_fail ..) (by omega)
  case h_8 => exact Nat.lt_of_le_of_lt (rank_finish ..) (by omega)
  case h_12 => simp only [Goal.rank]; split_ifs <;> omega
  case h_14 path _ => cases path <;> simp
  all_goals omega

theorem rank_outside {a : Action} (ha : a.isThread = false) (hnext : next classify s a = some t) : rank t ≤ rank s := by
  cases a with
  | thread input => cases ha
  | take =>
      simp only [next] at hnext
      split at hnext
      · cases hnext
      · cases hnext
        have hlen := Mirror.take_length (m := s.mirror)
        cases hpc : s.pc with
        | mirroring goal =>
            simp only [rank, hpc]
            split_ifs <;> omega
        | _ => simp only [rank, hpc, Nat.le_refl]
  | abort | shutdown =>
      cases hnext
      exact Nat.le_refl _

-- The thread does not read the next item.
def busy (s : State) : Action → Bool
  | .thread _ => decide (s.pc ≠ .getting)
  | _ => true

theorem rank_run {as : List Action} (hm : s.mirror.Sound STREAM_MIRROR_QUEUE_CAPACITY)
    (h : ((machine classify).restrict fun s a => busy s a = true).run s as = some t) :
    as.countP Action.isThread + rank t ≤ rank s := by
  induction as generalizing s with
  | nil =>
      cases h
      simp
  | cons a as ih =>
      obtain ⟨u, hu, hrest⟩ := Option.bind_eq_some_iff.mp h
      obtain ⟨hbusy, (hnext : next classify s a = some u)⟩ := Machine.restrict_next hu
      have hlater := ih (sound_next hm hnext) hrest
      rw [List.countP_cons]
      cases a with
      | thread input =>
          have hless := rank_thread hm (of_decide_eq_true hbusy) hnext
          simp only [Action.isThread, if_true]
          omega
      | take | abort | shutdown =>
          have hless := rank_outside rfl hnext
          simp only [Action.isThread, Bool.false_eq_true, if_false]
          omega

-- Between two reads of the agent's queue the thread takes a bounded number of steps, and it can take each at once: no
-- consumer, however slow, makes it wait.
theorem fanout_never_waits {as : List Action} (hs : (machine classify).Reachable s)
    (h : ((machine classify).restrict fun s a => busy s a = true).run s as = some t) :
    as.countP Action.isThread ≤ 16 ∧
      (t.pc ≠ .getting → t.pc ≠ .ended → (threadStep classify t .step).isSome = true) := by
  constructor
  · have hrank := rank_run (reachable_sound hs) h
    have hbound := rank_le s
    omega
  · intro hgetting hended
    unfold threadStep
    cases hpc : t.pc with
    | getting => exact absurd hpc hgetting
    | ended => exact absurd hpc hended
    | mirroring goal =>
        simp only
        split <;> rfl
    | _ => rfl

theorem fanout_never_waits_mirrored : ∃ s t : State, (machine fun _ => none).Reachable s ∧
    ((machine fun _ => none).restrict fun s a => busy s a = true).run s [.thread .step, .thread .step, .thread .step] =
      some t ∧ t.pc = .getting ∧ [Action.thread .step, .thread .step, .thread .step].countP Action.isThread ≤ 16 := by
  have hrun : ((machine fun _ => none).run {} [.thread (.item { next := some "a" })]).bind (fun s =>
      (((machine fun _ => none).restrict fun s a => busy s a = true).run s
        [.thread .step, .thread .step, .thread .step]).map State.pc) = some .getting := by decide
  obtain ⟨s, hs, hrest⟩ := Option.bind_eq_some_iff.mp hrun
  obtain ⟨t, ht, hpc⟩ := Option.map_eq_some_iff.mp hrest
  exact ⟨s, t, ⟨_, hs⟩, ht, hpc, (fanout_never_waits ⟨_, hs⟩ ht).1⟩

end Progress

section Segments

variable {classify : String → Option RecoverableErrorMatch} {s t : State} {content : String} {input : Input}
  {item : Item}

def Spells (content : String) (segs : Option (List Projection.Text)) : Prop := ∀ l ∈ segs, l.flatten = content.toList

def Published.Spelled : Published → Prop
  | .next content segs | .done content segs => ∀ l ∈ segs, l ≠ [] ∧ l.flatten = content.toList
  | _ => True

-- The turns in the snapshot are those of the text that goes out next.
structure Spelling (s : State) : Prop where
  snap : match s.pc with
    | .publishing _ content | .syncing content | .mirroring (.terminal _ content) | .making (.terminal _ content) |
      .announcing _ content => Spells content s.snap.turnSegs
    | _ => True
  published : ∀ e ∈ s.published, e.Spelled

theorem update_spells (p : Projection.NativeTurnProjection) (native : Projection.Item) (final : Bool) :
    Spells content (Projection.update p native content.toList final).2 := by
  unfold Projection.update
  split
  · split
    · rintro l ⟨⟩
    · split
      · rintro l ⟨⟩
      · split
        · rintro l ⟨⟩
        · rename_i hvalid
          obtain ⟨rfl, hcontent⟩ := Projection.validTurnSegments_some hvalid
          rintro l ⟨⟩
          exact hcontent
  · rintro l ⟨⟩

theorem Spells.event {segs : Option (List Projection.Text)} (h : Spells content segs) :
    ∀ l ∈ segs.filter fun l => decide (l ≠ []), l ≠ [] ∧ l.flatten = content.toList := by
  intro l hl
  obtain ⟨hmem, hne⟩ := Option.filter_eq_some_iff.mp hl
  exact ⟨of_decide_eq_true hne, h l hmem⟩

theorem spelled_append {published : List Published} (h : ∀ e ∈ published, e.Spelled) {event : Published}
    (hevent : event.Spelled) : ∀ e ∈ published ++ [event], e.Spelled := by
  intro e he
  rcases List.mem_append.mp he with he | he
  · exact h e he
  · rwa [List.mem_singleton.mp he]

theorem spelled_publishFails (h : ∀ e ∈ s.published, e.Spelled) {event : Published} (hevent : event.Spelled)
    (out : Bool) : ∀ e ∈ (s.publishFails event out).published, e.Spelled := by
  cases out with
  | false => exact h
  | true => exact spelled_append h hevent

theorem spelling_fail (h : ∀ e ∈ s.published, e.Spelled) (path : Path) (content : String) :
    Spelling (s.fail path content) :=
  ⟨by rintro l ⟨⟩, h⟩

theorem spelling_finish (h : ∀ e ∈ s.published, e.Spelled) (item : Item) : Spelling (s.finish item) := by
  unfold State.finish
  split <;> exact ⟨trivial, h⟩

theorem Spelling.thread (h : Spelling s) (hstep : threadStep classify s input = some t) : Spelling t := by
  obtain ⟨hsnap, hpublished⟩ := h
  unfold threadStep at hstep
  split at hstep
  all_goals rename_i hpc
  all_goals simp only [hpc] at hsnap
  -- `getting`
  · cases hstep
    split
    · exact spelling_fail hpublished _ _
    · split
      · exact ⟨by simp only [State.publish, hpc], spelled_append hpublished trivial⟩
      · exact ⟨by simp only [hpc], hpublished⟩
  · cases hstep
    unfold State.read
    split
    · exact ⟨by simp only [hpc], hpublished⟩
    · split
      · exact ⟨trivial, hpublished⟩
      · exact spelling_finish hpublished _
  · cases hstep
    exact spelling_fail hpublished _ _
  -- `mirroring`, `making`
  · rename_i goal
    split at hstep <;> cases hstep
    · cases goal with
      | progress item content => exact ⟨trivial, hpublished⟩
      | terminal path content => exact ⟨hsnap, hpublished⟩
    · cases goal <;> exact ⟨hsnap, hpublished⟩
  · rename_i goal
    cases hstep
    cases goal <;> exact ⟨hsnap, hpublished⟩
  -- `projecting`, `publishing`
  · cases hstep
    exact ⟨update_spells _ _ _, hpublished⟩
  · cases hstep
    exact spelling_fail hpublished _ _
  · rename_i item content
    have hevent : (s.nextEvent content).Spelled := hsnap.event
    cases hstep
    exact spelling_finish (spelled_append hpublished hevent) _
  · rename_i item content detail out
    have hevent : (s.nextEvent content).Spelled := hsnap.event
    cases hstep
    exact spelling_fail (spelled_publishFails hpublished hevent _) _ _
  -- `storing`, `syncing`
  · cases hstep
    exact ⟨update_spells _ _ _, hpublished⟩
  · cases hstep
    exact spelling_fail hpublished _ _
  · cases hstep
    exact ⟨hsnap, hpublished⟩
  · cases hstep
    exact spelling_fail hpublished _ _
  -- `announcing`, `closing`
  · rename_i path content
    have hevent : (s.doneEvent content).Spelled := hsnap.event
    cases hstep
    exact ⟨by cases path <;> exact trivial, spelled_append hpublished hevent⟩
  · rename_i path content detail out
    have hevent : (s.doneEvent content).Spelled := hsnap.event
    cases hstep
    exact ⟨trivial, spelled_publishFails hpublished hevent _⟩
  · cases hstep
    exact ⟨trivial, spelled_append hpublished trivial⟩
  · rename_i content detail out
    have hevent : (Published.agentDone content.length).Spelled := trivial
    cases hstep
    exact ⟨trivial, spelled_publishFails hpublished hevent _⟩
  · cases hstep
    exact ⟨trivial, hpublished⟩
  · cases hstep
    exact ⟨trivial, hpublished⟩
  · cases hstep
    exact ⟨trivial, hpublished⟩
  · cases hstep
    exact ⟨trivial, hpublished⟩
  · cases hstep
    exact ⟨trivial, hpublished⟩
  · cases hstep
    exact ⟨trivial, hpublished⟩
  · cases hstep

-- Wherever an event goes out with turns, they are a cut of its text, whatever failed before and whichever way the
-- stream ends.
theorem segments_spell_content (hs : (machine classify).Reachable s) : ∀ e ∈ s.published, e.Spelled := by
  refine (hs.invariant (P := Spelling) ⟨trivial, by rintro _ ⟨⟩⟩ fun s a t h hnext => ?_).published
  cases a with
  | thread input => exact h.thread hnext
  | take =>
      simp only [machine, next] at hnext
      split at hnext <;> cases hnext
      exact ⟨h.snap, h.published⟩
  | abort | shutdown =>
      cases hnext
      exact ⟨h.snap, h.published⟩

theorem segments_spell_content_turn : ∃ s, (machine fun _ => none).Reachable s ∧
    Published.done "ab" (some ["ab".toList]) ∈ s.published ∧ ∀ e ∈ s.published, e.Spelled := by
  have hrun : ((machine fun _ => none).run {} (Action.thread (.item
      { done := some "ab", native := ⟨some 1, some [some "ab".toList]⟩ }) :: List.replicate 4 (.thread .step))).map
        State.published = some [.done "ab" (some ["ab".toList])] := by decide
  obtain ⟨s, hs, hpublished⟩ := Option.map_eq_some_iff.mp hrun
  exact ⟨s, ⟨_, hs⟩, by simp [hpublished], segments_spell_content ⟨_, hs⟩⟩

end Segments

-- The thread as the streams' model has it, where an item is read, mirrored and published in one step.
section Refinement

variable {V : Type} {reading : Reading V} {classify : String → Option RecoverableErrorMatch} {base : Stream}
  {S : Streams.State} {x : StreamId} {s t : State} {input : Input} {item : Item}

def Path.abs (content : String) : Path → Streams.Pc
  | .completed => .concluding content
  | .shutdown | .crashed => .ending

def Pc.abs : Pc → Streams.Pc
  | .getting | .mirroring (.progress _ _) | .making (.progress _ _) | .projecting _ _ | .publishing _ _ => .draining
  | .storing _ content | .syncing content => .committing content
  | .mirroring (.terminal path content) | .making (.terminal path content) | .announcing path content => path.abs content
  | .closing content | .concluding content => .concluding content
  | .continuing content => .deciding content
  | .ending => .ending
  | .signalling => .signalling
  | .ended => .ended

-- The texts, which the streams' model stores before they are mirrored.
def State.texts (s : State) : String × String :=
  match s.pc with
  | .mirroring (.progress _ content) | .making (.progress _ content) => (content, content)
  | _ => (s.handle.lastChunk, s.snap.content)

def State.abs (base : Stream) (s : State) : Stream :=
  { base with
    lastChunk := s.texts.1
    content := s.texts.2
    finished := s.handle.finished
    finalText := s.handle.finalText
    outcome := s.handle.outcome
    fanoutDone := s.handle.fanoutDone
    aborted := s.snap.aborted
    pc := s.pc.abs }

def Follows (reading : Reading V) (classify : String → Option RecoverableErrorMatch) (base : Stream) (S : Streams.State)
    (x : StreamId) (s t : State) : Prop :=
  t.stopEvent = s.stopEvent ∧
    (t.abs base = s.abs base ∨ ∃ input S', Streams.threadStep reading classify S x (s.abs base) input = some S' ∧
      S'.streams[x]? = some (t.abs base) ∧ S'.stopEvent = S.stopEvent)

theorem Follows.update (hx : S.streams[x]? = some (s.abs base)) {f : Stream → Stream} (input : Streams.Input V)
    (hstep : Streams.threadStep reading classify S x (s.abs base) input = some (S.update x f))
    (ht : t.abs base = f (s.abs base)) (hkept : t.stopEvent = s.stopEvent) : Follows reading classify base S x s t :=
  ⟨hkept, .inr ⟨input, _, hstep, by rw [Streams.State.update, List.getElem?_modify_eq, hx, ht]; rfl, rfl⟩⟩

theorem follows_read (hx : S.streams[x]? = some (s.abs base)) (hstop : S.stopEvent = s.stopEvent) (hpc : s.pc = .getting)
    (hplain : item.plain = true) : Follows reading classify base S x s (s.read item) := by
  obtain ⟨handle, snap, nativeTurns, mirror, published, stopEvent, registered, pc⟩ := s
  cases hpc
  obtain ⟨next, done, native⟩ := item
  cases next with
  | none =>
      cases done with
      | none => exact ⟨by cases stopEvent <;> rfl, .inl (by cases stopEvent <;> rfl)⟩
      | some content =>
          exact .update hx (.done content) rfl (by cases stopEvent <;> rfl) (by cases stopEvent <;> rfl)
  | some content =>
      cases done with
      | some content' => cases hplain
      | none =>
          cases stopEvent with
          | true => exact ⟨rfl, .inl rfl⟩
          | false =>
              refine .update hx (f := fun h => { h with lastChunk := content, content }) (.next content) ?_ rfl rfl
              exact congrArg some (if_neg (by simp [hstop]))

theorem follows_crash (hx : S.streams[x]? = some (s.abs base)) {detail : String}
    (hstep : Streams.threadStep reading classify S x (s.abs base) (.raises detail) =
      some (S.update x fun h => h.crashed detail)) (htexts : s.texts = (s.handle.lastChunk, s.snap.content)) :
    Follows reading classify base S x s (s.crash detail) := by
  refine .update hx (.raises detail) hstep ?_ rfl
  simp only [State.abs, Stream.crashed, htexts]
  rfl

theorem follows_thread (reading : Reading V) (hx : S.streams[x]? = some (s.abs base)) (hstop : S.stopEvent = s.stopEvent)
    (hok : orderly (.thread input) = true) (hpc : ∀ content, s.pc ≠ .continuing content)
    (hstep : threadStep classify s input = some t) : Follows reading classify base S x s t := by
  unfold threadStep at hstep
  split at hstep
  case h_4 goal hplace =>
      obtain ⟨handle, snap, nativeTurns, mirror, published, stopEvent, registered, pc⟩ := s
      cases hplace
      split at hstep <;> cases hstep <;> cases goal <;> exact ⟨rfl, .inl rfl⟩
  case h_5 goal hplace =>
      obtain ⟨handle, snap, nativeTurns, mirror, published, stopEvent, registered, pc⟩ := s
      cases hplace
      cases hstep
      cases goal <;> exact ⟨rfl, .inl rfl⟩
  case h_2 item hplace =>
      cases hstep
      exact follows_read hx hstop hplace hok
  case h_20 | h_21 => exact absurd ‹_› (hpc _)
  all_goals rename_i hplace
  all_goals cases hstep
  all_goals obtain ⟨handle, snap, nativeTurns, mirror, published, stopEvent, registered, pc⟩ := s
  all_goals cases hplace
  case h_1 =>
      cases stopEvent with
      | false =>
          simp only [Bool.false_eq_true, if_false]
          split <;> exact ⟨rfl, .inl rfl⟩
      | true =>
          refine .update hx (f := Stream.shutDown) .empty ?_ rfl rfl
          exact congrArg some (if_pos hstop)
  case h_3 | h_7 => exact follows_crash hx rfl rfl
  case h_9 item content detail out => exact .update hx (.raises detail) rfl (by cases out <;> rfl) (by cases out <;> rfl)
  case h_11 | h_13 => exact follows_crash hx rfl rfl
  case h_6 | h_10 | h_16 => exact ⟨rfl, .inl rfl⟩
  case h_8 item content =>
      obtain ⟨next, done, native⟩ := item
      cases done with
      | none => exact ⟨rfl, .inl rfl⟩
      | some content' => exact .update hx (.done content') rfl rfl rfl
  case h_12 => exact .update hx .step rfl rfl rfl
  case h_14 path content => exact ⟨rfl, .inl (by cases path <;> rfl)⟩
  case h_15 path content detail out =>
      cases path with
      | completed => exact .update hx (.raises detail) rfl (by cases out <;> rfl) (by cases out <;> rfl)
      | shutdown | crashed => exact ⟨by cases out <;> rfl, .inl (by cases out <;> rfl)⟩
  case h_17 content detail out => exact .update hx (.raises detail) rfl (by cases out <;> rfl) (by cases out <;> rfl)
  case h_18 => exact .update hx .step rfl rfl rfl
  case h_19 content detail out => exact .update hx (.raises detail) rfl rfl rfl
  case h_22 =>
      refine ⟨rfl, .inr ⟨.step, _, rfl, ?_, rfl⟩⟩
      simp only [Streams.State.goto, Streams.State.update, List.getElem?_modify_eq, hx]
      rfl
  case h_23 => exact .update hx .step rfl rfl rfl

-- The steps before the streams' model decides on a retry, those of `abort` left out.
def followed (s : State) (a : Action) : Bool :=
  orderly a && match a, s.pc with
    | .thread _, .continuing _ => false
    | .abort, _ => false
    | _, _ => true

theorem follows_run (reading : Reading V) {u : State} {as : List Action} (hx : S.streams[x]? = some (u.abs base))
    (hstop : S.stopEvent = u.stopEvent)
    (h : ((machine classify).restrict fun s a => followed s a = true).run u as = some s) :
    ∃ bs T, (Streams.machine reading classify).run S bs = some T ∧ T.streams[x]? = some (s.abs base) ∧
      T.stopEvent = s.stopEvent := by
  induction as generalizing u S with
  | nil =>
      cases h
      exact ⟨[], S, rfl, hx, hstop⟩
  | cons a as ih =>
      obtain ⟨v, hv, hrest⟩ := Option.bind_eq_some_iff.mp h
      obtain ⟨hfollowed, (hnext : next classify u a = some v)⟩ := Machine.restrict_next hv
      obtain ⟨hok, hplace⟩ := Bool.and_eq_true_iff.mp hfollowed
      cases a with
      | thread input =>
          have hpc : ∀ content, u.pc ≠ .continuing content := by
            intro content hpc
            simp [hpc] at hplace
          obtain ⟨hkept, hsame | ⟨input', S', hstep, hx', hstop'⟩⟩ := follows_thread reading hx hstop hok hpc hnext
          · exact ih (by rwa [hsame]) (by rwa [hkept]) hrest
          · obtain ⟨bs, T, hrun, hT⟩ := ih hx' (by rw [hstop', hstop, hkept]) hrest
            refine ⟨.thread x input' :: bs, T, ?_, hT⟩
            simp only [Machine.run, Streams.machine, Streams.next, hx, Option.bind_some, hstep]
            exact hrun
      | take =>
          simp only [next] at hnext
          split at hnext <;> cases hnext
          exact ih (u := { u with mirror := u.mirror.take }) hx hstop hrest
      | abort => simp at hplace
      | shutdown =>
          cases hnext
          obtain ⟨bs, T, hrun, hT⟩ :=
            ih (u := { u with stopEvent := true }) (S := { S with stopEvent := true }) hx rfl hrest
          exact ⟨.shutdown :: bs, T, hrun, hT⟩

-- Every run of the thread is one of the streams' model, whose state is read off the thread's.
theorem fanout_refines_streams (reading : Reading V) {as : List Action}
    (hx : S.streams[x]? = some (({} : State).abs base)) (hstop : S.stopEvent = false)
    (h : ((machine classify).restrict fun s a => followed s a = true).run {} as = some s) :
    ∃ bs T, (Streams.machine reading classify).run S bs = some T ∧ T.streams[x]? = some (s.abs base) ∧
      T.stopEvent = s.stopEvent :=
  follows_run reading hx hstop h

def plainStream : Stream := { source := "webui", sessionId := "s", logicalId := 0, pc := .draining }

theorem fanout_refines_streams_failed : ∃ (s : State) (bs : List (Streams.Action Unit)) (T : Streams.State),
    (Streams.machine plainReading fun _ => none).run { streams := [plainStream] } bs = some T ∧ s.pc = .ended ∧
      T.streams[0]? = some (s.abs plainStream) := by
  have hrun : (((machine fun _ => none).restrict fun s a => followed s a = true).run {} syncFails).map State.pc =
      some .ended := by decide
  obtain ⟨s, hs, hpc⟩ := Option.map_eq_some_iff.mp hrun
  have hstart : ({ streams := [plainStream] } : Streams.State).streams[0]? = some (({} : State).abs plainStream) := rfl
  obtain ⟨bs, T, hrefined, habs, -⟩ := fanout_refines_streams plainReading hstart rfl hs
  exact ⟨s, bs, T, hrefined, hpc, habs⟩

end Refinement

end GaHub.Streams.Fanout
