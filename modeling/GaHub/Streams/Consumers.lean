import GaHub.Lib.Lists
import GaHub.Lib.Text
import GaHub.Streams.Completion

namespace GaHub.Streams

inductive Item where
  | next (content : String)
  | done (content : String)
  deriving DecidableEq

def streamMirrorQueueCapacity : Nat := 2

-- `_mirror_stream_item`: a full queue loses what is oldest.
def mirrorStreamItem (queue : List Item) (item : Item) : List Item :=
  queue.drop (queue.length + 1 - streamMirrorQueueCapacity) ++ [item]

def mirrored {V : Type} (s : State) (h : Stream) (input : Input V) : Option Item :=
  match h.pc, input with
  | .draining, .next content => if s.stopEvent then none else some (.next content)
  | .draining, .empty => if s.stopEvent then some (.done h.shutDown.finalText) else none
  | .draining, .raises detail => some (.done (h.crashed detail).finalText)
  | .committing content, .step => some (.done content)
  | .committing _, .raises detail => some (.done (h.crashed detail).finalText)
  | _, _ => none

inductive RunStatus where
  | running
  | done
  | error
  | timeout
  deriving DecidableEq

-- Where the watcher of a scheduled run stands.
inductive WatchPc where
  | looking
  | pausing
  | leaving
  -- `_finalize_run`
  | finalizing
  | mailing
  | recording
  -- `_on_watch_crash`
  | crashed
  | over
  deriving DecidableEq

-- The watcher, with what it writes into its `TaskRun`.
structure Watch where
  root : StreamId
  notifyEmail : Bool
  -- the deadline has passed
  late : Bool := false
  status : RunStatus := .running
  resultPreview : String := ""
  pc : WatchPc := .looking
  deriving DecidableEq

inductive RelayPc where
  | reading
  | answering
  | over
  deriving DecidableEq

-- `_run_agent_stream`, with the queue it reads.
structure Relay where
  root : StreamId
  queue : List Item := []
  -- how many segments have been sent, and in how many messages
  sent : Nat := 0
  mi : Nat := 0
  late : Bool := false
  result : String := ""
  pc : RelayPc := .reading
  deriving DecidableEq

inductive Report where
  | recorded (status : RunStatus) (preview : String)
  | mailed (result : String)
  | message (text : String)
  deriving DecidableEq

structure Reported where
  root : StreamId
  late : Bool
  report : Report
  deriving DecidableEq

structure Desk where
  streams : State := {}
  -- the stop event of the watchers
  stopping : Bool := false
  watches : List Watch := []
  relays : List Relay := []
  reports : List Reported := []
  deriving DecidableEq

inductive WatchStep where
  | look
  -- two seconds later: whether the deadline has passed
  | wake (deadline : Bool)
  | leave
  | finalize
  -- whether the e-mail goes out, and whether the call returns
  | mail (goes returns : Bool)
  -- whether the file can be written
  | record (ok : Bool)
  | crash (ok : Bool)

inductive RelayStep where
  -- whether the last message is too recent, and whether the next one goes out
  | take (recent ok : Bool)
  | timeout
  | answer (ok : Bool)

inductive DeskAction (V : Type) where
  | stream (a : Action V)
  | fire (sessionId : String) (notifyEmail : Bool)
  | relay (sessionId : String)
  | stop
  | reset
  | watch (w : Nat) (step : WatchStep)
  | read (r : Nat) (step : RelayStep)

-- How a text of the agent is divided into turns, and what is left of it for a reader.
structure Rendering where
  turnParts : String → List String × String
  clean : String → String

section Steps

variable {V : Type} (reading : Reading V) (classify : String → Option RecoverableErrorMatch) (rendering : Rendering)

-- `handle.final_text or handle.last_chunk or ""`
def Stream.reply (h : Stream) : String := if h.finalText = "" then h.lastChunk else h.finalText

def preview (text : String) : String := .ofList (text.toList.take 500)

def mailedResult (text resultPreview : String) : String :=
  if text ≠ "" then text else if resultPreview ≠ "" then resultPreview else "(无结果内容)"

def lastChars (n : Nat) (text : String) : String := .ofList (text.toList.drop (text.toList.length - n))

def finalMessage (sent : Nat) (result : String) : String :=
  let (doneSegs, rest) := rendering.turnParts result
  lastChars 2000 (rendering.clean ("\n\n".intercalate (doneSegs.drop sent ++ [rest] ++ ["\n\n[任务已完成]"])))

def Desk.watched (s : Desk) (w : Nat) (f : Watch → Watch) : Desk := { s with watches := s.watches.modify w f }

def Desk.relayed (s : Desk) (r : Nat) (f : Relay → Relay) : Desk := { s with relays := s.relays.modify r f }

def Desk.tell (s : Desk) (root : StreamId) (late : Bool) (report : Report) : Desk :=
  { s with reports := s.reports ++ [{ root, late, report }] }

def watchStep (s : Desk) (w : Nat) (watch : Watch) (h : Stream) (step : WatchStep) : Option Desk :=
  match watch.pc, step with
  | .looking, .look => some (s.watched w fun watch => { watch with pc := if h.finished then .leaving else .pausing })
  | .pausing, .wake deadline => some (s.watched w fun watch =>
      if s.stopping then { watch with pc := .over }
      else if deadline then { watch with late := true, status := .timeout, pc := .leaving }
      else { watch with pc := .looking })
  | .leaving, .leave => some (s.watched w fun watch => { watch with pc := if s.stopping then .over else .finalizing })
  | .finalizing, .finalize => some (s.watched w fun watch => { watch with
      status := if h.finished then .done else watch.status
      resultPreview := preview (if h.finished then h.reply else h.lastChunk)
      pc := if watch.notifyEmail then .mailing else .recording })
  | .mailing, .mail goes returns =>
      let s := s.watched w fun watch => { watch with pc := if returns then .recording else .crashed }
      some (if goes then s.tell watch.root watch.late (.mailed (mailedResult h.reply watch.resultPreview)) else s)
  -- `run_if_active`
  | .recording, .record ok =>
      if s.stopping then some (s.watched w fun watch => { watch with pc := .over })
      else if ok then
        some ((s.watched w fun watch => { watch with pc := .over }).tell watch.root watch.late
          (.recorded watch.status watch.resultPreview))
      else some (s.watched w fun watch => { watch with pc := .crashed })
  | .crashed, .crash ok =>
      let s' := s.watched w fun watch => { watch with status := .error, pc := .over }
      some (if !s.stopping && ok then s'.tell watch.root watch.late (.recorded .error watch.resultPreview) else s')
  | _, _ => none

def relayStep (s : Desk) (r : Nat) (relay : Relay) (step : RelayStep) : Option Desk :=
  match relay.pc, step with
  | .reading, .take recent ok =>
      match relay.queue with
      | [] => none
      | .done content :: rest => some (s.relayed r fun relay => { relay with queue := rest, result := content, pc := .answering })
      | .next raw :: rest =>
          let done := (rendering.turnParts raw).1
          let merged := rendering.clean ("\n\n".intercalate (done.drop relay.sent))
          let sends := decide (relay.sent < done.length) && decide (relay.mi < 9) && decide (Lib.strip merged ≠ "") &&
            !(decide (relay.mi ≠ 0) && recent) && ok
          some (s.relayed r fun relay => if sends then { relay with queue := rest, sent := done.length, mi := relay.mi + 1 }
            else { relay with queue := rest })
  -- nothing on the queue for 300 seconds
  | .reading, .timeout =>
      if relay.queue = [] then some (s.relayed r fun relay => { relay with late := true, result := "[超时]", pc := .answering })
      else none
  | .answering, .answer ok =>
      let s := s.relayed r fun relay => { relay with pc := .over }
      some (if ok then s.tell relay.root relay.late (.message (finalMessage rendering relay.sent relay.result)) else s)
  | _, _ => none

def mirrors (s : State) (relays : List Relay) : Action V → List Relay
  | .thread x input =>
      match s.streams[x]?.bind fun h => mirrored s h input with
      | none => relays
      | some item => relays.map fun relay =>
          if relay.root = x then { relay with queue := mirrorStreamItem relay.queue item } else relay
  | _ => relays

def Desk.next (s : Desk) : DeskAction V → Option Desk
  | .stream a => (Streams.next reading classify s.streams a).map fun t =>
      { s with streams := t, relays := mirrors s.streams s.relays a }
  | .fire sessionId notifyEmail =>
      if s.stopping then none
      else (Streams.next reading classify s.streams (.submit "scheduled_task" sessionId true)).map fun t =>
        { s with streams := t, watches := s.watches ++ [{ root := s.streams.streams.length, notifyEmail }] }
  | .relay sessionId => (Streams.next reading classify s.streams (.submit "wechat" sessionId true)).map fun t =>
      { s with streams := t, relays := s.relays ++ [{ root := s.streams.streams.length }] }
  | .stop => some { s with stopping := true }
  | .reset => if s.watches.all fun watch => decide (watch.pc = .over) then some { s with stopping := false } else none
  | .watch w step => s.watches[w]?.bind fun watch => s.streams.streams[watch.root]?.bind fun h => watchStep s w watch h step
  | .read r step => s.relays[r]?.bind fun relay => relayStep rendering s r relay step

def desk : Lib.Machine Desk (DeskAction V) where
  start := {}
  next := Desk.next reading classify rendering

end Steps

-- The thread of a stream has ended, no other stream continues it, and it has not failed; an empty answer has no
-- progress before it.
def Stream.settled (h : Stream) : Bool :=
  h.fanoutDone && decide (h.continuation = none) && decide (h.outcome ≠ some .failed) &&
    (decide (h.finalText ≠ "") || decide (h.lastChunk = ""))

-- A reader that is in time finds the thread of its stream at its end, and a watcher finds a run of one stream that
-- has not failed.
def direct {V : Type} (s : Desk) : DeskAction V → Bool
  | .watch w .finalize => s.watches[w]?.all fun watch => watch.late || s.streams.streams[watch.root]?.all Stream.settled
  | .read r (.answer _) => s.relays[r]?.all fun relay => relay.late || s.streams.streams[relay.root]?.all Stream.fanoutDone
  | _ => true

def Report.Carries (rendering : Rendering) (text : String) : Report → Prop
  | .recorded _ shown => shown = preview text
  | .mailed result => result = if text = "" then "(无结果内容)" else text
  | .message shown => ∃ sent, shown = finalMessage rendering sent text

variable {V : Type} {reading : Reading V} {classify : String → Option RecoverableErrorMatch} {rendering : Rendering}

def Pc.past : Pc → Bool
  | .unstarted | .draining | .committing _ => false
  | _ => true

theorem Moves.past {h : Stream} {old new : Pc} (hmoves : Moves h old new) : old.past = true ∧ new.past = true := by
  cases hmoves <;> exact ⟨rfl, rfl⟩

theorem Local.past {h z : Stream} (hlocal : Local classify h z) (hpast : h.pc.past = true) :
    z.pc.past = true ∧ z.finished = h.finished ∧ z.finalText = h.finalText ∧ z.lastChunk = h.lastChunk := by
  cases hlocal with
  | conclude _ => exact ⟨rfl, rfl, rfl, rfl⟩
  | move hmoves => exact ⟨hmoves.past.2, rfl, rfl, rfl⟩
  | link _ => exact ⟨rfl, rfl, rfl, rfl⟩
  | signal _ => exact ⟨rfl, rfl, rfl, rfl⟩
  | chunk hpc | read hpc | shutDown hpc | commit hpc =>
      rw [hpc] at hpast
      cases hpast
  | crash hpc =>
      rcases hpc with hpc | ⟨_, hpc⟩ <;> rw [hpc] at hpast <;> cases hpast

theorem Evolves.past {s t : State} {y : StreamId} {h z : Stream} (hevolves : Evolves classify s t y h z) (hs : Chained s)
    (hy : s.streams[y]? = some h) (hpast : h.pc.past = true) :
    z.pc.past = true ∧ z.finished = h.finished ∧ z.finalText = h.finalText ∧ z.lastChunk = h.lastChunk := by
  cases hevolves with
  | same => exact ⟨hpast, rfl, rfl, rfl⟩
  | marked _ => exact ⟨hpast, rfl, rfl, rfl⟩
  | own hlocal => exact hlocal.past hpast
  | submits _ _ => exact ⟨rfl, rfl, rfl, rfl⟩
  | starts _ => exact ⟨rfl, rfl, rfl, rfl⟩
  | started hw hpc _ =>
      obtain ⟨k, hk, _, hunstarted⟩ := hs.child _ _ y hw hpc
      rw [hy] at hk
      cases hk
      rw [hunstarted] at hpast
      cases hpast

structure Stream.Legible (h : Stream) : Prop where
  committing : ∀ c, h.pc = .committing c → h.finalText = c
  finished : h.pc.past = true → h.finished = true

theorem Stream.Legible.of_past {z : Stream} (hpast : z.pc.past = true) (hfinished : z.finished = true) : z.Legible where
  committing c hpc := by
    rw [hpc] at hpast
    cases hpast
  finished _ := hfinished

theorem Stream.Legible.of_open {z : Stream} (hpc : z.pc = .draining ∨ z.pc = .unstarted) : z.Legible where
  committing c hcommitting := by
    rw [hcommitting] at hpc
    rcases hpc with hpc | hpc <;> cases hpc
  finished hpast := by
    rcases hpc with hpc | hpc <;> rw [hpc] at hpast <;> cases hpast

theorem Local.legible {h z : Stream} (hlocal : Local classify h z) (hlegible : h.Legible) : z.Legible := by
  cases hlocal with
  | chunk hpc => exact .of_open (.inl hpc)
  | read _ =>
      refine ⟨fun c hpc => ?_, fun hpast => ?_⟩
      · cases hpc
        rfl
      · cases hpast
  | shutDown _ => exact .of_past rfl rfl
  | crash _ => exact .of_past rfl rfl
  | commit _ => exact .of_past rfl rfl
  | conclude hpc => exact .of_past rfl (hlegible.finished (by rw [hpc]; rfl))
  | move hmoves => exact .of_past hmoves.past.2 (hlegible.finished hmoves.past.1)
  | link hpc => exact .of_past rfl (hlegible.finished (by rw [hpc]; rfl))
  | signal hpc => exact .of_past rfl (hlegible.finished (by rw [hpc]; rfl))

theorem Evolves.legible {s t : State} {y : StreamId} {h z : Stream} (hevolves : Evolves classify s t y h z)
    (hlegible : h.Legible) : z.Legible := by
  cases hevolves with
  | same => exact hlegible
  | marked _ => exact ⟨hlegible.committing, hlegible.finished⟩
  | own hlocal => exact hlocal.legible hlegible
  | submits hpc _ => exact .of_past rfl (hlegible.finished (by rw [hpc]; rfl))
  | starts hpc => exact .of_past rfl (hlegible.finished (by rw [hpc]; rfl))
  | started _ _ _ => exact .of_open (.inl rfl)

theorem Appears.legible {s : State} {z : Stream} (h : Appears s z) : z.Legible := by
  cases h with
  | root hpc => exact .of_open hpc
  | @successor x h kind _ _ => cases kind <;> exact .of_open (.inr rfl)

theorem reachable_legible {s : State} (hs : (machine reading classify).Reachable s) :
    ∀ (x : StreamId) (h : Stream), s.streams[x]? = some h → h.Legible := by
  refine hs.invariant (P := fun s => ∀ (x : StreamId) (h : Stream), s.streams[x]? = some h → h.Legible) (by simp [machine])
    fun s a t hs ha x z hz => ?_
  rcases (next_change ha).stream hz with ⟨h, hx, hevolves⟩ | ⟨_, happears⟩
  · exact hevolves.legible (hs x h hx)
  · exact happears.legible

def Final (s : State) (x : StreamId) (text : String) : Prop :=
  ∃ h, s.streams[x]? = some h ∧ h.pc.past = true ∧ h.finalText = text

theorem Final.next {s t : State} {a : Action V} {x : StreamId} {text : String} (hfinal : Final s x text) (hs : Chained s)
    (h : Streams.next reading classify s a = some t) : Final t x text := by
  obtain ⟨stream, hx, hpast, htext⟩ := hfinal
  obtain ⟨z, hz, hevolves⟩ := (next_change h).keeps hx
  obtain ⟨hpast', _, htext', _⟩ := hevolves.past hs hx hpast
  exact ⟨z, hz, hpast', htext'.trans htext⟩

theorem mirrored_done {s t : State} {x : StreamId} {h : Stream} {input : Input V} {text : String} (hlegible : h.Legible)
    (hx : s.streams[x]? = some h) (hstep : threadStep reading classify s x h input = some t)
    (hitem : mirrored s h input = some (.done text)) : Final t x text := by
  have hupdate : ∀ {f : Stream → Stream}, (f h).pc.past = true → (f h).finalText = text → Final (s.update x f) x text := by
    intro f hpast htext
    obtain ⟨hlt, _⟩ := List.getElem?_eq_some_iff.mp hx
    exact ⟨f h, by rw [update_streams hx f, List.getElem?_set_self hlt], hpast, htext⟩
  unfold mirrored at hitem
  split at hitem
  all_goals
    rename_i hpc
    unfold threadStep at hstep
    try rw [hpc] at hstep
  · split at hitem <;> cases hitem
  · split at hitem
    · rename_i hstop
      cases hitem
      cases hstep
      rw [if_pos hstop]
      exact hupdate rfl rfl
    · cases hitem
  · cases hitem
    cases hstep
    exact hupdate rfl rfl
  · cases hitem
    cases hstep
    exact hupdate rfl (hlegible.committing _ hpc)
  · cases hitem
    cases hstep
    exact hupdate rfl rfl
  · cases hitem

-- A stream that is all there is of its run, and has come to its end.
structure Sole (s : State) (x : StreamId) (h : Stream) : Prop where
  here : s.streams[x]? = some h
  ended : h.pc = .ended
  done : h.fanoutDone = true
  last : h.continuation = none

theorem Sole.next {s t : State} {a : Action V} {x : StreamId} {h : Stream} (hsole : Sole s x h) (hs : Chained s)
    (ha : Streams.next reading classify s a = some t) : ∃ b, Sole t x { h with aborted := b } := by
  obtain ⟨z, hz, hevolves⟩ := (next_change ha).keeps hsole.here
  rcases hevolves.ended hs hsole.here hsole.ended with rfl | rfl
  · exact ⟨z.aborted, hz, hsole.ended, hsole.done, hsole.last⟩
  · exact ⟨true, hz, hsole.ended, hsole.done, hsole.last⟩

def Told (rendering : Rendering) (s : State) (r : Reported) : Prop :=
  ∃ h, Sole s r.root h ∧ r.report.Carries rendering h.finalText ∧
    ∀ shown, r.report = .recorded .done shown → h.outcome ≠ some .failed

theorem Told.next {s t : State} {a : Action V} {r : Reported} (htold : Told rendering s r) (hs : Chained s)
    (ha : Streams.next reading classify s a = some t) : Told rendering t r := by
  obtain ⟨h, hsole, hcarries, houtcome⟩ := htold
  obtain ⟨b, hsole'⟩ := hsole.next hs ha
  exact ⟨_, hsole', hcarries, houtcome⟩

def WatchPc.filled : WatchPc → Bool
  | .mailing | .recording | .crashed => true
  | _ => false

def Watched (s : State) (watch : Watch) : Prop :=
  watch.late = false → watch.pc.filled = true → ∃ h, Sole s watch.root h ∧ h.outcome ≠ some .failed ∧
    h.reply = h.finalText ∧ watch.resultPreview = preview h.finalText

theorem Watched.next {s t : State} {a : Action V} {watch : Watch} (hwatched : Watched s watch) (hs : Chained s)
    (ha : Streams.next reading classify s a = some t) : Watched t watch := by
  intro hlate hfilled
  obtain ⟨h, hsole, houtcome, hreply, hpreview⟩ := hwatched hlate hfilled
  obtain ⟨b, hsole'⟩ := hsole.next hs ha
  exact ⟨_, hsole', houtcome, hreply, hpreview⟩

-- What a relay has on its queue and in its hand at the end is the last text of its stream.
structure Relayed (s : State) (relay : Relay) : Prop where
  wechat : ∃ h, s.streams[relay.root]? = some h ∧ h.source = "wechat"
  queue : ∀ text, .done text ∈ relay.queue → Final s relay.root text
  result : relay.pc = .answering → relay.late = false → Final s relay.root relay.result

theorem Relayed.next {s t : State} {a : Action V} {relay : Relay} (hrelayed : Relayed s relay) (hs : Chained s)
    (ha : Streams.next reading classify s a = some t) : Relayed t relay where
  wechat := by
    obtain ⟨h, hx, hsource⟩ := hrelayed.wechat
    obtain ⟨z, hz, hevolves⟩ := (next_change ha).keeps hx
    exact ⟨z, hz, (congrArg Identity.source hevolves.identity).trans hsource⟩
  queue text hmem := (hrelayed.queue text hmem).next hs ha
  result hpc hlate := (hrelayed.result hpc hlate).next hs ha

theorem wechat_alone {s : State} {x : StreamId} {h : Stream} (hs : Chained s) (hjoined : Joined s)
    (hx : s.streams[x]? = some h) (hsource : h.source = "wechat") : h.continuation = none := by
  cases hnext : h.continuation with
  | none => rfl
  | some y =>
      obtain ⟨k, hk, hretry⟩ := hjoined.continuation x h y hx (.inl hnext)
      obtain ⟨_, parent, hx', _, hcontinues⟩ := hs.link y k x hk hretry
      rw [hx] at hx'
      cases hx'
      have heligible : h.source ∈ retryEligibleSources := by
        cases hcontinues with
        | retry _ hfits _ => exact hfits.eligible
        | autoContinue heligible _ _ => exact heligible
      rw [hsource] at heligible
      exact absurd heligible (by decide)

structure Desked (reading : Reading V) (classify : String → Option RecoverableErrorMatch) (rendering : Rendering)
    (s : Desk) : Prop where
  streams : (machine reading classify).Reachable s.streams
  watches : ∀ watch ∈ s.watches, Watched s.streams watch
  relays : ∀ relay ∈ s.relays, Relayed s.streams relay
  reports : ∀ r ∈ s.reports, r.late = false → Told rendering s.streams r

theorem settled_eq_true_iff {h : Stream} : h.settled = true ↔
    h.fanoutDone = true ∧ h.continuation = none ∧ h.outcome ≠ some .failed ∧ (h.finalText ≠ "" ∨ h.lastChunk = "") := by
  simp only [Stream.settled, Bool.and_eq_true, Bool.or_eq_true, decide_eq_true_eq, and_assoc]

theorem reply_settled {h : Stream} (hsettled : h.settled = true) : h.reply = h.finalText := by
  obtain ⟨_, _, _, htext⟩ := settled_eq_true_iff.mp hsettled
  unfold Stream.reply
  split
  · rename_i hempty
    rw [hempty]
    exact htext.resolve_left (not_not.mpr hempty)
  · rfl

theorem watchStep_effect {s t : Desk} {w : Nat} {watch : Watch} {h : Stream} {step : WatchStep}
    (hs : Desked reading classify rendering s) (hw : s.watches[w]? = some watch)
    (hx : s.streams.streams[watch.root]? = some h) (hdirect : direct (V := V) s (.watch w step) = true)
    (hstep : watchStep s w watch h step = some t) :
    ∃ f new, t = { s with watches := s.watches.modify w f, reports := s.reports ++ new } ∧
      Watched s.streams (f watch) ∧ ∀ r ∈ new, r.late = false → Told rendering s.streams r := by
  have hwatched := hs.watches watch (List.mem_of_getElem? hw)
  have hquiet : ∀ {f : Watch → Watch}, (f watch).pc.filled = false → t = s.watched w f →
      ∃ f new, t = { s with watches := s.watches.modify w f, reports := s.reports ++ new } ∧
        Watched s.streams (f watch) ∧ ∀ r ∈ new, r.late = false → Told rendering s.streams r := by
    intro f hpc ht
    refine ⟨f, [], by rw [ht, List.append_nil]; rfl, fun _ hfilled => ?_, by simp⟩
    rw [hpc] at hfilled
    cases hfilled
  unfold watchStep at hstep
  split at hstep
  all_goals rename_i hpc
  · refine hquiet ?_ (Option.some.inj hstep).symm
    dsimp only
    split <;> rfl
  · refine hquiet ?_ (Option.some.inj hstep).symm
    split
    · rfl
    · split <;> rfl
  · refine hquiet ?_ (Option.some.inj hstep).symm
    dsimp only
    split <;> rfl
  · refine ⟨_, [], by rw [← Option.some.inj hstep, List.append_nil]; rfl, fun hlate _ => ?_, by simp⟩
    simp only [direct, hw, hx, Option.all_some, Bool.or_eq_true] at hdirect
    have hsettled := hdirect.resolve_left (by simpa using hlate)
    obtain ⟨hdone, hnone, houtcome, _⟩ := settled_eq_true_iff.mp hsettled
    have hended := (reachable_joined hs.streams).done _ h hx hdone
    have hfinished := (reachable_legible hs.streams _ h hx).finished (by rw [hended]; rfl)
    refine ⟨h, ⟨hx, hended, hdone, hnone⟩, houtcome, reply_settled hsettled, ?_⟩
    simp only [hfinished, if_true, reply_settled hsettled]
  · rename_i goes returns
    have hfilled : Watched s.streams { watch with pc := if returns then .recording else .crashed } :=
      fun hlate _ => hwatched hlate (by rw [hpc]; rfl)
    cases goes with
    | false => exact ⟨_, [], by rw [← Option.some.inj hstep, List.append_nil]; rfl, hfilled, by simp⟩
    | true =>
        refine ⟨_, [_], (Option.some.inj hstep).symm, hfilled, ?_⟩
        intro r hr hlate
        rw [List.mem_singleton] at hr
        subst hr
        obtain ⟨h', hsole, _, hreply, hpreview⟩ := hwatched hlate (by rw [hpc]; rfl)
        have hsame : h' = h := Option.some.inj (hsole.here.symm.trans hx)
        subst hsame
        refine ⟨h', hsole, ?_, fun shown hshown => by cases hshown⟩
        simp only [Report.Carries, mailedResult, hreply]
        by_cases hempty : h'.finalText = ""
        · rw [hpreview, hempty]
          rfl
        · rw [if_pos hempty, if_neg hempty]
  · rename_i ok
    split at hstep
    · exact hquiet rfl (Option.some.inj hstep).symm
    · cases ok with
      | false =>
          refine ⟨_, [], by rw [← Option.some.inj hstep, List.append_nil]; rfl, fun hlate _ => ?_, by simp⟩
          exact hwatched hlate (by rw [hpc]; rfl)
      | true =>
          refine ⟨fun watch => { watch with pc := .over }, [_], (Option.some.inj hstep).symm, fun _ hfilled => ?_, ?_⟩
          · cases hfilled
          · intro r hr hlate
            rw [List.mem_singleton] at hr
            subst hr
            obtain ⟨h', hsole, houtcome, _, hpreview⟩ := hwatched hlate (by rw [hpc]; rfl)
            exact ⟨h', hsole, hpreview, fun _ _ => houtcome⟩
  · rename_i ok
    have hover : Watched s.streams { watch with status := .error, pc := .over } := fun _ hfilled => by cases hfilled
    split at hstep
    · refine ⟨fun watch => { watch with status := .error, pc := .over }, [_], (Option.some.inj hstep).symm, hover, ?_⟩
      intro r hr hlate
      rw [List.mem_singleton] at hr
      subst hr
      obtain ⟨h', hsole, _, _, hpreview⟩ := hwatched hlate (by rw [hpc]; rfl)
      exact ⟨h', hsole, hpreview, fun shown hshown => by cases hshown⟩
    · exact ⟨_, [], by rw [← Option.some.inj hstep, List.append_nil]; rfl, hover, by simp⟩
  · cases hstep

theorem relayStep_effect {s t : Desk} {r : Nat} {relay : Relay} {step : RelayStep}
    (hs : Desked reading classify rendering s) (hr : s.relays[r]? = some relay) (hdirect : direct (V := V) s (.read r step) = true)
    (hstep : relayStep rendering s r relay step = some t) :
    ∃ f new, t = { s with relays := s.relays.modify r f, reports := s.reports ++ new } ∧
      Relayed s.streams (f relay) ∧ ∀ r ∈ new, r.late = false → Told rendering s.streams r := by
  obtain ⟨hwechat, hqueue, hresult⟩ := hs.relays relay (List.mem_of_getElem? hr)
  have hquiet : ∀ {f : Relay → Relay}, Relayed s.streams (f relay) → t = s.relayed r f →
      ∃ f new, t = { s with relays := s.relays.modify r f, reports := s.reports ++ new } ∧
        Relayed s.streams (f relay) ∧ ∀ r ∈ new, r.late = false → Told rendering s.streams r := by
    intro f hrelayed ht
    exact ⟨f, [], by rw [ht, List.append_nil]; rfl, hrelayed, by simp⟩
  unfold relayStep at hstep
  split at hstep
  all_goals rename_i hpc
  · split at hstep
    · cases hstep
    · rename_i content rest heq
      refine hquiet ⟨hwechat, fun text hmem => hqueue text ?_, fun _ _ => hqueue content ?_⟩ (Option.some.inj hstep).symm
      · rw [heq]
        exact List.mem_cons_of_mem _ hmem
      · rw [heq]
        exact List.mem_cons_self
    · rename_i raw rest heq
      have hrest : ∀ text, .done text ∈ rest → Final s.streams relay.root text := by
        intro text hmem
        exact hqueue text (by rw [heq]; exact List.mem_cons_of_mem _ hmem)
      refine hquiet ?_ (Option.some.inj hstep).symm
      split
      · exact ⟨hwechat, hrest, hresult⟩
      · exact ⟨hwechat, hrest, hresult⟩
  · split at hstep
    · refine hquiet ⟨hwechat, hqueue, fun _ hlate => ?_⟩ (Option.some.inj hstep).symm
      cases hlate
    · cases hstep
  · rename_i ok
    have hover : Relayed s.streams { relay with pc := .over } := ⟨hwechat, hqueue, fun hpc _ => by cases hpc⟩
    cases ok with
    | false => exact hquiet hover (Option.some.inj hstep).symm
    | true =>
        refine ⟨_, [_], (Option.some.inj hstep).symm, hover, ?_⟩
        intro r' hr' hlate
        rw [List.mem_singleton] at hr'
        subst hr'
        obtain ⟨h, hx, _, htext⟩ := hresult hpc hlate
        obtain ⟨h', hx', hsource⟩ := hwechat
        rw [hx] at hx'
        cases hx'
        have hjoined := reachable_joined hs.streams
        simp only [direct, hr, hx, Option.all_some, Bool.or_eq_true] at hdirect
        have hdone := hdirect.resolve_left (by simpa using hlate)
        have hnone := wechat_alone (reachable_chained hs.streams) hjoined hx hsource
        refine ⟨h, ⟨hx, hjoined.done _ h hx hdone, hdone, hnone⟩, ⟨relay.sent, ?_⟩, fun shown hshown => by cases hshown⟩
        rw [htext]
  · cases hstep

theorem mem_mirrorStreamItem {queue : List Item} {item other : Item} (h : other ∈ mirrorStreamItem queue item) :
    other ∈ queue ∨ other = item := by
  unfold mirrorStreamItem at h
  rw [List.mem_append, List.mem_singleton] at h
  exact h.imp_left List.mem_of_mem_drop

theorem mirrors_relayed {s t : State} {a : Action V} {relays : List Relay} (hs : (machine reading classify).Reachable s)
    (hrelays : ∀ relay ∈ relays, Relayed s relay) (ha : Streams.next reading classify s a = some t) :
    ∀ relay ∈ mirrors s relays a, Relayed t relay := by
  have hold : ∀ relay ∈ relays, Relayed t relay := fun relay hmem => (hrelays relay hmem).next (reachable_chained hs) ha
  cases a with
  | thread x input =>
      simp only [Streams.next] at ha
      obtain ⟨h, hx, hstep⟩ := Option.bind_eq_some_iff.mp ha
      simp only [mirrors, hx, Option.bind_some]
      split
      · exact hold
      · rename_i item hitem
        intro relay' hmem
        obtain ⟨relay, hrelay, rfl⟩ := List.mem_map.mp hmem
        obtain ⟨hwechat, hqueue, hresult⟩ := hold relay hrelay
        split
        · rename_i hroot
          refine ⟨hwechat, fun text hmem => ?_, hresult⟩
          rcases mem_mirrorStreamItem hmem with hbefore | rfl
          · exact hqueue text hbefore
          · rw [hroot]
            exact mirrored_done (reachable_legible hs x h hx) hx hstep hitem
        · exact ⟨hwechat, hqueue, hresult⟩
  | _ => exact hold

theorem Desked.next {s t : Desk} {a : DeskAction V} (hs : Desked reading classify rendering s) (hdirect : direct s a = true)
    (h : Desk.next reading classify rendering s a = some t) : Desked reading classify rendering t := by
  have hchained := reachable_chained hs.streams
  cases a with
  | stream a =>
      simp only [Desk.next] at h
      obtain ⟨u, ha, rfl⟩ := Option.map_eq_some_iff.mp h
      exact {
        streams := hs.streams.next ha
        watches := fun watch hmem => (hs.watches watch hmem).next hchained ha
        relays := mirrors_relayed hs.streams hs.relays ha
        reports := fun r hmem hlate => (hs.reports r hmem hlate).next hchained ha }
  | fire sessionId notifyEmail =>
      simp only [Desk.next] at h
      split at h
      · cases h
      · obtain ⟨u, ha, rfl⟩ := Option.map_eq_some_iff.mp h
        have hnext : (machine reading classify).next s.streams (.submit "scheduled_task" sessionId true) = some u := ha
        refine ⟨hs.streams.next hnext, fun watch hmem => ?_, fun relay hmem => (hs.relays relay hmem).next hchained ha,
          fun r hmem hlate => (hs.reports r hmem hlate).next hchained ha⟩
        rcases List.mem_append.mp hmem with hold | hnew
        · exact (hs.watches watch hold).next hchained ha
        · rw [List.mem_singleton] at hnew
          subst hnew
          intro _ hfilled
          cases hfilled
  | relay sessionId =>
      simp only [Desk.next] at h
      obtain ⟨u, ha, rfl⟩ := Option.map_eq_some_iff.mp h
      have hnext : (machine reading classify).next s.streams (.submit "wechat" sessionId true) = some u := ha
      refine ⟨hs.streams.next hnext, fun watch hmem => (hs.watches watch hmem).next hchained ha, fun relay hmem => ?_,
        fun r hmem hlate => (hs.reports r hmem hlate).next hchained ha⟩
      rcases List.mem_append.mp hmem with hold | hnew
      · exact (hs.relays relay hold).next hchained ha
      · rw [List.mem_singleton] at hnew
        subst hnew
        simp only [Streams.next] at ha
        split at ha
        · cases ha
        · cases ha
          refine ⟨⟨_, List.getElem?_concat_length, rfl⟩, by simp, fun hpc _ => by cases hpc⟩
  | stop =>
      cases h
      exact ⟨hs.streams, hs.watches, hs.relays, hs.reports⟩
  | reset =>
      simp only [Desk.next] at h
      split at h
      · cases h
        exact ⟨hs.streams, hs.watches, hs.relays, hs.reports⟩
      · cases h
  | watch w step =>
      simp only [Desk.next] at h
      obtain ⟨watch, hw, h⟩ := Option.bind_eq_some_iff.mp h
      obtain ⟨stream, hx, hstep⟩ := Option.bind_eq_some_iff.mp h
      obtain ⟨f, new, rfl, hwatched, hnew⟩ := watchStep_effect hs hw hx hdirect hstep
      refine ⟨hs.streams, fun watch' hmem => ?_, hs.relays, fun r hmem hlate => ?_⟩
      · rcases Lib.mem_modify_cases hmem with ⟨old, hold, rfl⟩ | hold
        · rw [hw] at hold
          cases hold
          exact hwatched
        · exact hs.watches watch' hold
      · rcases List.mem_append.mp hmem with hold | hadded
        · exact hs.reports r hold hlate
        · exact hnew r hadded hlate
  | read r step =>
      simp only [Desk.next] at h
      obtain ⟨relay, hr, hstep⟩ := Option.bind_eq_some_iff.mp h
      obtain ⟨f, new, rfl, hrelayed, hnew⟩ := relayStep_effect hs hr hdirect hstep
      refine ⟨hs.streams, hs.watches, fun relay' hmem => ?_, fun r hmem hlate => ?_⟩
      · rcases Lib.mem_modify_cases hmem with ⟨old, hold, rfl⟩ | hold
        · rw [hr] at hold
          cases hold
          exact hrelayed
        · exact hs.relays relay' hold
      · rcases List.mem_append.mp hmem with hold | hadded
        · exact hs.reports r hold hlate
        · exact hnew r hadded hlate

theorem reachable_desked {s : Desk} (hs : ((desk reading classify rendering).restrict fun s a => direct s a).Reachable s) :
    Desked reading classify rendering s :=
  hs.invariant ⟨(machine reading classify).reachable_start, by simp [desk, Lib.Machine.restrict],
    by simp [desk, Lib.Machine.restrict], by simp [desk, Lib.Machine.restrict]⟩ fun _ _ _ hd ha =>
    hd.next (Lib.Machine.restrict_next ha).1 (Lib.Machine.restrict_next ha).2

-- What the readers report is what the run of their root came to, once it has come to its end.
theorem reports_logical {s : Desk} (hs : ((desk reading classify rendering).restrict fun s a => direct s a).Reachable s) :
    ∀ r ∈ s.reports, r.late = false → runFinished s.streams r.root = true ∧
      (∃ text, runFinalText s.streams r.root = some text ∧ r.report.Carries rendering text) ∧
      ∀ shown, r.report = .recorded .done shown → runOutcome s.streams r.root ≠ some .failed := by
  intro r hmem hlate
  obtain ⟨h, hsole, hcarries, houtcome⟩ := (reachable_desked hs).reports r hmem hlate
  obtain ⟨hfinished, hresult, htext⟩ := (Closed.last hsole.here hsole.done hsole.last).values
  refine ⟨hfinished, ⟨h.finalText, htext, hcarries⟩, fun shown hshown => ?_⟩
  rw [hresult]
  exact houtcome shown hshown

def plainRendering : Rendering where
  turnParts text := ([], text)
  clean text := text

def streamed (actions : List (Action Unit)) : List (DeskAction Unit) := actions.map .stream

def watches (w : Nat) : List (DeskAction Unit) :=
  [.watch w .look, .watch w .leave, .watch w .finalize, .watch w (.record true)]

def answered : List (DeskAction Unit) :=
  [DeskAction.fire "s" false, .relay "wx"] ++ streamed (finishes 0 "report" ++ [.thread 0 .step] ++ ends 0) ++ watches 0 ++
    streamed (finishes 1 "hello" ++ [Action.thread 1 .step] ++ ends 1) ++ [DeskAction.read 0 (.take false true), .read 0 (.answer true)]

theorem reports_logical_answered : ∃ s : Desk,
    ((desk plainReading gatewayError plainRendering).restrict fun s a => direct s a).run {} answered = some s ∧
    s.reports = [⟨0, false, .recorded .done "report"⟩, ⟨1, false, .message "hello\n\n\n\n[任务已完成]"⟩] ∧
    runFinished s.streams 0 = true := by
  have hrun : (((desk plainReading gatewayError plainRendering).restrict fun s a => direct s a).run {} answered).map
      Desk.reports = some [⟨0, false, .recorded .done "report"⟩, ⟨1, false, .message "hello\n\n\n\n[任务已完成]"⟩] := by
    decide
  obtain ⟨s, hrun, hreports⟩ := Option.map_eq_some_iff.mp hrun
  exact ⟨s, hrun, hreports, (reports_logical ⟨answered, hrun⟩ _ (by rw [hreports]; exact List.mem_cons_self) rfl).1⟩

-- A scheduled run whose first stream fails: it is recorded as done while the retry is still to come.
def retriedTask : List (DeskAction Unit) :=
  [DeskAction.fire "s" false] ++ streamed (finishes 0 "!!!Error: HTTP 503") ++ watches 0 ++
    streamed (retries 0 ++ ends 0 ++ finishes 1 "done" ++ [Action.thread 1 .step] ++ ends 1)

theorem first_attempt_recorded : ¬ ∀ s : Desk, (desk plainReading gatewayError plainRendering).Reachable s →
    ∀ r ∈ s.reports, r.late = false → runFinished s.streams r.root = true ∧
      (∃ text, runFinalText s.streams r.root = some text ∧ r.report.Carries plainRendering text) ∧
      ∀ shown, r.report = .recorded .done shown → runOutcome s.streams r.root ≠ some .failed := by
  intro h
  have hrun : ((desk plainReading gatewayError plainRendering).run {} retriedTask).map
      (fun s => (s.reports, runFinalText s.streams 0)) =
      some ([⟨0, false, .recorded .done "!!!Error: HTTP 503"⟩], some "done") := by decide +kernel
  obtain ⟨s, hrun, hfacts⟩ := Option.map_eq_some_iff.mp hrun
  obtain ⟨hreports, hfinal⟩ := Prod.mk.inj hfacts
  obtain ⟨_, ⟨text, htext, hcarries⟩, _⟩ := h s ⟨retriedTask, hrun⟩ _ (by rw [hreports]; exact List.mem_cons_self) rfl
  rw [hfinal] at htext
  cases htext
  have hsame : "!!!Error: HTTP 503" = preview "done" := hcarries
  exact absurd hsame (by decide)

end GaHub.Streams
