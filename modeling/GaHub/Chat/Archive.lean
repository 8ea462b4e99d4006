import GaHub.Chat
import GaHub.Lib.Lists
import Mathlib.Data.List.Induction

namespace GaHub.Chat

-- An item of an archive page, with the identity the server has stamped on it.
structure Item where
  id : String
  ordinal : Nat
  role : Role
  content : String
  turnSegs : Option (List String) := none
  timestamp : Option Time := none
  runId : Option RunId := none
  logicalId : Option String := none
  streamId : Option StreamId := none
  outcome : Option Outcome := none
  deriving DecidableEq

-- A run as the sidecar of an archive records it: the items from `start` on, and before `stop` where it has one.
structure RunRecord where
  runId : RunId
  logicalId : String
  streamId : StreamId
  start : Nat
  stop : Option Nat
  outcome : Option Outcome
  deriving DecidableEq

-- The sidecar. The digests that decide which records are still valid are left to the caller.
structure Identity where
  runs : List RunRecord
  nodup : (runs.map RunRecord.runId).Nodup

namespace Identity

def empty : Identity := ⟨[], List.nodup_nil⟩

def valid (identity : Identity) (keep : RunRecord → Bool) : Identity where
  runs := identity.runs.filter keep
  nodup := identity.nodup.sublist (List.filter_sublist.map _)

def close (ordinal : Nat) (record : RunRecord) : RunRecord :=
  if record.stop.isNone then { record with stop := some ordinal } else record

theorem map_runId_map (f : RunRecord → RunRecord) (hf : ∀ record, (f record).runId = record.runId)
    (runs : List RunRecord) : (runs.map f).map RunRecord.runId = runs.map RunRecord.runId := by
  rw [List.map_map]
  exact List.map_congr_left fun record _ => hf record

-- `begin_run`: a continuation belongs to the run that is there already.
def beginRun (identity : Identity) (keep : RunRecord → Bool) (runId : RunId) (logicalId : String)
    (streamId : StreamId) (ordinal : Nat) : Identity :=
  if h : runId ∈ (identity.valid keep).runs.map RunRecord.runId then identity
  else
    { runs := (identity.valid keep).runs.map (close ordinal) ++
        [{ runId, logicalId, streamId, start := ordinal, stop := none, outcome := none }]
      nodup := by
        have hclose : ∀ record, (close ordinal record).runId = record.runId := by
          intro record
          unfold close
          split <;> rfl
        rw [List.map_append, map_runId_map _ hclose]
        refine List.Nodup.append (identity.valid keep).nodup (List.nodup_singleton _) ?_
        simpa using h }

-- `finish_run`
def finishRun (identity : Identity) (keep : RunRecord → Bool) (runId : RunId) (ordinal : Nat)
    (outcome : Option Outcome) : Identity where
  runs := identity.runs.map fun record =>
    if record.runId = runId ∧ keep record then { record with stop := some ordinal, outcome } else record
  nodup := by
    rw [map_runId_map _ fun record => (by split <;> rfl)]
    exact identity.nodup

-- The newest record that has the ordinal.
def find (identity : Identity) (ordinal : Nat) : Option RunRecord :=
  identity.runs.reverse.find? fun record =>
    decide (record.start ≤ ordinal) && record.stop.all fun stop => decide (ordinal < stop)

def stamp (identity : Identity) (item : Item) : Item :=
  match identity.find item.ordinal with
  | none => item
  | some record =>
      { item with
        runId := some record.runId
        logicalId := some record.logicalId
        streamId := some record.streamId
        outcome := record.outcome }

-- `project_identity`, over the records that are valid
def projectIdentity (identity : Identity) (items : List Item) : List Item := items.map identity.stamp

end Identity

-- A page as the archive gives it: in order, each item with an id of its own, and no identity yet.
structure Page where
  items : List Item
  ordered : items.Pairwise fun x y => x.ordinal < y.ordinal
  distinct : (items.map Item.id).Nodup
  legacy : ∀ item ∈ items, item.runId = none ∧ item.logicalId = none ∧ item.streamId = none

namespace Item

variable (item : Item)

-- The run of an item, where it has one.
def run : Option RunId := truthy item.runId

def segment : ReplySegment where
  streamId := (truthy item.streamId).getD ("history:" ++ item.id)
  content := item.content
  turnSegments := validTurnSegments item.turnSegs item.content
  archived := true
  done := true

def toMessage : ChatMsg where
  role := item.role
  content := item.content
  turnSegments := some (if item.role = .assistant then validTurnSegments item.turnSegs item.content else none)
  streamId := some (some ("history:" ++ item.id))
  source := some (some "history")
  logicalId := some item.logicalId
  runId := some item.runId
  outcome := some item.outcome
  stopped := some (some (decide (item.outcome = some .cancelled)))
  segments := some (if item.run.isSome ∧ item.role = .assistant then some [item.segment] else none)
  timestamp := some item.timestamp

end Item

section Coalesce

variable (turnStarts : String → List Nat)

def distinctParts (seen : List StreamId) : List ReplySegment → List ReplySegment
  | [] => []
  | part :: rest =>
      if part.streamId ∈ seen then distinctParts seen rest
      else part :: distinctParts (part.streamId :: seen) rest

def joinAnswer (previous msg : ChatMsg) : ChatMsg :=
  let segments := distinctParts [] (previous.parts ++ msg.parts)
  { previous with
    segments := some (some segments)
    content := replySegmentsContent segments
    turnSegments := some (replySegmentsTurns turnStarts segments) }

-- The message keeps its place in the list under this key.
def ChatMsg.runKey (m : ChatMsg) : Option (RunId × Role) := m.run.map fun run => (run, m.role)

def coalesceStep (out : List ChatMsg) (msg : ChatMsg) : List ChatMsg :=
  match msg.runKey with
  | none => out ++ [msg]
  | some key =>
      match out.findIdx? fun m => decide (m.runKey = some key) with
      | none => out ++ [msg]
      | some index =>
          -- continuation prompts belong to the same run, not a new user question
          if msg.role = .assistant then out.modify index fun previous => joinAnswer turnStarts previous msg
          else out

def coalesceArchiveRuns (projected : List ChatMsg) : List ChatMsg := projected.foldl (coalesceStep turnStarts) []

def historyToMessages (items : List Item) : List ChatMsg :=
  coalesceArchiveRuns turnStarts
    (((items.filter fun item => decide (item.role = .user ∨ item.role = .assistant)).insertionSort
      fun x y => x.ordinal ≤ y.ordinal).map Item.toMessage)

end Coalesce

section Coalesced

open Lib

variable {turnStarts : String → List Nat} {key : RunId × Role} {out : List ChatMsg} {msg : ChatMsg}

@[simp] theorem joinAnswer_runKey (previous msg : ChatMsg) :
    (joinAnswer turnStarts previous msg).runKey = previous.runKey := rfl

-- What a later message of a run does to the one that stands for it.
def absorb (turnStarts : String → List Nat) (previous msg : ChatMsg) : ChatMsg :=
  if msg.role = .assistant then joinAnswer turnStarts previous msg else previous

@[simp] theorem absorb_runKey (previous msg : ChatMsg) : (absorb turnStarts previous msg).runKey = previous.runKey := by
  unfold absorb
  split <;> rfl

-- A message is added, or it is absorbed by the first one with its key.
inductive Coalesced (turnStarts : String → List Nat) (out : List ChatMsg) (msg : ChatMsg) : List ChatMsg → Prop where
  | added (hnew : ∀ key, msg.runKey = some key → ∀ m ∈ out, m.runKey ≠ some key) :
      Coalesced turnStarts out msg (out ++ [msg])
  | absorbed (key : RunId × Role) (front back : List ChatMsg) (m : ChatMsg) (hkey : msg.runKey = some key)
      (hm : m.runKey = some key) (hout : out = front ++ m :: back) :
      Coalesced turnStarts out msg (front ++ absorb turnStarts m msg :: back)

theorem coalesceStep_cases (turnStarts : String → List Nat) (out : List ChatMsg) (msg : ChatMsg) :
    Coalesced turnStarts out msg (coalesceStep turnStarts out msg) := by
  unfold coalesceStep
  cases hkey : msg.runKey with
  | none =>
      refine .added fun key h => ?_
      cases hkey.symm.trans h
  | some key =>
      dsimp only
      cases hfind : out.findIdx? fun m => decide (m.runKey = some key) with
      | none =>
          refine .added fun key' h m hm => ?_
          cases hkey.symm.trans h
          have hnot := List.findIdx?_eq_none_iff.mp hfind m hm
          simpa using hnot
      | some index =>
          obtain ⟨front, m, back, hout, _, hm, _, hmodify⟩ := exists_of_findIdx? hfind
          have habsorbed : Coalesced turnStarts out msg _ := .absorbed key front back m hkey (of_decide_eq_true hm) hout
          unfold absorb at habsorbed
          dsimp only
          split
          · rename_i hrole
            rw [if_pos hrole] at habsorbed
            rw [hmodify]
            exact habsorbed
          · rename_i hrole
            rw [if_neg hrole, ← hout] at habsorbed
            exact habsorbed

def combine (turnStarts : String → List Nat) : List ChatMsg → List ChatMsg
  | [] => []
  | m :: rest => [rest.foldl (absorb turnStarts) m]

theorem combine_concat (l : List ChatMsg) (msg : ChatMsg) : combine turnStarts (l ++ [msg]) =
    if l = [] then [msg] else (combine turnStarts l).map fun m => absorb turnStarts m msg := by
  cases l with
  | nil => rfl
  | cons m rest => simp [combine]

theorem combine_length (turnStarts : String → List Nat) (l : List ChatMsg) : (combine turnStarts l).length ≤ 1 := by
  cases l <;> simp [combine]

-- By induction on the messages: those with a key come to one, the others stay.
theorem coalesce_filter (l : List ChatMsg) (key : RunId × Role) :
    (coalesceArchiveRuns turnStarts l).filter (fun m => decide (m.runKey = some key)) =
      combine turnStarts (l.filter fun m => decide (m.runKey = some key)) := by
  induction l using List.reverseRecOn with
  | nil => rfl
  | append_singleton l msg ih =>
      have hstep : coalesceArchiveRuns turnStarts (l ++ [msg]) =
          coalesceStep turnStarts (coalesceArchiveRuns turnStarts l) msg := by
        simp [coalesceArchiveRuns]
      rw [hstep, List.filter_append]
      have hcases := coalesceStep_cases turnStarts (coalesceArchiveRuns turnStarts l) msg
      generalize coalesceStep turnStarts (coalesceArchiveRuns turnStarts l) msg = next at hcases
      generalize coalesceArchiveRuns turnStarts l = out at hcases ih
      by_cases hmsg : msg.runKey = some key
      · have hsingle : [msg].filter (fun m => decide (m.runKey = some key)) = [msg] := by simp [hmsg]
        rw [hsingle, combine_concat]
        cases hcases with
        | added hnew =>
            have hnone : out.filter (fun m => decide (m.runKey = some key)) = [] := by
              refine List.filter_eq_nil_iff.mpr fun m hm => ?_
              simpa using hnew key hmsg m hm
            have hempty : l.filter (fun m => decide (m.runKey = some key)) = [] := by
              rw [hnone] at ih
              cases hl : l.filter (fun m => decide (m.runKey = some key)) with
              | nil => rfl
              | cons m rest =>
                  rw [hl] at ih
                  cases ih
            rw [List.filter_append, hnone, hsingle, hempty, if_pos rfl]
            rfl
        | absorbed key' front back m hkey hm hout =>
            cases hmsg.symm.trans hkey
            have hone := combine_length turnStarts (l.filter fun m => decide (m.runKey = some key))
            rw [← ih, hout, List.filter_append, List.filter_cons_of_pos (by simpa using hm)] at hone
            simp only [List.length_append, List.length_cons] at hone
            have hfront : front.filter (fun m => decide (m.runKey = some key)) = [] := List.length_eq_zero_iff.mp (by omega)
            have hback : back.filter (fun m => decide (m.runKey = some key)) = [] := List.length_eq_zero_iff.mp (by omega)
            have hsome : out.filter (fun m => decide (m.runKey = some key)) = [m] := by
              rw [hout, List.filter_append, List.filter_cons_of_pos (by simpa using hm), hfront, hback]
              rfl
            have hne : l.filter (fun m => decide (m.runKey = some key)) ≠ [] := by
              intro hempty
              rw [hempty, hsome] at ih
              cases ih
            rw [if_neg hne, ← ih, hsome, List.filter_append,
              List.filter_cons_of_pos (by simpa using hm), hfront, hback]
            rfl
      · have hsingle : [msg].filter (fun m => decide (m.runKey = some key)) = [] := by simp [hmsg]
        rw [hsingle, List.append_nil, ← ih]
        cases hcases with
        | added hnew => rw [List.filter_append, hsingle, List.append_nil]
        | absorbed key' front back m hkey hm hout =>
            have hother : m.runKey ≠ some key := by
              rw [hm, ← hkey]
              exact hmsg
            rw [hout, List.filter_append, List.filter_append, List.filter_cons_of_neg (by simpa using hother),
              List.filter_cons_of_neg (by simpa using hother)]

theorem coalesce_legacy (turnStarts : String → List Nat) (l : List ChatMsg) :
    (coalesceArchiveRuns turnStarts l).filter (fun m => decide (m.runKey = none)) =
      l.filter fun m => decide (m.runKey = none) := by
  induction l using List.reverseRecOn with
  | nil => rfl
  | append_singleton l msg ih =>
      have hstep : coalesceArchiveRuns turnStarts (l ++ [msg]) =
          coalesceStep turnStarts (coalesceArchiveRuns turnStarts l) msg := by
        simp [coalesceArchiveRuns]
      rw [hstep, List.filter_append, ← ih]
      have hcases := coalesceStep_cases turnStarts (coalesceArchiveRuns turnStarts l) msg
      generalize coalesceStep turnStarts (coalesceArchiveRuns turnStarts l) msg = next at hcases
      generalize coalesceArchiveRuns turnStarts l = out at hcases
      cases hcases with
      | added _ => rw [List.filter_append]
      | absorbed key front back m hkey hm hout =>
          have hsingle : [msg].filter (fun m => decide (m.runKey = none)) = [] := by simp [hkey]
          rw [hsingle, List.append_nil, hout, List.filter_append, List.filter_append,
            List.filter_cons_of_neg (by simp [hm]), List.filter_cons_of_neg (by simp [hm])]

end Coalesced

section Parts

theorem distinctParts_of_nodup (parts : List ReplySegment) (seen : List StreamId)
    (hnodup : (parts.map ReplySegment.streamId).Nodup) (hseen : ∀ part ∈ parts, part.streamId ∉ seen) :
    distinctParts seen parts = parts := by
  induction parts generalizing seen with
  | nil => rfl
  | cons part rest ih =>
      simp only [List.map_cons, List.nodup_cons, List.mem_map, not_exists, not_and] at hnodup
      have hrest := ih (part.streamId :: seen) hnodup.2 fun other hother => by
        simp only [List.mem_cons, not_or]
        exact ⟨hnodup.1 other hother, hseen other (List.mem_cons_of_mem _ hother)⟩
      rw [distinctParts, if_neg (hseen part (by simp)), hrest]

theorem distinctParts_of_seen (parts : List ReplySegment) (seen : List StreamId)
    (hseen : ∀ part ∈ parts, part.streamId ∈ seen) : distinctParts seen parts = [] := by
  induction parts with
  | nil => rfl
  | cons part rest ih =>
      rw [distinctParts, if_pos (hseen part (by simp))]
      exact ih fun other hother => hseen other (List.mem_cons_of_mem _ hother)

theorem foldl_absorb_nodup (turnStarts : String → List Nat) (m : ChatMsg) (rest : List ChatMsg) (hrole : ∀ x ∈ rest, x.role = .assistant)
    (hnodup : ((m :: rest).flatMap ChatMsg.parts |>.map ReplySegment.streamId).Nodup) :
    (rest.foldl (absorb turnStarts) m).parts = (m :: rest).flatMap ChatMsg.parts := by
  induction rest generalizing m with
  | nil => simp
  | cons x rest ih =>
      have hx : absorb turnStarts m x = joinAnswer turnStarts m x := if_pos (hrole x (by simp))
      have hpair : ((m.parts ++ x.parts).map ReplySegment.streamId).Nodup := by
        refine hnodup.sublist (List.Sublist.map _ ?_)
        simp only [List.flatMap_cons, ← List.append_assoc]
        exact List.sublist_append_left _ _
      have hparts : (joinAnswer turnStarts m x).parts = m.parts ++ x.parts :=
        distinctParts_of_nodup _ _ hpair (by simp)
      rw [List.foldl_cons, hx, ih _ (fun y hy => hrole y (List.mem_cons_of_mem _ hy))]
      · simp [hparts]
      · simpa [hparts] using hnodup

theorem foldl_absorb_same (turnStarts : String → List Nat) (sid : StreamId) (m : ChatMsg) (part : ReplySegment) (hm : m.parts = [part])
    (hsid : part.streamId = sid) (rest : List ChatMsg)
    (hrest : ∀ x ∈ rest, ∀ other ∈ x.parts, other.streamId = sid) :
    (rest.foldl (absorb turnStarts) m).parts = [part] := by
  induction rest generalizing m with
  | nil => exact hm
  | cons x rest ih =>
      refine ih (absorb turnStarts m x) ?_ fun y hy => hrest y (List.mem_cons_of_mem _ hy)
      unfold absorb
      split
      · have hnone : distinctParts [part.streamId] x.parts = [] :=
          distinctParts_of_seen _ _ fun other hother => by simp [hsid, hrest x (by simp) other hother]
        change distinctParts [] (m.parts ++ x.parts) = [part]
        rw [hm]
        simp [distinctParts, hnone]
      · exact hm

end Parts

def Item.answers (r : RunId) (item : Item) : Bool := decide (item.role = .assistant ∧ item.run = some r)

-- Each run has one answer, made of the contents of its items in order; the other items have a message each.
structure AnswersKept (items : List Item) (msgs : List ChatMsg) : Prop where
  runs : ∀ r, items.filter (Item.answers r) ≠ [] →
    (msgs.filter fun m => decide (m.runKey = some (r, .assistant))).map (fun m => m.parts.map ReplySegment.content) =
      [(items.filter (Item.answers r)).map Item.content]
  legacy : msgs.filter (fun m => decide (m.run = none)) =
    (items.filter fun item => decide ((item.role = .user ∨ item.role = .assistant) ∧ item.run = none)).map Item.toMessage

-- The items of a page that belong to the answer of a recorded run.
def Identity.answers (identity : Identity) (record : RunRecord) (page : Page) : List Item :=
  page.items.filter fun item => decide (item.role = .assistant ∧ identity.find item.ordinal = some record)

section Pages

variable {turnStarts : String → List Nat} {identity : Identity}

@[simp] theorem toMessage_run (item : Item) : item.toMessage.run = item.run := rfl

theorem toMessage_runKey (item : Item) : item.toMessage.runKey = item.run.map fun run => (run, item.role) := rfl

theorem runKey_eq_none (m : ChatMsg) : m.runKey = none ↔ m.run = none := by simp [ChatMsg.runKey]

@[simp] theorem stamp_kept (item : Item) :
    (identity.stamp item).ordinal = item.ordinal ∧ (identity.stamp item).id = item.id ∧
      (identity.stamp item).role = item.role ∧ (identity.stamp item).content = item.content := by
  unfold Identity.stamp
  split <;> exact ⟨rfl, rfl, rfl, rfl⟩

theorem history_eq {items : List Item} (hordered : items.Pairwise fun x y => x.ordinal < y.ordinal) :
    historyToMessages turnStarts items = coalesceArchiveRuns turnStarts
      ((items.filter fun item => decide (item.role = .user ∨ item.role = .assistant)).map Item.toMessage) := by
  unfold historyToMessages
  have hsorted := (hordered.imp fun h => Nat.le_of_lt h).sublist
    (List.filter_sublist (p := fun item : Item => decide (item.role = .user ∨ item.role = .assistant)))
  rw [List.Pairwise.insertionSort_eq hsorted]

theorem projected_ordered (page : Page) :
    (identity.projectIdentity page.items).Pairwise fun x y => x.ordinal < y.ordinal := by
  unfold Identity.projectIdentity
  rw [List.pairwise_map]
  refine page.ordered.imp fun h => ?_
  simpa using h

theorem answer_messages (items : List Item) (r : RunId) :
    ((items.filter fun item => decide (item.role = .user ∨ item.role = .assistant)).map Item.toMessage).filter
        (fun m => decide (m.runKey = some (r, .assistant))) =
      (items.filter (Item.answers r)).map Item.toMessage := by
  rw [List.filter_map, List.filter_filter]
  congr 1
  refine List.filter_congr fun item _ => ?_
  simp only [Function.comp_apply, toMessage_runKey, Item.answers, Option.map_eq_some_iff, Prod.mk.injEq,
    Bool.decide_and, Bool.decide_or]
  by_cases hrole : item.role = .assistant
  · simp [hrole]
  · simp [hrole]

theorem answer_parts {item : Item} {r : RunId} (h : Item.answers r item = true) :
    item.toMessage.parts = [item.segment] := by
  obtain ⟨hrole, hrun⟩ := of_decide_eq_true h
  simp [ChatMsg.parts, Item.toMessage, hrole, hrun]

theorem find_mem {ordinal : Nat} {record : RunRecord} (h : identity.find ordinal = some record) :
    record ∈ identity.runs := List.mem_reverse.mp (List.mem_of_find?_eq_some h)

theorem record_unique {record other : RunRecord} (h : record ∈ identity.runs) (h' : other ∈ identity.runs)
    (heq : record.runId = other.runId) : record = other :=
  List.inj_on_of_nodup_map identity.nodup h h' heq

theorem stamp_run {item : Item} (hlegacy : item.runId = none) {record : RunRecord} (hrecord : record ∈ identity.runs)
    (hname : record.runId ≠ "") :
    (identity.stamp item).run = some record.runId ↔ identity.find item.ordinal = some record := by
  unfold Identity.stamp
  cases hfind : identity.find item.ordinal with
  | none => simp [Item.run, hlegacy, truthy]
  | some found =>
      simp only [Item.run, truthy, Option.some.injEq, Option.filter_eq_some_iff, decide_eq_true_eq]
      constructor
      · intro h
        exact record_unique (find_mem hfind) hrecord h.1
      · intro h
        subst h
        exact ⟨rfl, hname⟩

theorem stamped_answers (page : Page) {record : RunRecord} (hrecord : record ∈ identity.runs) (hname : record.runId ≠ "") :
    (identity.projectIdentity page.items).filter (Item.answers record.runId) =
      (identity.answers record page).map identity.stamp := by
  unfold Identity.projectIdentity Identity.answers
  rw [List.filter_map]
  congr 1
  refine List.filter_congr fun item hitem => ?_
  simp only [Function.comp_apply, Item.answers, (stamp_kept item).2.2.1,
    stamp_run (page.legacy item hitem).1 hrecord hname]

theorem stamped_segment {page : Page} {record : RunRecord} {item : Item} (h : item ∈ identity.answers record page) :
    (identity.stamp item).segment.streamId =
      if record.streamId = "" then "history:" ++ item.id else record.streamId := by
  have hfind := (of_decide_eq_true (List.mem_filter.mp h).2).2
  simp only [Item.segment, Identity.stamp, hfind, truthy, Option.filter_some]
  by_cases hempty : record.streamId = ""
  · simp [hempty]
  · simp [hempty]

theorem run_kept_iff (page : Page) {record : RunRecord} (hrecord : record ∈ identity.runs) (hname : record.runId ≠ "")
    (hsome : identity.answers record page ≠ []) :
    (combine turnStarts (((identity.answers record page).map identity.stamp).map Item.toMessage)).map
        (fun m => m.parts.map ReplySegment.content) =
      [((identity.answers record page).map identity.stamp).map Item.content] ↔
      (record.streamId ≠ "" → (identity.answers record page).length ≤ 1) := by
  have hids : ((identity.answers record page).map Item.id).Nodup := page.distinct.sublist (List.filter_sublist.map _)
  have hparts : ∀ item ∈ identity.answers record page,
      (identity.stamp item).toMessage.parts = [(identity.stamp item).segment] := by
    intro item hitem
    have hin : identity.stamp item ∈ (identity.projectIdentity page.items).filter (Item.answers record.runId) := by
      rw [stamped_answers page hrecord hname]
      exact List.mem_map_of_mem hitem
    exact answer_parts (List.mem_filter.mp hin).2
  have hroles : ∀ item ∈ identity.answers record page, (identity.stamp item).toMessage.role = .assistant := by
    intro item hitem
    exact (stamp_kept item).2.2.1.trans (of_decide_eq_true (List.mem_filter.mp hitem).2).1
  have hsids := fun item => @stamped_segment identity page record item
  generalize identity.answers record page = found at hsome hids hparts hroles hsids ⊢
  cases found with
  | nil => exact absurd rfl hsome
  | cons first rest =>
      simp only [List.map_cons, combine, List.map_nil, List.cons.injEq, and_true, List.map_map]
      have hflat : ((first :: rest).map fun item => (identity.stamp item).toMessage).flatMap ChatMsg.parts =
          (first :: rest).map fun item => (identity.stamp item).segment := by
        rw [List.flatMap_map]
        generalize first :: rest = found at hparts
        induction found with
        | nil => rfl
        | cons item found ih =>
            rw [List.flatMap_cons, hparts item (by simp), ih fun item h => hparts item (List.mem_cons_of_mem _ h)]
            rfl
      by_cases hempty : record.streamId = ""
      · have hnodup : ((((first :: rest).map fun item => (identity.stamp item).toMessage).flatMap ChatMsg.parts).map
            ReplySegment.streamId).Nodup := by
          have hnames : (first :: rest).map (fun item => (identity.stamp item).segment.streamId) =
              ((first :: rest).map Item.id).map fun id => "history:" ++ id := by
            rw [List.map_map]
            refine List.map_congr_left fun item hitem => ?_
            simp [hsids item hitem, hempty]
          rw [hflat, List.map_map]
          change ((first :: rest).map fun item => (identity.stamp item).segment.streamId).Nodup
          rw [hnames]
          refine hids.map fun x y hxy => ?_
          exact (String.append_right_inj "history:").mp hxy
        have hall := foldl_absorb_nodup turnStarts (identity.stamp first).toMessage
          (rest.map fun item => (identity.stamp item).toMessage) (by
            intro x hx
            obtain ⟨item, hitem, rfl⟩ := List.mem_map.mp hx
            exact hroles item (List.mem_cons_of_mem _ hitem)) (by simpa using hnodup)
        simp only [hempty, ne_eq, not_true_eq_false, false_implies, iff_true]
        change ((rest.map fun item => (identity.stamp item).toMessage).foldl (absorb turnStarts)
          (identity.stamp first).toMessage).parts.map ReplySegment.content = _
        rw [hall]
        refine (congrArg (List.map ReplySegment.content) hflat).trans ?_
        simp [Item.segment, Function.comp_def]
      · have hone := foldl_absorb_same turnStarts record.streamId (identity.stamp first).toMessage
          (identity.stamp first).segment (hparts first (by simp)) (by simp [hsids first (by simp), hempty])
          (rest.map fun item => (identity.stamp item).toMessage) (by
            intro x hx other hother
            obtain ⟨item, hitem, rfl⟩ := List.mem_map.mp hx
            rw [hparts item (List.mem_cons_of_mem _ hitem), List.mem_singleton] at hother
            rw [hother, hsids item (List.mem_cons_of_mem _ hitem), if_neg hempty])
        simp only [ne_eq, hempty, not_false_eq_true, true_implies, List.length_cons]
        change ((rest.map fun item => (identity.stamp item).toMessage).foldl (absorb turnStarts)
          (identity.stamp first).toMessage).parts.map ReplySegment.content = _ ↔ _
        rw [hone]
        cases rest with
        | nil => simp [Item.segment]
        | cons second rest => simp [Item.segment]

-- The archive page of a client loses no answer exactly when no run with a named stream has two of them.
theorem archived_answers_kept_iff (turnStarts : String → List Nat) (identity : Identity) (page : Page) :
    AnswersKept (identity.projectIdentity page.items)
        (historyToMessages turnStarts (identity.projectIdentity page.items)) ↔
      ∀ record ∈ identity.runs, record.runId ≠ "" → record.streamId ≠ "" →
        (identity.answers record page).length ≤ 1 := by
  rw [history_eq (projected_ordered page)]
  have hrun : ∀ r, (coalesceArchiveRuns turnStarts
        (((identity.projectIdentity page.items).filter fun item => decide (item.role = .user ∨ item.role = .assistant)).map
          Item.toMessage)).filter (fun m => decide (m.runKey = some (r, .assistant))) =
      combine turnStarts (((identity.projectIdentity page.items).filter (Item.answers r)).map Item.toMessage) := by
    intro r
    rw [coalesce_filter, answer_messages]
  constructor
  · intro h record hrecord hname hstream
    by_cases hsome : identity.answers record page = []
    · simp [hsome]
    · have hkept := h.runs record.runId (by
        rw [stamped_answers page hrecord hname]
        simpa using hsome)
      rw [hrun, stamped_answers page hrecord hname] at hkept
      exact (run_kept_iff page hrecord hname hsome).mp hkept hstream
  · intro h
    refine ⟨fun r hsome => ?_, ?_⟩
    · obtain ⟨item, hitem⟩ := List.exists_mem_of_ne_nil _ hsome
      obtain ⟨hin, hanswers⟩ := List.mem_filter.mp hitem
      obtain ⟨original, horiginal, rfl⟩ := List.mem_map.mp hin
      have hrunOf := (of_decide_eq_true hanswers).2
      -- the item got its run from a record
      obtain ⟨record, hrecord, hname, rfl⟩ : ∃ record, record ∈ identity.runs ∧ record.runId ≠ "" ∧ record.runId = r := by
        unfold Identity.stamp at hrunOf
        cases hfind : identity.find original.ordinal with
        | none => simp [hfind, Item.run, (page.legacy original horiginal).1, truthy] at hrunOf
        | some record =>
            simp only [hfind, Item.run, truthy, Option.filter_eq_some_iff, Option.some.injEq, decide_eq_true_eq] at hrunOf
            obtain ⟨rfl, hname⟩ := hrunOf
            exact ⟨record, find_mem hfind, hname, rfl⟩
      rw [stamped_answers page hrecord hname] at hsome
      rw [hrun, stamped_answers page hrecord hname]
      exact (run_kept_iff page hrecord hname (by simpa using hsome)).mpr (h record hrecord hname)
    · have hlegacy := coalesce_legacy turnStarts
        (((identity.projectIdentity page.items).filter fun item => decide (item.role = .user ∨ item.role = .assistant)).map
          Item.toMessage)
      simp only [runKey_eq_none] at hlegacy
      rw [hlegacy, List.filter_map, List.filter_filter]
      congr 1
      refine List.filter_congr fun item _ => ?_
      by_cases hrun : item.run = none
      · simp [hrun]
      · simp [hrun]

end Pages

def cutOffPage : Page where
  items := [{ id := "0", ordinal := 0, role := .user, content := "q" },
    { id := "1", ordinal := 1, role := .assistant, content := "a" },
    { id := "2", ordinal := 2, role := .user, content := "continue" },
    { id := "3", ordinal := 3, role := .assistant, content := "b" }]
  ordered := by decide
  distinct := by decide
  legacy := by decide

def cutOffRun : Identity :=
  Identity.finishRun (Identity.beginRun .empty (fun _ => true) "r" "l" "s" 0) (fun _ => true) "r" 4 (some .completed)

theorem continuation_lost :
    ((historyToMessages (fun _ => []) (cutOffRun.projectIdentity cutOffPage.items)).map fun m => (m.role, m.content)) =
        [(.user, "q"), (.assistant, "a")] ∧
      ¬AnswersKept (cutOffRun.projectIdentity cutOffPage.items)
        (historyToMessages (fun _ => []) (cutOffRun.projectIdentity cutOffPage.items)) := by
  refine ⟨by decide, fun h => ?_⟩
  exact absurd (h.runs "r" (by decide)) (by decide)

end GaHub.Chat
