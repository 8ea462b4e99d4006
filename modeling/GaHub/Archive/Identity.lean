import GaHub.Archive.Headers
import GaHub.Lib.Lists
import GaHub.Lib.Machine

namespace GaHub.Archive

open Lib

structure RunIds where
  sessionId : String
  runId : String
  logicalId : String
  streamId : String
  deriving DecidableEq

-- A run in the sidecar of an archive, with the prefix of the archive it rests on.
structure Record (δ : Type) where
  ids : RunIds
  start : Nat
  stop : Option Nat
  outcome : Option String
  prefixSize : Nat
  prefixHash : δ
  deriving DecidableEq

structure Sidecar (δ : Type) where
  generation : String
  runs : List (Record δ)
  deriving DecidableEq

structure Stamp where
  ids : RunIds
  archiveGeneration : String
  outcome : Option String
  deriving DecidableEq

def Record.covers {δ : Type} (record : Record δ) (ordinal : Nat) : Bool :=
  decide (record.start ≤ ordinal) && record.stop.all fun stop => decide (ordinal < stop)

section Sidecar

variable {δ : Type} [DecidableEq δ] (digest : Bytes → δ) (content : Bytes)

-- `_digest`: `none` for a file that is shorter.
def prefixDigest (size : Nat) : Option δ :=
  if size ≤ content.length then some (digest (content.take size)) else none

-- `_valid`
def Record.valid (record : Record δ) : Bool :=
  decide (prefixDigest digest content record.prefixSize = some record.prefixHash)

-- `_load`; `fresh` is the id drawn where there is no sidecar yet.
def loadSidecar (sidecar : Option (Sidecar δ)) (fresh : String) : Sidecar δ := sidecar.getD ⟨fresh, []⟩

def Record.close (ordinal : Nat) (record : Record δ) : Record δ :=
  if record.stop.isNone then { record with stop := some ordinal } else record

-- The record of a run that begins, and of one that is finished: both rest on the archive as it is.
def Record.opened (ids : RunIds) (ordinal : Nat) : Record δ :=
  ⟨ids, ordinal, none, none, content.length, digest content⟩

def Record.finished (record : Record δ) (ordinal : Nat) (outcome : Option String) : Record δ :=
  { record with stop := some ordinal, outcome, prefixSize := content.length, prefixHash := digest content }

-- `begin_run`, as what is in the sidecar afterwards
def beginRun (sidecar : Option (Sidecar δ)) (ids : RunIds) (fresh : String) (ordinal : Nat) :
    Option (Sidecar δ) :=
  let state := loadSidecar sidecar fresh
  let valid := state.runs.filter (·.valid digest content)
  if valid.any fun record => decide (record.ids.runId = ids.runId) then sidecar
  else some {
    generation := if valid.length = state.runs.length then state.generation else fresh
    runs := valid.map (·.close ordinal) ++ [.opened digest content ids ordinal] }

def finishRecord (runId : String) (ordinal : Nat) (outcome : Option String) : List (Record δ) → List (Record δ)
  | [] => []
  | record :: rest =>
      if record.ids.runId = runId ∧ record.valid digest content = true then
        record.finished digest content ordinal outcome :: rest
      else record :: finishRecord runId ordinal outcome rest

-- `finish_run`; without a sidecar there is no record to finish.
def finishRun (sidecar : Option (Sidecar δ)) (runId : String) (ordinal : Nat) (outcome : Option String) :
    Option (Sidecar δ) :=
  sidecar.map fun state => { state with runs := finishRecord digest content runId ordinal outcome state.runs }

def validRuns (sidecar : Option (Sidecar δ)) : List (Record δ) :=
  ((sidecar.map Sidecar.runs).getD []).filter (·.valid digest content)

-- `project_identity`: each item, and its label where it has one
def projectIdentity (sidecar : Option (Sidecar δ)) (items : List Item) : List (Item × Option Stamp) :=
  items.map fun item => (item, ((validRuns digest content sidecar).reverse.find? (·.covers item.ordinal)).map
    fun record => ⟨record.ids, (sidecar.map Sidecar.generation).getD "", record.outcome⟩)

end Sidecar

-- A run and what the archive was when it began and when it was finished.
structure Span where
  runId : String
  begun : Bytes
  finished : Option Bytes := none
  deriving DecidableEq

-- An archive file with its sidecar; `spans` is what has happened to it.
structure Shelf (δ : Type) where
  content : Bytes := []
  sidecar : Option (Sidecar δ) := none
  active : Option String := none
  spans : List Span := []

inductive ShelfAction where
  | append (more : Bytes)
  -- a truncation, or a rewrite of the tail
  | rewrite (keep : Nat) (tail : Bytes)
  | begin (ids : RunIds) (fresh : String)
  | finish (runId : String) (outcome : Option String)

namespace Shelf

variable {δ : Type} [DecidableEq δ] (digest : Bytes → δ) (total : Bytes → Nat) (s : Shelf δ)

-- `begin_run`, with the number of items the archive shows. A run begins once; a continuation of the
-- active one may call it again.
def begin (ids : RunIds) (fresh : String) : Shelf δ :=
  { s with
    sidecar := beginRun digest s.content s.sidecar ids fresh (total s.content)
    active := some ids.runId
    spans := if s.active = some ids.runId then s.spans else s.spans ++ [⟨ids.runId, s.content, none⟩] }

def finish (runId : String) (outcome : Option String) : Shelf δ :=
  { s with
    sidecar := finishRun digest s.content s.sidecar runId (total s.content) outcome
    active := none
    spans := s.spans.map fun span => if span.runId = runId then { span with finished := some s.content } else span }

def next : ShelfAction → Option (Shelf δ)
  | .append more => some { s with content := s.content ++ more }
  | .rewrite keep tail =>
      if s.active.isNone then some { s with content := s.content.take keep ++ tail } else none
  | .begin ids fresh =>
      if s.active = some ids.runId ∨ s.active = none ∧ ∀ span ∈ s.spans, span.runId ≠ ids.runId then
        some (s.begin digest total ids fresh)
      else none
  | .finish runId outcome => if s.active = some runId then some (s.finish digest total runId outcome) else none

def labels (items : List Item) : List (Item × Option Stamp) := projectIdentity digest s.content s.sidecar items

end Shelf

-- The histories of one archive in which each begun run is finished before the next one begins.
def shelfMachine {δ : Type} [DecidableEq δ] (digest : Bytes → δ) (total : Bytes → Nat) :
    Machine (Shelf δ) ShelfAction where
  start := {}
  next s := s.next digest total

section Identity

variable {δ : Type} {digest : Bytes → δ} {total : Bytes → Nat}

structure Tells (digest : Bytes → δ) (total : Bytes → Nat) (record : Record δ) (span : Span) : Prop where
  runId : record.ids.runId = span.runId
  start : record.start = total span.begun
  stop : record.stop = span.finished.map total
  size : record.prefixSize = (span.finished.getD span.begun).length
  hash : record.prefixHash = digest (span.finished.getD span.begun)
  grows : ∀ content ∈ span.finished, span.begun <+: content

-- The records of the sidecar, in the order the runs began; one that came before another was
-- finished and whole when that one began.
structure Kept (digest : Bytes → δ) (total : Bytes → Nat) (s : Shelf δ) : Prop where
  runs : ∃ told : List (Record δ × Span), (s.sidecar.map Sidecar.runs).getD [] = told.map Prod.fst ∧
    (∀ e ∈ told, Tells digest total e.1 e.2 ∧ e.2 ∈ s.spans) ∧
    told.Pairwise fun e f => ∃ content, e.2.finished = some content ∧ content <+: f.2.begun
  once : (s.spans.map Span.runId).Nodup
  open' : ∀ span ∈ s.spans, span.finished = none → s.active = some span.runId
  running : ∀ runId ∈ s.active, ∃ span ∈ s.spans, span.runId = runId ∧ span.finished = none ∧
    span.begun <+: s.content ∧ ∃ record ∈ (s.sidecar.map Sidecar.runs).getD [], record.ids.runId = runId

section Records

variable {record : Record δ} {span : Span} {content : Bytes}

theorem Tells.valid_iff [DecidableEq δ] (h : Tells digest total record span) (hdigest : Function.Injective digest) :
    record.valid digest content = true ↔ span.finished.getD span.begun <+: content := by
  unfold Record.valid prefixDigest
  rw [h.size, h.hash, decide_eq_true_iff]
  constructor
  · intro hvalid
    split at hvalid
    · rw [← hdigest (Option.some.inj hvalid)]
      exact List.take_prefix _ _
    · cases hvalid
  · intro hprefix
    rw [if_pos hprefix.length_le, ← List.prefix_iff_eq_take.mp hprefix]

theorem Tells.close (h : Tells digest total record span) (hfinished : span.finished ≠ none) (ordinal : Nat) :
    record.close ordinal = record := by
  obtain ⟨content, hcontent⟩ := Option.ne_none_iff_exists'.mp hfinished
  unfold Record.close
  rw [h.stop, hcontent]
  rfl

theorem finishRecord_last [DecidableEq δ] {before : List (Record δ)} {runId : String} (ordinal : Nat)
    (outcome : Option String) (hbefore : ∀ r ∈ before, r.ids.runId ≠ runId) (hrun : record.ids.runId = runId)
    (hvalid : record.valid digest content = true) :
    finishRecord digest content runId ordinal outcome (before ++ [record]) =
      before ++ [record.finished digest content ordinal outcome] := by
  induction before with
  | nil => exact if_pos ⟨hrun, hvalid⟩
  | cons r before ih =>
      have hother : ¬(r.ids.runId = runId ∧ r.valid digest content = true) := fun h =>
        hbefore r List.mem_cons_self h.1
      simp only [List.cons_append, finishRecord, if_neg hother]
      rw [ih fun r hr => hbefore r (List.mem_cons_of_mem _ hr)]

end Records

section Steps

variable {s : Shelf δ}

theorem span_eq (h : Kept digest total s) {x y : Span} (hx : x ∈ s.spans) (hy : y ∈ s.spans)
    (hrun : x.runId = y.runId) : x = y := List.inj_on_of_nodup_map h.once hx hy hrun

theorem Kept.active_record (h : Kept digest total s) {runId : String} (hactive : s.active = some runId) :
    ∃ (before : List (Record δ × Span)) (record : Record δ) (span : Span),
      (s.sidecar.map Sidecar.runs).getD [] = before.map Prod.fst ++ [record] ∧
      (∀ e ∈ before, Tells digest total e.1 e.2 ∧ e.2 ∈ s.spans ∧ e.2.runId ≠ runId ∧
        ∃ content, e.2.finished = some content ∧ content <+: span.begun) ∧
      before.Pairwise (fun e f => ∃ content, e.2.finished = some content ∧ content <+: f.2.begun) ∧
      Tells digest total record span ∧ span ∈ s.spans ∧ span.runId = runId ∧ span.finished = none ∧
      span.begun <+: s.content := by
  obtain ⟨told, hruns, htold, hpairwise⟩ := h.runs
  obtain ⟨span, hspan, hrun, hopen, hbegun, record, hrecord, hid⟩ := h.running runId hactive
  rw [hruns] at hrecord
  obtain ⟨e, he, rfl⟩ := List.mem_map.mp hrecord
  obtain ⟨htells, hmem⟩ := htold e he
  have hsame : e.2 = span := span_eq h hmem hspan (htells.runId.symm.trans (hid.trans hrun.symm))
  obtain ⟨before, after, rfl⟩ := List.append_of_mem he
  rw [List.pairwise_append] at hpairwise
  obtain ⟨hbefore, hafter, hcross⟩ := hpairwise
  -- nothing comes after an unfinished run
  have hlast : after = [] := by
    cases after with
    | nil => rfl
    | cons f after =>
        obtain ⟨content, hfinished, _⟩ := (List.pairwise_cons.mp hafter).1 f List.mem_cons_self
        rw [hsame, hopen] at hfinished
        cases hfinished
  subst hlast
  refine ⟨before, e.1, span, ?_, fun f hf => ?_, hbefore, hsame ▸ htells, hspan, hrun, hopen, hbegun⟩
  · rw [hruns, List.map_append, List.map_singleton]
  · obtain ⟨hftells, hfmem⟩ := htold f (List.mem_append_left _ hf)
    obtain ⟨content, hfinished, hprefix⟩ := hcross f hf e List.mem_cons_self
    refine ⟨hftells, hfmem, fun hfrun => ?_, content, hfinished, hsame ▸ hprefix⟩
    have hfsame : f.2 = span := span_eq h hfmem hspan (hfrun.trans hrun.symm)
    rw [hfsame, hopen] at hfinished
    cases hfinished

theorem Kept.append (h : Kept digest total s) (more : Bytes) :
    Kept digest total { s with content := s.content ++ more } := by
  refine ⟨h.runs, h.once, h.open', fun runId hactive => ?_⟩
  obtain ⟨span, hspan, hrun, hopen, hbegun, hrecord⟩ := h.running runId hactive
  exact ⟨span, hspan, hrun, hopen, hbegun.trans (List.prefix_append _ _), hrecord⟩

theorem Kept.rewrite (h : Kept digest total s) (hactive : s.active = none) (content : Bytes) :
    Kept digest total { s with content } := by
  refine ⟨h.runs, h.once, h.open', fun runId hrun => ?_⟩
  cases hactive.symm.trans (Option.mem_def.mp hrun)

theorem Kept.continue [DecidableEq δ] (h : Kept digest total s) (hdigest : Function.Injective digest) {ids : RunIds}
    (hactive : s.active = some ids.runId) (fresh : String) : s.begin digest total ids fresh = s := by
  obtain ⟨before, record, span, hruns, _, _, htells, _, hrun, hopen, hbegun⟩ := h.active_record hactive
  have hvalid : record.valid digest s.content = true := by
    rw [htells.valid_iff hdigest, hopen]
    exact hbegun
  have hsidecar : beginRun digest s.content s.sidecar ids fresh (total s.content) = s.sidecar := by
    cases hs : s.sidecar with
    | none => simp [hs] at hruns
    | some sidecar =>
        rw [hs] at hruns
        have hmem : record ∈ sidecar.runs := by
          rw [show sidecar.runs = before.map Prod.fst ++ [record] from hruns]
          simp
        have hfound : ((sidecar.runs.filter (·.valid digest s.content)).any fun record =>
            decide (record.ids.runId = ids.runId)) = true := by
          refine List.any_eq_true.mpr ⟨record, List.mem_filter.mpr ⟨hmem, hvalid⟩, ?_⟩
          exact decide_eq_true (htells.runId.trans hrun)
        exact if_pos hfound
  unfold Shelf.begin
  rw [hsidecar, if_pos hactive, ← hactive]

theorem Kept.begin [DecidableEq δ] (h : Kept digest total s) (hdigest : Function.Injective digest) {ids : RunIds}
    (hactive : s.active = none) (hnew : ∀ span ∈ s.spans, span.runId ≠ ids.runId) (fresh : String) :
    Kept digest total (s.begin digest total ids fresh) := by
  obtain ⟨told, hruns, htold, hpairwise⟩ := h.runs
  have hfinished : ∀ e ∈ told, e.2.finished ≠ none := fun e he hopen => by
    cases hactive.symm.trans (h.open' e.2 (htold e he).2 hopen)
  have hloaded : (loadSidecar s.sidecar fresh).runs = told.map Prod.fst := by
    rw [← hruns]
    cases s.sidecar <;> rfl
  -- the records that are kept, and the new one
  let kept := told.filter fun e => e.1.valid digest s.content
  have hkept : ∀ e ∈ kept, e ∈ told ∧ e.2.finished.getD e.2.begun <+: s.content := fun e he => by
    obtain ⟨hmem, hvalid⟩ := List.mem_filter.mp he
    exact ⟨hmem, ((htold e hmem).1.valid_iff hdigest).mp hvalid⟩
  have hvalid : (told.map Prod.fst).filter (·.valid digest s.content) = kept.map Prod.fst := by
    rw [List.filter_map]
    rfl
  have hclose : (kept.map Prod.fst).map (·.close (total s.content)) = kept.map Prod.fst := by
    rw [List.map_map]
    exact List.map_congr_left fun e he => (htold e (hkept e he).1).1.close (hfinished e (hkept e he).1) _
  have hfresh : ((kept.map Prod.fst).any fun record => decide (record.ids.runId = ids.runId)) = false := by
    refine List.any_eq_false.mpr fun record hrecord => ?_
    obtain ⟨e, he, rfl⟩ := List.mem_map.mp hrecord
    obtain ⟨htells, hmem⟩ := htold e (hkept e he).1
    simpa [htells.runId] using hnew e.2 hmem
  have hsidecar : ((s.begin digest total ids fresh).sidecar.map Sidecar.runs).getD [] =
      kept.map Prod.fst ++ [.opened digest s.content ids (total s.content)] := by
    simp only [Shelf.begin, beginRun, hloaded, hvalid, hfresh, hclose, Bool.false_eq_true, if_false,
      Option.map_some, Option.getD_some]
  have hspans : (s.begin digest total ids fresh).spans = s.spans ++ [⟨ids.runId, s.content, none⟩] :=
    if_neg (by simp [hactive])
  refine ⟨⟨kept ++ [(.opened digest s.content ids (total s.content), ⟨ids.runId, s.content, none⟩)], ?_,
    fun e he => ?_, ?_⟩, ?_, fun span hspan hopen => ?_, fun runId hrun => ?_⟩
  · rw [hsidecar, List.map_append, List.map_singleton]
  · rw [hspans]
    rcases List.mem_append.mp he with he | he
    · obtain ⟨htells, hmem⟩ := htold e (hkept e he).1
      exact ⟨htells, List.mem_append_left _ hmem⟩
    · rw [List.mem_singleton.mp he]
      exact ⟨⟨rfl, rfl, rfl, rfl, rfl, by simp⟩, List.mem_append_right _ (List.mem_singleton_self _)⟩
  · refine List.pairwise_append.mpr ⟨hpairwise.sublist List.filter_sublist, List.pairwise_singleton _ _, ?_⟩
    intro e he f hf
    rw [List.mem_singleton.mp hf]
    obtain ⟨hmem, hprefix⟩ := hkept e he
    obtain ⟨content, hcontent⟩ := Option.ne_none_iff_exists'.mp (hfinished e hmem)
    rw [hcontent] at hprefix
    exact ⟨content, hcontent, hprefix⟩
  · rw [hspans, List.map_append, List.map_singleton]
    refine List.Nodup.append h.once (List.nodup_singleton _) ?_
    simpa using fun span hspan => hnew span hspan
  · rw [hspans] at hspan
    rcases List.mem_append.mp hspan with hold | hspan
    · cases hactive.symm.trans (h.open' span hold hopen)
    · rw [List.mem_singleton.mp hspan]
      rfl
  · cases hrun
    rw [hspans, hsidecar]
    exact ⟨_, List.mem_append_right _ (List.mem_singleton_self _), rfl, rfl, List.prefix_refl _, _,
      List.mem_append_right _ (List.mem_singleton_self _), rfl⟩

theorem Kept.finish [DecidableEq δ] (h : Kept digest total s) (hdigest : Function.Injective digest) {runId : String}
    (hactive : s.active = some runId) (outcome : Option String) :
    Kept digest total (s.finish digest total runId outcome) := by
  obtain ⟨before, record, span, hruns, hbefore, hpairwise, htells, hspan, hrun, hopen, hbegun⟩ :=
    h.active_record hactive
  have hvalid : record.valid digest s.content = true := by
    rw [htells.valid_iff hdigest, hopen]
    exact hbegun
  have hothers : ∀ r ∈ before.map Prod.fst, r.ids.runId ≠ runId := fun r hr => by
    obtain ⟨e, he, rfl⟩ := List.mem_map.mp hr
    obtain ⟨hetells, _, hne, _⟩ := hbefore e he
    rwa [hetells.runId]
  have hsidecar : ((s.finish digest total runId outcome).sidecar.map Sidecar.runs).getD [] =
      before.map Prod.fst ++ [record.finished digest s.content (total s.content) outcome] := by
    cases hs : s.sidecar with
    | none => simp [hs] at hruns
    | some sidecar =>
        rw [hs] at hruns
        have hlist : sidecar.runs = before.map Prod.fst ++ [record] := hruns
        simp only [Shelf.finish, finishRun, hs, hlist, Option.map_some, Option.getD_some]
        exact finishRecord_last _ outcome hothers (htells.runId.trans hrun) hvalid
  let mark : Span → Span := fun span =>
    if span.runId = runId then { span with finished := some s.content } else span
  have hmark : ∀ span, (mark span).runId = span.runId := fun span => by
    change (if span.runId = runId then _ else _ : Span).runId = _
    split <;> rfl
  have hsame : ∀ span, span.runId ≠ runId → mark span = span := fun span hne => if_neg hne
  refine ⟨⟨before ++ [(record.finished digest s.content (total s.content) outcome, mark span)], ?_,
      fun e he => ?_, ?_⟩, ?_, fun later hlater hnone => ?_, fun _ hrun' => ?_⟩
  · rw [hsidecar, List.map_append, List.map_singleton]
  · rcases List.mem_append.mp he with he | he
    · obtain ⟨hetells, hmem, hne, _⟩ := hbefore e he
      exact ⟨hetells, List.mem_map.mpr ⟨e.2, hmem, hsame e.2 hne⟩⟩
    · rw [List.mem_singleton.mp he]
      refine ⟨?_, List.mem_map_of_mem hspan⟩
      simp only [mark, if_pos hrun]
      refine ⟨htells.runId, htells.start, rfl, rfl, rfl, fun content hcontent => ?_⟩
      cases hcontent
      exact hbegun
  · refine List.pairwise_append.mpr ⟨hpairwise, List.pairwise_singleton _ _, fun e he f hf => ?_⟩
    rw [List.mem_singleton.mp hf]
    obtain ⟨_, _, _, content, hcontent, hprefix⟩ := hbefore e he
    simp only [mark, if_pos hrun]
    exact ⟨content, hcontent, hprefix⟩
  · have hids : (s.spans.map mark).map Span.runId = s.spans.map Span.runId := by
      rw [List.map_map]
      exact List.map_congr_left fun span _ => hmark span
    exact hids ▸ h.once
  · obtain ⟨old, hold, rfl⟩ := List.mem_map.mp hlater
    by_cases hid : old.runId = runId
    · have hfinished : (mark old).finished = some s.content := congrArg Span.finished (if_pos hid)
      cases hfinished.symm.trans hnone
    · have hnone' : old.finished = none := hsame old hid ▸ hnone
      exact absurd (Option.some.inj (hactive.symm.trans (h.open' old hold hnone'))).symm hid
  · cases hrun'

theorem Kept.next [DecidableEq δ] (h : Kept digest total s) (hdigest : Function.Injective digest) {a : ShelfAction}
    {t : Shelf δ} (hnext : s.next digest total a = some t) : Kept digest total t := by
  cases a with
  | append more =>
      cases hnext
      exact h.append more
  | rewrite keep tail =>
      simp only [Shelf.next] at hnext
      split at hnext
      · cases hnext
        exact h.rewrite (Option.isNone_iff_eq_none.mp ‹_›) _
      · cases hnext
  | begin ids fresh =>
      simp only [Shelf.next] at hnext
      split at hnext
      · rename_i hallowed
        cases hnext
        rcases hallowed with hactive | ⟨hactive, hnew⟩
        · rwa [h.continue hdigest hactive]
        · exact h.begin hdigest hactive hnew fresh
      · cases hnext
  | finish runId outcome =>
      simp only [Shelf.next] at hnext
      split at hnext
      · cases hnext
        exact h.finish hdigest ‹_› outcome
      · cases hnext

theorem Kept.reachable [DecidableEq δ] (hdigest : Function.Injective digest)
    (h : (shelfMachine digest total).Reachable s) : Kept digest total s := by
  refine h.invariant ?_ fun s a t hs hnext => Kept.next hs hdigest hnext
  exact ⟨⟨[], rfl, by simp, .nil⟩, .nil, by simp [shelfMachine], by simp [shelfMachine]⟩

end Steps

-- An item that a record covers: it came after the run began, before it was finished, and the archive
-- up to the prefix of the record is what it was at that time.
structure Belongs (total : Bytes → Nat) (s : Shelf δ) (ordinal : Nat) (record : Record δ) (span : Span) :
    Prop where
  mem : span ∈ s.spans
  run : span.runId = record.ids.runId
  after : total span.begun ≤ ordinal
  before : ∀ content ∈ span.finished, ordinal < total content
  active : span.finished = none → s.active = some span.runId
  same : s.content.take record.prefixSize = span.finished.getD span.begun

section Labels

variable [DecidableEq δ] {s : Shelf δ}

theorem validRuns_eq {told : List (Record δ × Span)}
    (hruns : (s.sidecar.map Sidecar.runs).getD [] = told.map Prod.fst) :
    validRuns digest s.content s.sidecar =
      (told.filter fun e => e.1.valid digest s.content).map Prod.fst := by
  unfold validRuns
  rw [hruns, List.filter_map]
  rfl

theorem Kept.disjoint (h : Kept digest total s)
    (htotal : ∀ content more, total content ≤ total (content ++ more)) :
    (validRuns digest s.content s.sidecar).Pairwise fun r q =>
      ∀ ordinal, ¬(r.covers ordinal = true ∧ q.covers ordinal = true) := by
  obtain ⟨told, hruns, htold, hpairwise⟩ := h.runs
  rw [validRuns_eq hruns, List.pairwise_map]
  refine (hpairwise.sublist List.filter_sublist).imp_of_mem ?_
  rintro e f he hf ⟨content, hcontent, more, hmore⟩ ordinal ⟨hecovers, hfcovers⟩
  have hetells := (htold e (List.mem_filter.mp he).1).1
  have hftells := (htold f (List.mem_filter.mp hf).1).1
  have hstop : e.1.stop = some (total content) := by rw [hetells.stop, hcontent]; rfl
  have hbefore : ordinal < total content := by
    simpa [hstop] using (Bool.and_eq_true_iff.mp hecovers).2
  have hafter : total f.2.begun ≤ ordinal := by
    rw [← hftells.start]
    exact of_decide_eq_true (Bool.and_eq_true_iff.mp hfcovers).1
  have hgrows : total content ≤ total f.2.begun := hmore ▸ htotal content more
  omega

theorem Kept.belongs (h : Kept digest total s) (hdigest : Function.Injective digest) {record : Record δ}
    (hrecord : record ∈ validRuns digest s.content s.sidecar) {ordinal : Nat}
    (hcovers : record.covers ordinal = true) : ∃ span, Belongs total s ordinal record span := by
  obtain ⟨told, hruns, htold, _⟩ := h.runs
  rw [validRuns_eq hruns] at hrecord
  obtain ⟨e, he, rfl⟩ := List.mem_map.mp hrecord
  obtain ⟨hmem, hvalid⟩ := List.mem_filter.mp he
  obtain ⟨htells, hspan⟩ := htold e hmem
  obtain ⟨hafter, hbefore⟩ := Bool.and_eq_true_iff.mp hcovers
  refine ⟨e.2, hspan, htells.runId.symm, ?_, fun content hcontent => ?_, h.open' e.2 hspan, ?_⟩
  · rw [← htells.start]
    exact of_decide_eq_true hafter
  · have hstop : e.1.stop = some (total content) := by rw [htells.stop, Option.mem_def.mp hcontent]; rfl
    simpa [hstop] using hbefore
  · rw [htells.size]
    exact (List.prefix_iff_eq_take.mp ((htells.valid_iff hdigest).mp hvalid)).symm

end Labels

-- Over every history: no two valid records cover one item, and an item is labelled with a run only if it
-- came between the begin and the finish of that run and the recorded prefix is still there, byte for byte.
theorem identity_stays [DecidableEq δ] (hdigest : Function.Injective digest)
    (htotal : ∀ content more, total content ≤ total (content ++ more)) {s : Shelf δ}
    (h : (shelfMachine digest total).Reachable s) :
    ((validRuns digest s.content s.sidecar).Pairwise fun r q =>
      ∀ ordinal, ¬(r.covers ordinal = true ∧ q.covers ordinal = true)) ∧
    (s.spans.map Span.runId).Nodup ∧
    ∀ items, ∀ e ∈ s.labels digest items, ∀ stamp ∈ e.2,
      ∃ record ∈ validRuns digest s.content s.sidecar, ∃ span,
        stamp.ids = record.ids ∧ Belongs total s e.1.ordinal record span := by
  have hkept := Kept.reachable hdigest h
  refine ⟨hkept.disjoint htotal, hkept.once, fun items e he stamp hstamp => ?_⟩
  obtain ⟨item, _, rfl⟩ := List.mem_map.mp he
  obtain ⟨record, hfound, rfl⟩ := Option.map_eq_some_iff.mp hstamp
  have hrecord : record ∈ validRuns digest s.content s.sidecar :=
    List.mem_reverse.mp (List.mem_of_find?_eq_some hfound)
  have hcovers : record.covers item.ordinal = true :=
    List.find?_some (p := fun r : Record δ => r.covers item.ordinal) hfound
  obtain ⟨span, hbelongs⟩ := hkept.belongs hdigest hrecord hcovers
  exact ⟨record, hrecord, span, rfl, hbelongs⟩

end Identity

-- A round as GA writes it, and the items of an archive that is made of such rounds.
def shortRound : Bytes := text "=== Prompt ===\n[]\n=== Response ===\n[]\n"

def roundItems (content : Bytes) : Nat := content.count 10 / 2

-- Two runs, then the archive is cut inside the second one and written on.
def cutHistory : List ShelfAction :=
  [.begin ⟨"s", "r", "r", "1"⟩ "g", .append shortRound, .finish "r" (some "completed"),
   .begin ⟨"s", "q", "q", "2"⟩ "g", .append shortRound, .finish "q" none,
   .rewrite 45 [], .append shortRound]

theorem identity_stays_cutHistory : ∃ s,
    (shelfMachine (fun bytes : Bytes => bytes) roundItems).run {} cutHistory = some s ∧
      (s.labels (fun bytes => bytes) [⟨[], .user, [], none, 1, none⟩, ⟨[], .user, [], none, 2, none⟩]).map
        (fun e => e.2.map fun stamp => stamp.ids.runId) = [some "r", none] ∧
      (s.spans.map Span.runId).Nodup := by
  have hrun : ((shelfMachine (fun bytes : Bytes => bytes) roundItems).run {} cutHistory).map (fun s =>
      (s.labels (fun bytes => bytes) [⟨[], .user, [], none, 1, none⟩, ⟨[], .user, [], none, 2, none⟩]).map
        fun e => e.2.map fun stamp => stamp.ids.runId) = some [some "r", none] := by decide
  obtain ⟨s, hs, hlabels⟩ := Option.map_eq_some_iff.mp hrun
  refine ⟨s, hs, hlabels, ?_⟩
  have hgrows : ∀ content more, roundItems content ≤ roundItems (content ++ more) := fun content more => by
    unfold roundItems
    rw [List.count_append]
    exact Nat.div_le_div_right (Nat.le_add_right _ _)
  exact (identity_stays (fun _ _ h => h) hgrows ⟨cutHistory, hs⟩).2.1

end GaHub.Archive
