import GaHub.Chat.Reducer
import GaHub.Lib.Distinct

namespace GaHub.Chat

open Lib

theorem startsWith_iff {s t : String} : startsWith s t = true ↔ t.toList <+: s.toList := List.isPrefixOf_iff_prefix

theorem startsWith_refl (s : String) : startsWith s s = true := startsWith_iff.mpr (List.prefix_refl _)

theorem startsWith_empty (s : String) : startsWith s "" = true := startsWith_iff.mpr List.nil_prefix

theorem startsWith_trans {s t u : String} (h : startsWith s t = true) (h' : startsWith t u = true) : startsWith s u = true :=
  startsWith_iff.mpr ((startsWith_iff.mp h').trans (startsWith_iff.mp h))

theorem startsWith_total {s t u : String} (h : startsWith s t = true) (h' : startsWith s u = true) :
    startsWith t u = true ∨ startsWith u t = true :=
  (List.prefix_or_prefix_of_prefix (startsWith_iff.mp h) (startsWith_iff.mp h')).symm.imp startsWith_iff.mpr startsWith_iff.mpr

def Longest (texts : List String) (content : String) : Prop := content ∈ texts ∧ ∀ t ∈ texts, startsWith content t = true

namespace Longest

variable {texts more : List String} {content t : String}

theorem mono (h : Longest texts content) (h' : Longest (texts ++ more) t) : startsWith t content = true :=
  h'.2 content (List.mem_append_left _ h.1)

theorem concat (h : Longest texts content) (hcmp : startsWith content t = true ∨ startsWith t content = true) :
    Longest (texts ++ [t]) (if startsWith content t then content else t) := by
  constructor
  · split
    · exact List.mem_append_left _ h.1
    · exact List.mem_append_right _ (List.mem_singleton.mpr rfl)
  · intro u hu
    split
    · rename_i hkeep
      rcases List.mem_append.mp hu with hu | hu
      · exact h.2 u hu
      · rwa [List.mem_singleton.mp hu]
    · rename_i hreplace
      have hgrows := hcmp.resolve_left hreplace
      rcases List.mem_append.mp hu with hu | hu
      · exact startsWith_trans hgrows (h.2 u hu)
      · rw [List.mem_singleton.mp hu]
        exact startsWith_refl t

end Longest

-- The text a frame brings; a `started` frame brings none.
def ReplyEvent.text (e : ReplyEvent) : Option String := if e.phase = .started then none else e.content

-- Segments of the archive carry an id of its own, or the mark that they were taken from there.
def ReplySegment.Physical (p : ReplySegment) : Prop := p.archived = false ∧ startsWith p.streamId "history:" = false

-- What a stream's segment may hold: what it held at first and what its frames brought.
def textsOf (initial : List ReplySegment) (frames : List ReplyEvent) (sid : StreamId) : List String :=
  "" :: ((initial.filter fun p => decide (p.streamId = sid)).map ReplySegment.content ++
    (frames.filter fun e => decide (e.streamId = sid)).filterMap ReplyEvent.text)

-- The segments after some frames: one for each stream in the order of first appearance, with the longest
-- of its texts, and done when it was or a `done` frame came.
structure Converged (initial : List ReplySegment) (frames : List ReplyEvent) (parts : List ReplySegment) : Prop where
  streams : parts.map ReplySegment.streamId =
    distinctOn some [] (initial.map ReplySegment.streamId ++ frames.map ReplyEvent.streamId)
  content : ∀ p ∈ parts, Longest (textsOf initial frames p.streamId) p.content
  done : ∀ p ∈ parts, p.done = true ↔
    (∃ q ∈ initial, q.streamId = p.streamId ∧ q.done = true) ∨ ∃ e ∈ frames, e.streamId = p.streamId ∧ e.phase = .done
  physical : ∀ p ∈ parts, p.Physical

-- The frames of a stream, and what the reply already has of it, are cut from the front of its final text.
structure Cumulative (final : StreamId → String) (initial : List ReplySegment) (frames : List ReplyEvent) : Prop where
  initial : ∀ p ∈ initial, startsWith (final p.streamId) p.content = true
  frames : ∀ e ∈ frames, ∀ t, e.text = some t → startsWith (final e.streamId) t = true

def ReplyEvent.part (e : ReplyEvent) : ReplySegment where
  streamId := e.streamId
  content := e.text.getD ""
  turnSegments := validTurnSegments e.turnSegs (e.content.getD "")
  done := decide (e.phase = .done)

section Parts

variable {final : StreamId → String} {initial parts : List ReplySegment} {frames : List ReplyEvent} {e : ReplyEvent}
  {previous : ReplySegment}

theorem updateReplySegments_new (e : ReplyEvent) :
    updateReplySegments [] e.streamId e.phase e.content e.turnSegs = [e.part] := by
  have hcontent : (if e.phase = .started then "" else e.content.getD "") = e.text.getD "" := by
    unfold ReplyEvent.text
    split <;> rfl
  simp only [updateReplySegments, List.findIdx?_nil, Option.bind_none, Option.any_none, Bool.false_eq_true, if_false,
    Option.map_none, Option.or_none, Option.getD_none, Bool.or_false, List.nil_append, hcontent]
  simp [ReplyEvent.part]

theorem mergeSegment_physical (h : previous.Physical) (e : ReplyEvent) :
    mergeSegment previous e.part =
      { e.part with
        content := if startsWith previous.content e.part.content then previous.content else e.part.content
        turnSegments := (mergeSegment previous e.part).turnSegments
        archived := false
        done := e.part.done || previous.done } := by
  simp only [mergeSegment, h.1, h.2, Bool.or_self, Bool.false_eq_true, if_false, Bool.not_false, Bool.true_and]
  congr 1
  split <;> rfl

theorem mergeParts_known {front back : List ReplySegment} (hparts : parts = front ++ previous :: back) (hid : previous.streamId = e.streamId)
    (hfront : ∀ p ∈ front, p.streamId ≠ e.streamId) : mergeParts parts [e.part] = front ++ mergeSegment previous e.part :: back := by
  have hindex : parts.findIdx? (fun p => decide (p.streamId = e.part.streamId)) = some front.length := by
    rw [hparts]
    exact findIdx?_split (fun p h => decide_eq_false (hfront p h)) (decide_eq_true hid) back
  rw [mergeParts, List.foldl_cons, List.foldl_nil, mergePart]
  simp only [hindex]
  rw [hparts, modify_length]

theorem mergeParts_new (hphysical : ∀ p ∈ parts, p.Physical) (hnew : ∀ p ∈ parts, p.streamId ≠ e.streamId) :
    mergeParts parts [e.part] = parts ++ [e.part] := by
  have hindex : parts.findIdx? (fun p => decide (p.streamId = e.part.streamId)) = none :=
    List.findIdx?_eq_none_iff.mpr fun p h => decide_eq_false (hnew p h)
  have harchive : (parts.drop 0).findIdx? (archiveMatch e.part) = none := by
    refine List.findIdx?_eq_none_iff.mpr fun p h => ?_
    simp [archiveMatch, (hphysical p (List.mem_of_mem_drop h)).2]
  rw [mergeParts, List.foldl_cons, List.foldl_nil, mergePart]
  simp only [hindex, harchive, ite_self]

-- The segments after a frame; a late `started` changes nothing.
def ReplyEvent.receive (e : ReplyEvent) (parts : List ReplySegment) : List ReplySegment :=
  if e.phase = .started ∧ parts.any fun part => decide (part.streamId = e.streamId) then parts
  else mergeParts parts [e.part]

theorem textsOf_concat (initial : List ReplySegment) (frames : List ReplyEvent) (e : ReplyEvent) (sid : StreamId) :
    textsOf initial (frames ++ [e]) sid =
      textsOf initial frames sid ++ if e.streamId = sid then e.text.toList else [] := by
  rw [textsOf, textsOf, List.filter_append, List.filterMap_append, List.cons_append, List.append_assoc]
  congr 3
  by_cases h : e.streamId = sid
  · cases ht : e.text <;> simp [h, ht]
  · simp [h]

theorem Converged.mem_streams (h : Converged initial frames parts) (sid : StreamId) :
    sid ∈ parts.map ReplySegment.streamId ↔
      sid ∈ initial.map ReplySegment.streamId ∨ sid ∈ frames.map ReplyEvent.streamId := by
  have hkeys := mem_keys_distinctOn (f := some) [] (initial.map ReplySegment.streamId ++ frames.map ReplyEvent.streamId) sid
  simp only [List.filterMap_some, List.not_mem_nil, or_false, List.mem_append] at hkeys
  rw [h.streams, hkeys]

theorem Converged.nodup (h : Converged initial frames parts) : (parts.map ReplySegment.streamId).Nodup := by
  have hnodup := (nodup_keys_distinctOn (f := some) [] (initial.map ReplySegment.streamId ++ frames.map ReplyEvent.streamId)).1
  rw [h.streams]
  rwa [List.filterMap_some] at hnodup

theorem Converged.streams_concat (h : Converged initial frames parts) (e : ReplyEvent) :
    distinctOn some [] (initial.map ReplySegment.streamId ++ (frames ++ [e]).map ReplyEvent.streamId) =
      if e.streamId ∈ parts.map ReplySegment.streamId then parts.map ReplySegment.streamId
      else parts.map ReplySegment.streamId ++ [e.streamId] := by
  have hmem := h.mem_streams e.streamId
  rw [List.map_append, List.map_singleton, ← List.append_assoc, distinctOn_concat, ← h.streams]
  simp only [Option.any_some, List.filterMap_some, decide_eq_true_eq, List.mem_append, hmem]

theorem Converged.other (h : Converged initial frames parts) {p : ReplySegment} (hp : p ∈ parts)
    (hother : e.streamId = p.streamId → e.text = none ∧ e.phase ≠ .done) :
    Longest (textsOf initial (frames ++ [e]) p.streamId) p.content ∧
      (p.done = true ↔ (∃ q ∈ initial, q.streamId = p.streamId ∧ q.done = true) ∨
        ∃ f ∈ frames ++ [e], f.streamId = p.streamId ∧ f.phase = .done) := by
  constructor
  · have hnone : (if e.streamId = p.streamId then e.text.toList else []) = [] := by
      split
      · rename_i hsame
        rw [(hother hsame).1]
        rfl
      · rfl
    rw [textsOf_concat, hnone, List.append_nil]
    exact h.content p hp
  · rw [h.done p hp]
    refine or_congr_right ⟨fun ⟨f, hf, hrest⟩ => ⟨f, List.mem_append_left _ hf, hrest⟩, ?_⟩
    rintro ⟨f, hf, hid, hphase⟩
    rcases List.mem_append.mp hf with hold | hlast
    · exact ⟨f, hold, hid, hphase⟩
    · rw [List.mem_singleton.mp hlast] at hid hphase
      exact absurd hphase (hother hid).2

theorem Converged.cut (h : Converged initial frames parts) (hcut : Cumulative final initial frames) {p : ReplySegment}
    (hp : p ∈ parts) : startsWith (final p.streamId) p.content = true := by
  rcases List.mem_cons.mp (h.content p hp).1 with hempty | hin
  · rw [hempty]
    exact startsWith_empty _
  · rcases List.mem_append.mp hin with hin | hin
    · obtain ⟨q, hq, hcontent⟩ := List.mem_map.mp hin
      obtain ⟨hq, hid⟩ := List.mem_filter.mp hq
      rw [← hcontent, ← of_decide_eq_true hid]
      exact hcut.initial q hq
    · obtain ⟨f, hf, htext⟩ := List.mem_filterMap.mp hin
      obtain ⟨hf, hid⟩ := List.mem_filter.mp hf
      rw [← of_decide_eq_true hid]
      exact hcut.frames f hf _ htext

theorem Converged.merged (h : Converged initial frames parts) (hcut : Cumulative final initial (frames ++ [e]))
    {p : ReplySegment} (hp : p ∈ parts) (hid : p.streamId = e.streamId) :
    Longest (textsOf initial (frames ++ [e]) e.streamId) (mergeSegment p e.part).content := by
  have hlongest := h.content p hp
  rw [hid] at hlongest
  have hbefore : Cumulative final initial frames :=
    ⟨hcut.initial, fun f hf => hcut.frames f (List.mem_append_left _ hf)⟩
  rw [mergeSegment_physical (h.physical p hp), textsOf_concat, if_pos rfl]
  cases ht : e.text with
  | none =>
      have hkeep : startsWith p.content e.part.content = true := by
        rw [ReplyEvent.part, ht]
        exact startsWith_empty _
      simp only [hkeep, if_true, Option.toList_none, List.append_nil]
      exact hlongest
  | some t =>
      have hpart : e.part.content = t := by rw [ReplyEvent.part, ht, Option.getD_some]
      have hold := h.cut hbefore hp
      rw [hid] at hold
      have hnew := hcut.frames e (List.mem_append_right _ (List.mem_singleton.mpr rfl)) t ht
      simp only [hpart, Option.toList_some]
      exact hlongest.concat (startsWith_total hold hnew)

theorem Converged.skip (h : Converged initial frames parts) (hstarted : e.phase = .started)
    (hin : e.streamId ∈ parts.map ReplySegment.streamId) : Converged initial (frames ++ [e]) parts := by
  have hquiet : ∀ q : ReplySegment, e.streamId = q.streamId → e.text = none ∧ e.phase ≠ .done := fun q _ =>
    ⟨if_pos hstarted, by rw [hstarted]; decide⟩
  refine ⟨?_, fun q hq => (h.other hq (hquiet q)).1, fun q hq => (h.other hq (hquiet q)).2, h.physical⟩
  rw [h.streams_concat, if_pos hin]

theorem Converged.grow (h : Converged initial frames parts) (hcut : Cumulative final initial (frames ++ [e]))
    (hphysical : startsWith e.streamId "history:" = false) (hin : e.streamId ∈ parts.map ReplySegment.streamId) :
    Converged initial (frames ++ [e]) (mergeParts parts [e.part]) := by
  obtain ⟨p, hp, hid⟩ := List.mem_map.mp hin
  obtain ⟨front, back, hparts⟩ := List.append_of_mem hp
  have hnodup := h.nodup
  rw [hparts, List.map_append, List.map_cons, List.nodup_append, List.nodup_cons] at hnodup
  obtain ⟨-, ⟨hback, -⟩, hfront⟩ := hnodup
  have hfront' : ∀ q ∈ front, q.streamId ≠ e.streamId := fun q hq hqe =>
    hfront q.streamId (List.mem_map_of_mem hq) p.streamId List.mem_cons_self (hqe.trans hid.symm)
  have hback' : ∀ q ∈ back, q.streamId ≠ e.streamId := fun q hq hqe =>
    hback (List.mem_map.mpr ⟨q, hq, hqe.trans hid.symm⟩)
  have hcases : ∀ q ∈ front ++ mergeSegment p e.part :: back,
      (q ∈ parts ∧ q.streamId ≠ e.streamId) ∨ q = mergeSegment p e.part := by
    intro q hq
    rw [hparts]
    rcases List.mem_append.mp hq with hq | hq
    · exact Or.inl ⟨List.mem_append_left _ hq, hfront' q hq⟩
    · rcases List.mem_cons.mp hq with rfl | hq
      · exact Or.inr rfl
      · exact Or.inl ⟨List.mem_append_right _ (List.mem_cons_of_mem _ hq), hback' q hq⟩
  have hsegment := mergeSegment_physical (h.physical p hp) e
  have hstream : (mergeSegment p e.part).streamId = e.streamId := by rw [hsegment]; rfl
  rw [mergeParts_known hparts hid hfront']
  constructor
  · rw [h.streams_concat, if_pos hin, hparts, List.map_append, List.map_append, List.map_cons, List.map_cons, hid, hstream]
  · intro q hq
    rcases hcases q hq with ⟨hq, hne⟩ | rfl
    · exact (h.other hq fun hsame => absurd hsame.symm hne).1
    · rw [hstream]
      exact h.merged hcut hp hid
  · intro q hq
    rcases hcases q hq with ⟨hq, hne⟩ | rfl
    · exact (h.other hq fun hsame => absurd hsame.symm hne).2
    · have hdone : (mergeSegment p e.part).done = true ↔ e.phase = .done ∨ p.done = true := by
        rw [hsegment]
        simp [ReplyEvent.part]
      rw [hdone, hstream, h.done p hp, hid]
      simp only [List.mem_append, List.mem_singleton]
      constructor
      · rintro (hphase | hinitial | ⟨f, hf, hrest⟩)
        · exact Or.inr ⟨e, Or.inr rfl, rfl, hphase⟩
        · exact Or.inl hinitial
        · exact Or.inr ⟨f, Or.inl hf, hrest⟩
      · rintro (hinitial | ⟨f, hf | rfl, hid', hphase⟩)
        · exact Or.inr (Or.inl hinitial)
        · exact Or.inr (Or.inr ⟨f, hf, hid', hphase⟩)
        · exact Or.inl hphase
  · intro q hq
    rcases hcases q hq with ⟨hq, -⟩ | rfl
    · exact h.physical q hq
    · rw [hsegment]
      exact ⟨rfl, hphysical⟩

theorem Converged.open (h : Converged initial frames parts) (hphysical : startsWith e.streamId "history:" = false)
    (hin : e.streamId ∉ parts.map ReplySegment.streamId) :
    Converged initial (frames ++ [e]) (mergeParts parts [e.part]) := by
  have hnew : ∀ q ∈ parts, q.streamId ≠ e.streamId := fun q hq hqe => hin (List.mem_map.mpr ⟨q, hq, hqe⟩)
  have hunseen := (h.mem_streams e.streamId).not.mp hin
  have hcases : ∀ q ∈ parts ++ [e.part], (q ∈ parts ∧ q.streamId ≠ e.streamId) ∨ q = e.part := by
    intro q hq
    rcases List.mem_append.mp hq with hq | hq
    · exact Or.inl ⟨hq, hnew q hq⟩
    · exact Or.inr (List.mem_singleton.mp hq)
  rw [mergeParts_new h.physical hnew]
  constructor
  · rw [h.streams_concat, if_neg hin, List.map_append]
    rfl
  · intro q hq
    rcases hcases q hq with ⟨hq, hne⟩ | rfl
    · exact (h.other hq fun hsame => absurd hsame.symm hne).1
    · have hempty : textsOf initial frames e.streamId = [""] := by
        have hinitial : initial.filter (fun p => decide (p.streamId = e.streamId)) = [] :=
          List.filter_eq_nil_iff.mpr fun p hp hpe =>
            hunseen (Or.inl (List.mem_map.mpr ⟨p, hp, of_decide_eq_true hpe⟩))
        have hframes : frames.filter (fun f => decide (f.streamId = e.streamId)) = [] :=
          List.filter_eq_nil_iff.mpr fun f hf hfe =>
            hunseen (Or.inr (List.mem_map.mpr ⟨f, hf, of_decide_eq_true hfe⟩))
        rw [textsOf, hinitial, hframes]
        rfl
      have hstream : e.part.streamId = e.streamId := rfl
      rw [hstream, textsOf_concat, if_pos rfl, hempty]
      cases ht : e.text with
      | none => simp [Longest, ReplyEvent.part, ht, startsWith_refl]
      | some t => simp [Longest, ReplyEvent.part, ht, startsWith_refl, startsWith_empty]
  · intro q hq
    rcases hcases q hq with ⟨hq, hne⟩ | rfl
    · exact (h.other hq fun hsame => absurd hsame.symm hne).2
    · have hdone : e.part.done = true ↔ e.phase = .done := by simp [ReplyEvent.part]
      rw [hdone]
      constructor
      · exact fun hphase => Or.inr ⟨e, List.mem_append_right _ (List.mem_singleton.mpr rfl), rfl, hphase⟩
      · rintro (⟨p, hp, hid, -⟩ | ⟨f, hf, hid, hphase⟩)
        · exact absurd (Or.inl (List.mem_map.mpr ⟨p, hp, hid⟩)) hunseen
        · rcases List.mem_append.mp hf with hf | hf
          · exact absurd (Or.inr (List.mem_map.mpr ⟨f, hf, hid⟩)) hunseen
          · rwa [List.mem_singleton.mp hf] at hphase
  · intro q hq
    rcases hcases q hq with ⟨hq, -⟩ | rfl
    · exact h.physical q hq
    · exact ⟨rfl, hphysical⟩

theorem receive_converged (h : Converged initial frames parts) (hcut : Cumulative final initial (frames ++ [e]))
    (hphysical : startsWith e.streamId "history:" = false) : Converged initial (frames ++ [e]) (e.receive parts) := by
  have hany : (parts.any fun part => decide (part.streamId = e.streamId)) = true ↔
      e.streamId ∈ parts.map ReplySegment.streamId := by
    simp only [List.any_eq_true, decide_eq_true_eq, List.mem_map]
  unfold ReplyEvent.receive
  split
  · rename_i hlate
    exact h.skip hlate.1 (hany.mp hlate.2)
  · by_cases hin : e.streamId ∈ parts.map ReplySegment.streamId
    · exact h.grow hcut hphysical hin
    · exact h.open hphysical hin

end Parts

-- The reply of a run, after the messages that are none of it, and before its outcome is known.
structure Replying (r : RunId) (front : List ChatMsg) (reply : ChatMsg) : Prop where
  named : r ≠ ""
  first : ∀ m ∈ front, ¬(m.role = .assistant ∧ m.runId.join = some r)
  role : reply.role = .assistant
  run : reply.runId.join = some r
  unsettled : reply.outcome.join = none

def applyFrames (turnStarts : String → List Nat) (messages : List ChatMsg) (frames : List (ReplyEvent × Time)) : List ChatMsg :=
  frames.foldl (fun messages f => updateLogicalReply turnStarts messages f.1 f.2) messages

section Run

variable {turnStarts : String → List Nat} {r : RunId} {front back : List ChatMsg} {old : ChatMsg} {e : ReplyEvent}

theorem updateLogicalReply_reply (turnStarts : String → List Nat) (back : List ChatMsg) (now : Time)
    (h : Replying r front old) (he : e.runId = some r) :
    ∃ reply, updateLogicalReply turnStarts (front ++ old :: back) e now = front ++ reply :: back ∧ Replying r front reply ∧
      initialParts (some reply) = e.receive (initialParts (some old)) := by
  have htruthy : (truthy (some r)).isSome = true := by simp [truthy, h.named]
  have hfits : ∀ m, e.fits m = (decide (m.role = .assistant) && decide (m.runId.join = some r)) := by
    intro m
    rw [ReplyEvent.fits, belongsToRun, he, htruthy]
    simp
  have hindex : (front ++ old :: back).findIdx? e.fits = some front.length := by
    refine findIdx?_split (fun m hm => ?_) ?_ back
    · rw [hfits]
      have hno := h.first m hm
      simpa using fun hrole hrun => hno ⟨hrole, hrun⟩
    · rw [hfits, h.role, h.run]
      simp
  have hget : (front ++ old :: back)[front.length]? = some old := by
    rw [List.getElem?_append_right (Nat.le_refl _)]
    simp
  have hset : ∀ m, (front ++ old :: back).set front.length m = front ++ m :: back := by
    intro m
    rw [List.set_append_right _ _ (Nat.le_refl _)]
    simp
  have hparts : e.parts (some old) = mergeParts (initialParts (some old)) [e.part] := by
    have hrun : ((some old).bind ChatMsg.run).isSome = true := by
      rw [Option.bind_some, ChatMsg.run, h.run]
      exact htruthy
    rw [ReplyEvent.parts]
    simp only [hrun, if_true, updateReplySegments_new]
  simp only [updateLogicalReply, hindex, hget, h.unsettled, Option.isSome_none, Bool.false_eq_true, if_false]
  unfold ReplyEvent.receive
  split
  · exact ⟨old, rfl, h, rfl⟩
  · refine ⟨_, hset _, ⟨h.named, h.first, rfl, ?_, h.unsettled⟩, ?_⟩
    · simp [ReplyEvent.message, he, truthy, h.named]
    · simp only [initialParts, ReplyEvent.message, Option.join_some]
      exact hparts

structure FramesOf (r : RunId) (frames : List (ReplyEvent × Time)) : Prop where
  run : ∀ f ∈ frames, f.1.runId = some r
  physical : ∀ f ∈ frames, startsWith f.1.streamId "history:" = false

theorem applyFrames_converged {final : StreamId → String} {initial : List ReplySegment} (later : List (ReplyEvent × Time))
    (earlier : List ReplyEvent) (hreply : Replying r front old) (hframes : FramesOf r later)
    (hcut : Cumulative final initial (earlier ++ later.map Prod.fst))
    (h : Converged initial earlier (initialParts (some old))) :
    ∃ reply, applyFrames turnStarts (front ++ old :: back) later = front ++ reply :: back ∧ Replying r front reply ∧
      Converged initial (earlier ++ later.map Prod.fst) (initialParts (some reply)) := by
  induction later generalizing earlier old with
  | nil => exact ⟨old, rfl, hreply, by simpa using h⟩
  | cons f later ih =>
      have hshift : earlier ++ (f :: later).map Prod.fst = earlier ++ [f.1] ++ later.map Prod.fst := by
        rw [List.map_cons, List.append_cons]
      rw [hshift] at hcut ⊢
      have hone : Cumulative final initial (earlier ++ [f.1]) :=
        ⟨hcut.initial, fun e he => hcut.frames e (List.mem_append_left _ he)⟩
      obtain ⟨next, hnext, hreply', hparts⟩ :=
        updateLogicalReply_reply turnStarts back f.2 hreply (hframes.run f List.mem_cons_self)
      have hstep := receive_converged h hone (hframes.physical f List.mem_cons_self)
      rw [← hparts] at hstep
      have hrest : FramesOf r later :=
        ⟨fun g hg => hframes.run g (List.mem_cons_of_mem _ hg), fun g hg => hframes.physical g (List.mem_cons_of_mem _ hg)⟩
      obtain ⟨reply, hreply'', hdone⟩ := ih (earlier ++ [f.1]) hreply' hrest hcut hstep
      refine ⟨reply, ?_, hdone⟩
      rw [applyFrames, List.foldl_cons, hnext]
      exact hreply''

theorem converged_start {initial : List ReplySegment} (hphysical : ∀ p ∈ initial, p.Physical)
    (hnodup : (initial.map ReplySegment.streamId).Nodup) : Converged initial [] initial where
  streams := by
    rw [List.map_nil, List.append_nil, distinctOn_of_nodup _ (by rwa [List.filterMap_some]) fun _ _ h => by cases h]
  content p hp := by
    constructor
    · refine List.mem_cons_of_mem _ (List.mem_append_left _ (List.mem_map_of_mem ?_))
      exact List.mem_filter.mpr ⟨hp, decide_eq_true rfl⟩
    · intro t ht
      rcases List.mem_cons.mp ht with rfl | ht
      · exact startsWith_empty _
      · rw [List.filter_nil, List.filterMap_nil, List.append_nil] at ht
        obtain ⟨q, hq, rfl⟩ := List.mem_map.mp ht
        obtain ⟨hq, hid⟩ := List.mem_filter.mp hq
        rw [List.inj_on_of_nodup_map hnodup hq hp (of_decide_eq_true hid)]
        exact startsWith_refl _
  done p hp := by
    constructor
    · exact fun hdone => Or.inl ⟨p, hp, rfl, hdone⟩
    · rintro (⟨q, hq, hid, hdone⟩ | ⟨e, he, -⟩)
      · rwa [List.inj_on_of_nodup_map hnodup hq hp hid] at hdone
      · cases he
  physical := hphysical

theorem textsOf_append (initial : List ReplySegment) (earlier later : List ReplyEvent) (sid : StreamId) :
    ∃ more, textsOf initial (earlier ++ later) sid = textsOf initial earlier sid ++ more := by
  refine ⟨(later.filter fun e => decide (e.streamId = sid)).filterMap ReplyEvent.text, ?_⟩
  rw [textsOf, textsOf, List.filter_append, List.filterMap_append, List.cons_append, List.append_assoc]

theorem Converged.grows {initial parts later : List ReplySegment} {frames more : List ReplyEvent}
    (h : Converged initial frames parts) (h' : Converged initial (frames ++ more) later) :
    ∀ p ∈ parts, ∃ q ∈ later, q.streamId = p.streamId ∧ startsWith q.content p.content = true ∧
      (p.done = true → q.done = true) := by
  intro p hp
  have hstays : p.streamId ∈ later.map ReplySegment.streamId := by
    rw [h'.mem_streams, List.map_append, List.mem_append]
    have hin := (h.mem_streams p.streamId).mp (List.mem_map_of_mem hp)
    tauto
  obtain ⟨q, hq, hid⟩ := List.mem_map.mp hstays
  refine ⟨q, hq, hid, ?_, fun hdone => ?_⟩
  · obtain ⟨texts, htexts⟩ := textsOf_append initial frames more p.streamId
    have hlonger := h'.content q hq
    rw [hid, htexts] at hlonger
    exact (h.content p hp).mono hlonger
  · rw [h'.done q hq, hid]
    refine ((h.done p hp).mp hdone).imp_right ?_
    rintro ⟨e, he, hrest⟩
    exact ⟨e, List.mem_append_left _ he, hrest⟩

end Run

-- Cumulative frames of a run, in any order and number, leave its reply with one segment for each stream in the
-- order of first appearance, holding the longest text that came, done when a `done` frame came; on the way no
-- segment loses text.
theorem frames_converge (turnStarts : String → List Nat) {r : RunId} {front : List ChatMsg} (back : List ChatMsg)
    {old : ChatMsg} (hreply : Replying r front old) (hphysical : ∀ p ∈ initialParts (some old), p.Physical)
    (hnodup : ((initialParts (some old)).map ReplySegment.streamId).Nodup) (final : StreamId → String)
    (frames : List (ReplyEvent × Time)) (hframes : FramesOf r frames)
    (hcut : Cumulative final (initialParts (some old)) (frames.map Prod.fst)) :
    (∃ reply, applyFrames turnStarts (front ++ old :: back) frames = front ++ reply :: back ∧
      Converged (initialParts (some old)) (frames.map Prod.fst) (initialParts (some reply))) ∧
    ∀ earlier middle later, frames = earlier ++ middle ++ later →
      ∃ before after, applyFrames turnStarts (front ++ old :: back) earlier = front ++ before :: back ∧
        applyFrames turnStarts (front ++ old :: back) (earlier ++ middle) = front ++ after :: back ∧
        ∀ p ∈ initialParts (some before), ∃ q ∈ initialParts (some after), q.streamId = p.streamId ∧
          startsWith q.content p.content = true ∧ (p.done = true → q.done = true) := by
  have hrun : ∀ taken left, frames = taken ++ left →
      ∃ reply, applyFrames turnStarts (front ++ old :: back) taken = front ++ reply :: back ∧
        Converged (initialParts (some old)) (taken.map Prod.fst) (initialParts (some reply)) := by
    rintro taken left rfl
    have hsome : FramesOf r taken :=
      ⟨fun f hf => hframes.run f (List.mem_append_left _ hf), fun f hf => hframes.physical f (List.mem_append_left _ hf)⟩
    have hcut' : Cumulative final (initialParts (some old)) ([] ++ taken.map Prod.fst) := by
      refine ⟨hcut.initial, fun e he => hcut.frames e ?_⟩
      rw [List.map_append]
      exact List.mem_append_left _ he
    obtain ⟨reply, hlist, -, hconverged⟩ := applyFrames_converged taken [] hreply hsome hcut' (converged_start hphysical hnodup)
    exact ⟨reply, hlist, hconverged⟩
  refine ⟨hrun frames [] (List.append_nil _).symm, ?_⟩
  intro earlier middle later hsplit
  obtain ⟨before, hbefore, hconverged⟩ := hrun earlier (middle ++ later) (by rw [hsplit, List.append_assoc])
  obtain ⟨after, hafter, hconverged'⟩ := hrun (earlier ++ middle) later hsplit
  rw [List.map_append] at hconverged'
  exact ⟨before, after, hbefore, hafter, hconverged.grows hconverged'⟩

-- A repeated and a late frame of one stream around a frame of another.
def mixedFrames : List (ReplyEvent × Time) :=
  [(⟨.next, "s", some "ab", none, some "r", none, none, none, none, none, 0, 0, none⟩, 1),
    ({ phase := .started, streamId := "t", runId := some "r" }, 2),
    ({ phase := .next, streamId := "s", content := some "a", runId := some "r" }, 3),
    ({ phase := .done, streamId := "s", content := some "abc", runId := some "r" }, 4),
    ({ phase := .started, streamId := "s", runId := some "r" }, 5)]

theorem frames_converge_mixed :
    ∃ reply, applyFrames (fun _ => []) [{ role := .assistant, content := "", runId := some (some "r") }] mixedFrames =
        [reply] ∧
      Converged [] (mixedFrames.map Prod.fst) (initialParts (some reply)) ∧
      (initialParts (some reply)).map (fun p => (p.streamId, p.content, p.done)) = [("s", "abc", true), ("t", "", false)] := by
  have hreply : Replying "r" [] { role := .assistant, content := "", runId := some (some "r") } :=
    ⟨by decide, by simp, rfl, rfl, rfl⟩
  have hframes : FramesOf "r" mixedFrames := ⟨by decide, by decide⟩
  have hcut : Cumulative (fun _ => "abc") [] (mixedFrames.map Prod.fst) := by
    refine ⟨by simp, fun e he t ht => ?_⟩
    have hall : ∀ e ∈ mixedFrames.map Prod.fst, e.text.all fun t => startsWith "abc" t := by decide
    simpa [ht] using hall e he
  obtain ⟨⟨reply, hlist, hconverged⟩, -⟩ :=
    frames_converge (fun _ => []) [] hreply (fun _ h => by cases h) List.nodup_nil _ mixedFrames hframes hcut
  refine ⟨reply, hlist, hconverged, ?_⟩
  have hparts : (applyFrames (fun _ => []) [{ role := .assistant, content := "", runId := some (some "r") }] mixedFrames).map
      (fun m => (initialParts (some m)).map fun p => (p.streamId, p.content, p.done)) =
      [[("s", "abc", true), ("t", "", false)]] := by decide
  rw [show applyFrames (fun _ => []) [{ role := .assistant, content := "", runId := some (some "r") }] mixedFrames = [reply]
    from hlist] at hparts
  simpa using hparts

end GaHub.Chat
