import GaHub.Chat.Merge
import GaHub.Lib.Distinct

namespace GaHub.Chat

open Lib

def withParts (turnStarts : String → List Nat) (m : ChatMsg) (parts : List ReplySegment) : ChatMsg :=
  { m with
    segments := some (some parts)
    content := replySegmentsContent parts
    turnSegments := some (replySegmentsTurns turnStarts parts) }

def archiveKey (m : ChatMsg) : Option (StreamId × Role) :=
  (if m.run.isSome then none else m.stream).map fun sid => (sid, m.role)

def pageKey (m : ChatMsg) : Option ((RunId × Role) ⊕ (StreamId × Role)) :=
  (m.runKey.map Sum.inl).or ((archiveKey m).map Sum.inr)

def partsOf (key : RunId × Role) (l : List ChatMsg) : List ReplySegment :=
  (l.filter fun m => decide (m.runKey = some key)).flatMap ChatMsg.parts

-- A message as it stands once all the messages of its run are joined.
def joined (turnStarts : String → List Nat) (l : List ChatMsg) (m : ChatMsg) : ChatMsg :=
  match m.runKey with
  | some (run, .assistant) => withParts turnStarts m (distinctParts [] (partsOf (run, .assistant) l))
  | _ => m

-- An answer of a run holds its segments and what follows from them.
def Whole (turnStarts : String → List Nat) (m : ChatMsg) : Prop :=
  m.run.isSome = true → m.role = .assistant → withParts turnStarts m (distinctParts [] m.parts) = m

section Distinct

variable {turnStarts : String → List Nat} {l : List ChatMsg} {m : ChatMsg}

theorem distinctParts_eq (seen : List StreamId) (parts : List ReplySegment) :
    distinctParts seen parts = distinctOn (fun part => some part.streamId) seen parts := by
  induction parts generalizing seen with
  | nil => rfl
  | cons part rest ih => simp only [distinctParts, distinctOn, ih]

theorem distinctArchive_eq (seen : List (StreamId × Role)) (l : List ChatMsg) :
    distinctArchive seen l = distinctOn archiveKey seen l := by
  induction l generalizing seen with
  | nil => rfl
  | cons m rest ih =>
      simp only [distinctArchive, distinctOn, archiveKey]
      cases if m.run.isSome then none else m.stream with
      | none => simp [ih]
      | some sid => simp [ih]

theorem distinctParts_idem (parts parts' : List ReplySegment) :
    distinctParts [] (distinctParts [] parts ++ distinctParts [] parts') = distinctParts [] (parts ++ parts') := by
  simp only [distinctParts_eq]
  exact distinctOn_idem_append parts parts'

@[simp] theorem withParts_runKey (m : ChatMsg) (parts : List ReplySegment) :
    (withParts turnStarts m parts).runKey = m.runKey := rfl

@[simp] theorem joined_runKey (l : List ChatMsg) (m : ChatMsg) : (joined turnStarts l m).runKey = m.runKey := by
  unfold joined
  split <;> rfl

@[simp] theorem joined_archiveKey (l : List ChatMsg) (m : ChatMsg) :
    archiveKey (joined turnStarts l m) = archiveKey m := by
  unfold joined
  split <;> rfl

@[simp] theorem joined_pageKey (l : List ChatMsg) (m : ChatMsg) : pageKey (joined turnStarts l m) = pageKey m := by
  simp [pageKey]

theorem joined_answer {run : RunId} (h : m.runKey = some (run, .assistant)) (l : List ChatMsg) :
    joined turnStarts l m = withParts turnStarts m (distinctParts [] (partsOf (run, .assistant) l)) := by
  simp only [joined, h]

theorem joined_other (h : ∀ run, m.runKey ≠ some (run, .assistant)) (l : List ChatMsg) : joined turnStarts l m = m := by
  unfold joined
  split
  · rename_i run hkey
    exact absurd hkey (h run)
  · rfl

theorem runKey_role {key : RunId × Role} (h : m.runKey = some key) : m.role = key.2 ∧ m.run = some key.1 := by
  obtain ⟨run, hrun, rfl⟩ := Option.map_eq_some_iff.mp h
  exact ⟨rfl, hrun⟩

theorem joined_congr {l l' : List ChatMsg} (h : ∀ run, m.runKey = some (run, .assistant) →
      distinctParts [] (partsOf (run, .assistant) l) = distinctParts [] (partsOf (run, .assistant) l')) :
    joined turnStarts l m = joined turnStarts l' m := by
  unfold joined
  split
  · rename_i run hkey
    rw [h run hkey]
  · rfl

theorem partsOf_append (key : RunId × Role) (l l' : List ChatMsg) : partsOf key (l ++ l') = partsOf key l ++ partsOf key l' := by
  simp [partsOf]

theorem partsOf_eq_nil {key : RunId × Role} (h : ∀ m ∈ l, m.runKey ≠ some key) : partsOf key l = [] := by
  have hnone : l.filter (fun m => decide (m.runKey = some key)) = [] := by
    refine List.filter_eq_nil_iff.mpr fun m hm => ?_
    simpa using h m hm
  simp [partsOf, hnone]

end Distinct

section Coalesce

variable {turnStarts : String → List Nat} {l out : List ChatMsg} {msg : ChatMsg}

theorem coalesceStep_of_mem (hnodup : (out.filterMap ChatMsg.runKey).Nodup) {key : RunId × Role}
    (hkey : msg.runKey = some key) (hmem : key ∈ out.filterMap ChatMsg.runKey) :
    coalesceStep turnStarts out msg =
      out.map fun m => if m.runKey = some key then absorb turnStarts m msg else m := by
  have hcases := coalesceStep_cases turnStarts out msg
  generalize coalesceStep turnStarts out msg = next at hcases
  obtain ⟨present, hpresent, hpresentKey⟩ := List.mem_filterMap.mp hmem
  cases hcases with
  | added hnew => exact absurd hpresentKey (hnew key hkey present hpresent)
  | absorbed key' front back m hkey' hm hout =>
      cases hkey.symm.trans hkey'
      subst hout
      simp only [List.filterMap_append, List.filterMap_cons, hm] at hnodup
      obtain ⟨hfront, hback⟩ : key ∉ front.filterMap ChatMsg.runKey ∧ key ∉ back.filterMap ChatMsg.runKey := by
        have hmiddle := List.nodup_middle.mp hnodup
        simp only [List.nodup_cons, List.mem_append, not_or] at hmiddle
        exact hmiddle.1
      have hkeep : ∀ l : List ChatMsg, key ∉ l.filterMap ChatMsg.runKey →
          l.map (fun m => if m.runKey = some key then absorb turnStarts m msg else m) = l := by
        intro l hl
        refine (List.map_congr_left fun m hm => ?_).trans (List.map_id l)
        rw [if_neg fun h => hl (List.mem_filterMap.mpr ⟨m, hm, h⟩)]
        rfl
      rw [List.map_append, List.map_cons, if_pos hm, hkeep _ hfront, hkeep _ hback]

theorem joined_absorb (l : List ChatMsg) {m : ChatMsg} {key : RunId × Role} (hm : m.runKey = some key)
    (hmsg : msg.runKey = some key) :
    joined turnStarts (l ++ [msg]) m = absorb turnStarts (joined turnStarts l m) msg := by
  have hrole := (runKey_role hmsg).1
  obtain ⟨run, role⟩ := key
  by_cases hassistant : role = .assistant
  · subst hassistant
    have hparts : partsOf (run, .assistant) [msg] = msg.parts := by simp [partsOf, hmsg]
    rw [joined_answer hm, joined_answer hm, absorb, if_pos hrole, partsOf_append, hparts]
    have hsplit : distinctParts [] (distinctParts [] (partsOf (run, .assistant) l) ++ msg.parts) =
        distinctParts [] (partsOf (run, .assistant) l ++ msg.parts) := by
      simp only [distinctParts_eq, distinctOn_append]
      rw [distinctOn_distinctOn (by simp)]
      refine congrArg _ (distinctOn_congr _ fun k => ?_)
      have h := mem_keys_distinctOn (f := fun part : ReplySegment => some part.streamId) []
        (partsOf (run, .assistant) l) k
      simpa using h
    change _ = withParts turnStarts _ (distinctParts [] (distinctParts [] (partsOf (run, .assistant) l) ++ msg.parts))
    rw [hsplit]
    rfl
  · have hother : ∀ run', m.runKey ≠ some (run', .assistant) := by
      intro run' h
      cases hm.symm.trans h
      exact hassistant rfl
    rw [joined_other hother, joined_other hother, absorb, if_neg]
    rw [hrole]
    exact hassistant

theorem coalesce_eq (l : List ChatMsg) (hwhole : ∀ m ∈ l, Whole turnStarts m) :
    coalesceArchiveRuns turnStarts l = (distinctOn ChatMsg.runKey [] l).map (joined turnStarts l) := by
  induction l using List.reverseRecOn with
  | nil => rfl
  | append_singleton l msg ih =>
      have hstep : coalesceArchiveRuns turnStarts (l ++ [msg]) =
          coalesceStep turnStarts (coalesceArchiveRuns turnStarts l) msg := by
        simp [coalesceArchiveRuns]
      have hout := ih fun m hm => hwhole m (List.mem_append_left _ hm)
      have hkeys : (coalesceArchiveRuns turnStarts l).filterMap ChatMsg.runKey =
          (distinctOn ChatMsg.runKey [] l).filterMap ChatMsg.runKey := by
        rw [hout, List.filterMap_map]
        exact List.filterMap_congr fun m _ => joined_runKey l m
      have hmem : ∀ k, k ∈ (distinctOn ChatMsg.runKey [] l).filterMap ChatMsg.runKey ↔ k ∈ l.filterMap ChatMsg.runKey := by
        intro k
        have h := mem_keys_distinctOn (f := ChatMsg.runKey) [] l k
        simpa using h
      rw [hstep, distinctOn_append, List.append_nil, List.map_append]
      cases hkey : msg.runKey with
      | none =>
          have hkept : (distinctOn ChatMsg.runKey [] l).map (joined turnStarts (l ++ [msg])) =
              coalesceArchiveRuns turnStarts l := by
            rw [hout]
            refine List.map_congr_left fun m _ => joined_congr fun run _ => ?_
            rw [partsOf_append, @partsOf_eq_nil [msg] _ (by simp [hkey]), List.append_nil]
          have hself : joined turnStarts (l ++ [msg]) msg = msg := joined_other (by simp [hkey]) _
          rw [hkept]
          simp [coalesceStep, hkey, distinctOn, hself]
      | some key =>
          by_cases hseen : key ∈ l.filterMap ChatMsg.runKey
          · have hlast : distinctOn ChatMsg.runKey (l.filterMap ChatMsg.runKey) [msg] = [] :=
              distinctOn_of_seen _ fun x hx => ⟨key, hseen, (List.mem_singleton.mp hx) ▸ hkey⟩
            rw [coalesceStep_of_mem (hkeys ▸ (nodup_keys_distinctOn [] l).1) hkey (hkeys ▸ (hmem key).mpr hseen), hlast,
              List.map_nil, List.append_nil, hout, List.map_map]
            refine List.map_congr_left fun m _ => ?_
            simp only [Function.comp_apply, joined_runKey]
            split
            · rename_i hm
              exact (joined_absorb l hm hkey).symm
            · rename_i hm
              refine joined_congr fun run hrun => ?_
              have hnone : partsOf (run, .assistant) [msg] = [] := by
                refine partsOf_eq_nil fun x hx => ?_
                rw [List.mem_singleton.mp hx, hkey, ← hrun]
                exact fun h => hm h.symm
              rw [partsOf_append, hnone, List.append_nil]
          · have hlast : distinctOn ChatMsg.runKey (l.filterMap ChatMsg.runKey) [msg] = [msg] := by
              simp [distinctOn, hkey, hseen]
            have hnew : coalesceStep turnStarts (coalesceArchiveRuns turnStarts l) msg =
                coalesceArchiveRuns turnStarts l ++ [msg] := by
              have hcases := coalesceStep_cases turnStarts (coalesceArchiveRuns turnStarts l) msg
              generalize coalesceStep turnStarts (coalesceArchiveRuns turnStarts l) msg = next at hcases
              cases hcases with
              | added _ => rfl
              | absorbed key' front back m hkey' hm hsplit =>
                  cases hkey.symm.trans hkey'
                  refine absurd ?_ hseen
                  rw [← hmem, ← hkeys, hsplit]
                  exact List.mem_filterMap.mpr ⟨m, by simp, hm⟩
            have hkept : (distinctOn ChatMsg.runKey [] l).map (joined turnStarts (l ++ [msg])) =
                coalesceArchiveRuns turnStarts l := by
              rw [hout]
              refine List.map_congr_left fun m hm => joined_congr fun run hrun => ?_
              have hnone : partsOf (run, .assistant) [msg] = [] := by
                refine partsOf_eq_nil fun x hx h => hseen ?_
                rw [List.mem_singleton.mp hx, hkey] at h
                rw [← hmem]
                exact List.mem_filterMap.mpr ⟨m, hm, hrun.trans h.symm⟩
              rw [partsOf_append, hnone, List.append_nil]
            have hself : joined turnStarts (l ++ [msg]) msg = msg := by
              by_cases hassistant : ∃ run, key = (run, .assistant)
              · obtain ⟨run, rfl⟩ := hassistant
                have hnone : partsOf (run, .assistant) l = [] := by
                  refine partsOf_eq_nil fun x hx h => hseen ?_
                  exact List.mem_filterMap.mpr ⟨x, hx, h⟩
                have hown : partsOf (run, .assistant) [msg] = msg.parts := by simp [partsOf, hkey]
                obtain ⟨hrole, hrun⟩ := runKey_role hkey
                rw [joined_answer hkey, partsOf_append, hnone, hown, List.nil_append]
                exact hwhole msg (by simp) (by simp [hrun]) hrole
              · refine joined_other (fun run h => hassistant ⟨run, ?_⟩) _
                exact Option.some.inj (hkey.symm.trans h)
            rw [hnew, hlast, hkept, List.map_cons, List.map_nil, hself]

end Coalesce

-- What is left of a list of archive messages, before it is ordered.
def archived (turnStarts : String → List Nat) (l : List ChatMsg) : List ChatMsg :=
  coalesceArchiveRuns turnStarts (distinctArchive [] l)

section Archived

variable {turnStarts : String → List Nat} {l l' : List ChatMsg}

theorem archiveKey_of_runKey {m : ChatMsg} {key : RunId × Role} (h : m.runKey = some key) : archiveKey m = none := by
  have hrun := (runKey_role h).2
  simp [archiveKey, hrun]

theorem distinctOn_pageKey (seen : List (RunId × Role)) (seen' : List (StreamId × Role)) (l : List ChatMsg) :
    distinctOn ChatMsg.runKey seen (distinctOn archiveKey seen' l) =
      distinctOn pageKey (seen.map Sum.inl ++ seen'.map Sum.inr) l := by
  induction l generalizing seen seen' with
  | nil => rfl
  | cons m rest ih =>
      cases hkey : m.runKey with
      | some key =>
          have hnone := archiveKey_of_runKey hkey
          have hpage : pageKey m = some (Sum.inl key) := by simp [pageKey, hkey]
          simp only [distinctOn, hnone, hkey, hpage, ih, List.mem_append, List.mem_map, Sum.inl.injEq, exists_eq_right,
            reduceCtorEq, and_false, exists_false, or_false, List.map_cons, List.cons_append]
      | none =>
          cases harchive : archiveKey m with
          | none =>
              have hpage : pageKey m = none := by simp [pageKey, hkey, harchive]
              simp only [distinctOn, harchive, hkey, hpage, ih]
          | some sid =>
              have hpage : pageKey m = some (Sum.inr sid) := by simp [pageKey, hkey, harchive]
              simp only [distinctOn, harchive, hpage, List.mem_append, List.mem_map, Sum.inr.injEq, exists_eq_right,
                reduceCtorEq, and_false, exists_false, false_or]
              split
              · exact ih seen seen'
              · simp only [distinctOn, hkey, ih]
                refine congrArg _ (distinctOn_congr rest fun k => ?_)
                simp only [List.mem_append, List.map_cons, List.mem_cons]
                tauto

theorem partsOf_distinctOn (key : RunId × Role) (seen : List (StreamId × Role)) (l : List ChatMsg) :
    partsOf key (distinctOn archiveKey seen l) = partsOf key l := by
  induction l generalizing seen with
  | nil => rfl
  | cons m rest ih =>
      have hcons : ∀ l : List ChatMsg, partsOf key (m :: l) = partsOf key [m] ++ partsOf key l := fun l =>
        partsOf_append key [m] l
      cases harchive : archiveKey m with
      | none =>
          simp only [distinctOn, harchive]
          rw [hcons (distinctOn archiveKey seen rest), hcons rest, ih]
      | some sid =>
          have hnone : partsOf key [m] = [] := by
            refine partsOf_eq_nil fun x hx h => ?_
            rw [List.mem_singleton.mp hx] at h
            rw [archiveKey_of_runKey h] at harchive
            cases harchive
          rw [hcons rest, hnone, List.nil_append]
          simp only [distinctOn, harchive]
          split
          · exact ih seen
          · rw [hcons, hnone, List.nil_append, ih]

theorem archived_eq (hwhole : ∀ m ∈ l, Whole turnStarts m) :
    archived turnStarts l = (distinctOn pageKey [] l).map (joined turnStarts l) := by
  have hsub : ∀ m ∈ distinctArchive [] l, Whole turnStarts m := by
    intro m hm
    rw [distinctArchive_eq] at hm
    exact hwhole m (mem_of_mem_distinctOn hm)
  rw [archived, coalesce_eq _ hsub, distinctArchive_eq, distinctOn_pageKey]
  refine List.map_congr_left fun m _ => joined_congr fun run _ => ?_
  rw [partsOf_distinctOn]

theorem joined_whole (l : List ChatMsg) {m : ChatMsg} (h : Whole turnStarts m) : Whole turnStarts (joined turnStarts l m) := by
  by_cases hanswer : ∃ run, m.runKey = some (run, .assistant)
  · obtain ⟨run, hkey⟩ := hanswer
    intro _ _
    rw [joined_answer hkey]
    have hidem := distinctParts_idem (partsOf (run, .assistant) l) []
    have hparts : distinctParts [] (distinctParts [] (partsOf (run, .assistant) l)) =
        distinctParts [] (partsOf (run, .assistant) l) := by simpa [distinctParts] using hidem
    change withParts turnStarts _ (distinctParts [] (distinctParts [] (partsOf (run, .assistant) l))) = _
    rw [hparts]
    rfl
  · rw [joined_other fun run hkey => hanswer ⟨run, hkey⟩]
    exact h

theorem archived_whole (hwhole : ∀ m ∈ l, Whole turnStarts m) : ∀ m ∈ archived turnStarts l, Whole turnStarts m := by
  intro m hm
  rw [archived_eq hwhole] at hm
  obtain ⟨original, hin, rfl⟩ := List.mem_map.mp hm
  exact joined_whole l (hwhole original (mem_of_mem_distinctOn hin))

theorem pageKey_inl {m : ChatMsg} {key : RunId × Role} : pageKey m = some (Sum.inl key) ↔ m.runKey = some key := by
  unfold pageKey
  cases m.runKey with
  | none => simp
  | some key' => simp

theorem partsOf_archived (hwhole : ∀ m ∈ l, Whole turnStarts m) (run : RunId) :
    partsOf (run, .assistant) (archived turnStarts l) = distinctParts [] (partsOf (run, .assistant) l) := by
  have hfilter : (distinctOn pageKey [] l).filter (fun m => decide (m.runKey = some (run, .assistant))) =
      (l.filter fun m => decide (m.runKey = some (run, .assistant))).take 1 := by
    have h := filter_distinctOn (f := pageKey) [] l (Sum.inl (run, .assistant)) (by simp)
    simpa only [pageKey_inl] using h
  rw [archived_eq hwhole]
  unfold partsOf
  rw [List.filter_map]
  have hsame : ((fun m => decide (m.runKey = some (run, Role.assistant))) ∘ joined turnStarts l) =
      fun m => decide (m.runKey = some (run, .assistant)) := by
    funext m
    simp
  rw [hsame, hfilter]
  cases hl : l.filter fun m => decide (m.runKey = some (run, .assistant)) with
  | nil => rfl
  | cons m rest =>
      have hm : m.runKey = some (run, .assistant) := by
        have hin : m ∈ l.filter fun m => decide (m.runKey = some (run, .assistant)) := by simp [hl]
        exact of_decide_eq_true (List.mem_filter.mp hin).2
      simp only [List.take_succ_cons, List.take_zero, List.map_cons, List.map_nil, List.flatMap_cons, List.flatMap_nil,
        List.append_nil, joined_answer hm]
      change distinctParts [] (partsOf (run, .assistant) l) = _
      unfold partsOf
      rw [hl]
      rfl

theorem archived_append (hwhole : ∀ m ∈ l, Whole turnStarts m) (hwhole' : ∀ m ∈ l', Whole turnStarts m) :
    archived turnStarts (archived turnStarts l ++ archived turnStarts l') = archived turnStarts (l ++ l') := by
  have hboth : ∀ m ∈ l ++ l', Whole turnStarts m := by
    intro m hm
    exact (List.mem_append.mp hm).elim (hwhole m) (hwhole' m)
  have hjoined : ∀ m ∈ archived turnStarts l ++ archived turnStarts l', Whole turnStarts m := by
    intro m hm
    exact (List.mem_append.mp hm).elim (archived_whole hwhole m) (archived_whole hwhole' m)
  have hparts : ∀ run, distinctParts [] (partsOf (run, .assistant) (archived turnStarts l ++ archived turnStarts l')) =
      distinctParts [] (partsOf (run, .assistant) (l ++ l')) := by
    intro run
    rw [partsOf_append, partsOf_archived hwhole, partsOf_archived hwhole', distinctParts_idem, partsOf_append]
  -- a message that was joined once is joined to what it would be at once
  have hagain : ∀ (part : List ChatMsg) (m : ChatMsg),
      joined turnStarts (archived turnStarts l ++ archived turnStarts l') (joined turnStarts part m) =
        joined turnStarts (l ++ l') m := by
    intro part m
    by_cases hanswer : ∃ run, m.runKey = some (run, .assistant)
    · obtain ⟨run, hkey⟩ := hanswer
      have hkey' : (joined turnStarts part m).runKey = some (run, .assistant) := (joined_runKey part m).trans hkey
      rw [joined_answer hkey', joined_answer hkey, joined_answer hkey, hparts]
      rfl
    · have hother : ∀ run, m.runKey ≠ some (run, .assistant) := fun run hkey => hanswer ⟨run, hkey⟩
      rw [joined_other hother, joined_other hother, joined_other hother]
  have hkeys : ∀ k, k ∈ (archived turnStarts l).filterMap pageKey ↔ k ∈ l.filterMap pageKey := by
    intro k
    have h := mem_keys_distinctOn (f := pageKey) [] l k
    have hsame : (archived turnStarts l).filterMap pageKey = (distinctOn pageKey [] l).filterMap pageKey := by
      rw [archived_eq hwhole, List.filterMap_map]
      exact List.filterMap_congr fun m _ => joined_pageKey l m
    rw [hsame]
    simpa using h
  rw [archived_eq hjoined, archived_eq hboth, distinctOn_append, distinctOn_append, List.map_append, List.map_append]
  refine congrArg₂ (· ++ ·) ?_ ?_
  · rw [archived_eq hwhole, distinctOn_map (joined_pageKey l), distinctOn_distinctOn (by simp), List.map_map]
    refine List.map_congr_left fun m _ => ?_
    have h := hagain l m
    rw [archived_eq hwhole] at h
    exact h
  · have hselect : distinctOn pageKey ((archived turnStarts l).filterMap pageKey ++ []) (archived turnStarts l') =
        (distinctOn pageKey (l.filterMap pageKey ++ []) l').map (joined turnStarts l') := by
      rw [archived_eq hwhole', distinctOn_map (joined_pageKey l'), distinctOn_distinctOn (by simp)]
      refine congrArg _ (distinctOn_congr l' fun k => ?_)
      simpa using hkeys k
    rw [hselect, List.map_map]
    exact List.map_congr_left fun m _ => hagain l' m

theorem archived_twice (l middle l' : List ChatMsg) (hwhole : ∀ m ∈ l ++ middle ++ l', Whole turnStarts m)
    (hkeys : ∀ m ∈ middle, (pageKey m).isSome = true) :
    archived turnStarts (l ++ middle ++ (middle ++ l')) = archived turnStarts (l ++ middle ++ l') := by
  have hwhole' : ∀ m ∈ l ++ middle ++ (middle ++ l'), Whole turnStarts m := by
    intro m hm
    refine hwhole m ?_
    simp only [List.mem_append] at hm ⊢
    tauto
  rw [archived_eq hwhole', archived_eq hwhole, distinctOn_twice l middle l' hkeys]
  refine List.map_congr_left fun m _ => joined_congr fun run _ => ?_
  simp only [partsOf_append, distinctParts_eq]
  exact distinctOn_twice _ _ _ fun _ _ => rfl

end Archived

-- The items of an archive: in order, each with an id of its own.
structure Archive where
  items : List Item
  ordered : items.Pairwise fun x y => x.ordinal < y.ordinal
  distinct : (items.map Item.id).Nodup

def messagesOf (items : List Item) : List ChatMsg :=
  (items.filter fun item => decide (item.role = .user ∨ item.role = .assistant)).map Item.toMessage

section Items

variable {turnStarts : String → List Nat} {items : List Item}

theorem messagesOf_append (items items' : List Item) : messagesOf (items ++ items') = messagesOf items ++ messagesOf items' := by
  simp [messagesOf]

theorem content_single (part : ReplySegment) : replySegmentsContent [part] = part.content := by
  by_cases h : part.content = ""
  · simp [replySegmentsContent, h]
  · simp [replySegmentsContent, h]

theorem turns_single (part : ReplySegment) (value : Option (List String))
    (h : part.turnSegments = validTurnSegments value part.content) :
    replySegmentsTurns turnStarts [part] = part.turnSegments := by
  have hagain : validTurnSegments part.turnSegments part.content = part.turnSegments := by
    rw [h]
    unfold validTurnSegments
    simp [Option.filter_filter]
  cases hturns : part.turnSegments with
  | none =>
      rw [hturns] at hagain
      simp [replySegmentsTurns, hturns, hagain]
  | some turns =>
      have hvalid := hagain
      rw [hturns] at hvalid
      have hparts : (!turns.isEmpty && (turns.all fun part => !part.toList.all isSpace) &&
          decide (String.join turns = part.content)) = true := (Option.filter_eq_some_iff.mp hvalid).2
      simp only [Bool.and_eq_true, Bool.not_eq_true', List.all_eq_true, decide_eq_true_eq] at hparts
      cases turns with
      | nil => simp at hparts
      | cons first rest =>
          have hfirst := hparts.1.2 first (by simp)
          have hsome : part.content ≠ "" := by
            intro hempty
            rw [hempty] at hparts
            have hnil : first.toList = [] := by
              have hjoin := congrArg String.toList hparts.2
              simp at hjoin
              simp [hjoin.1]
            simp [hnil] at hfirst
          simp [replySegmentsTurns, hturns, hvalid, hsome]

theorem toMessage_whole (item : Item) : Whole turnStarts item.toMessage := by
  intro hrun hrole
  have hanswer : item.toMessage.segments = some (some [item.segment]) := by
    have hrun' : item.run.isSome = true := hrun
    have hrole' : item.role = .assistant := hrole
    simp [Item.toMessage, hrun', hrole']
  have hparts : item.toMessage.parts = [item.segment] := by simp [ChatMsg.parts, hanswer]
  have hturns : item.toMessage.turnSegments = some item.segment.turnSegments := by
    have hrole' : item.role = .assistant := hrole
    simp [Item.toMessage, Item.segment, hrole']
  have hone : distinctParts [] [item.segment] = [item.segment] := by simp [distinctParts]
  rw [hparts, hone, withParts, content_single, turns_single item.segment item.turnSegs rfl, ← hanswer, ← hturns]
  rfl

theorem toMessage_stream (item : Item) : item.toMessage.stream = some ("history:" ++ item.id) := by
  simp [ChatMsg.stream, Item.toMessage, truthy]

theorem toMessage_pageKey (item : Item) : (pageKey item.toMessage).isSome = true := by
  have hstream := toMessage_stream item
  cases hrun : item.toMessage.run with
  | none => simp [pageKey, archiveKey, ChatMsg.runKey, hrun, hstream]
  | some run => simp [pageKey, ChatMsg.runKey, hrun]

theorem mem_messagesOf {m : ChatMsg} (h : m ∈ messagesOf items) : ∃ item : Item, item.toMessage = m := by
  obtain ⟨item, _, hm⟩ := List.mem_map.mp h
  exact ⟨item, hm⟩

theorem messagesOf_whole (items : List Item) : ∀ m ∈ messagesOf items, Whole turnStarts m := by
  intro m hm
  obtain ⟨item, rfl⟩ := mem_messagesOf hm
  exact toMessage_whole item

theorem history_archived (hordered : items.Pairwise fun x y => x.ordinal < y.ordinal)
    (hdistinct : (items.map Item.id).Nodup) :
    historyToMessages turnStarts items = archived turnStarts (messagesOf items) := by
  rw [history_eq hordered, archived, distinctArchive_eq]
  refine congrArg _ (distinctOn_of_nodup _ ?_ (by simp)).symm
  rw [List.filterMap_map]
  refine List.Pairwise.filterMap (R := fun x y : Item => x.id ≠ y.id) _ ?_ ?_
  · intro x y hne k hk k' hk' heq
    subst heq
    simp only [Function.comp_apply, archiveKey, Option.map_eq_some_iff] at hk hk'
    obtain ⟨sid, hsid, rfl⟩ := hk
    obtain ⟨sid', hsid', hpair⟩ := hk'
    have hstream : ∀ {item : Item} {sid : StreamId},
        (if item.toMessage.run.isSome then none else item.toMessage.stream) = some sid → sid = "history:" ++ item.id := by
      intro item sid h
      split at h
      · cases h
      · rw [toMessage_stream] at h
        exact (Option.some.inj h).symm
    rw [hstream hsid, hstream hsid'] at hpair
    exact hne ((String.append_right_inj "history:").mp (Prod.mk.inj hpair).1.symm)
  · have hids := hdistinct.sublist ((List.filter_sublist
      (p := fun item : Item => decide (item.role = .user ∨ item.role = .assistant))).map Item.id)
    exact List.pairwise_map.mp hids

theorem archived_fromHistory (items : List Item) : ∀ m ∈ archived turnStarts (messagesOf items), m.fromHistory = true := by
  intro m hm
  rw [archived_eq (messagesOf_whole items)] at hm
  obtain ⟨original, hin, rfl⟩ := List.mem_map.mp hm
  obtain ⟨item, rfl⟩ := mem_messagesOf (mem_of_mem_distinctOn hin)
  unfold joined
  split <;> rfl

theorem mergeLive_nil (base : List ChatMsg) : mergeLive turnStarts base [] = orderConversationTurns base := rfl

end Items

def slice (items : List Item) (lo hi : Nat) : List Item := (items.take hi).drop lo

section Loading

variable (turnStarts : String → List Nat)

-- The pages in the order in which they are loaded, each by its bounds.
def loadPages (items : List Item) (current : List ChatMsg) (pages : List (Nat × Nat)) : List ChatMsg :=
  pages.foldl (fun current page =>
    prependUniqueHistory turnStarts (historyToMessages turnStarts (slice items page.1 page.2)) current) current

-- Each page ends where the loaded items begin, or later, and goes further back; the last one is complete.
def Backwards : Nat → List (Nat × Nat) → Prop
  | lo, [] => lo = 0
  | lo, page :: rest => page.1 ≤ lo ∧ lo ≤ page.2 ∧ Backwards page.1 rest

-- What is loaded before the last page is in the order of the conversation.
def InOrder (items : List Item) (pages : List (Nat × Nat)) : Prop :=
  ∀ page ∈ pages.dropLast, orderConversationTurns (historyToMessages turnStarts (items.drop page.1)) =
    historyToMessages turnStarts (items.drop page.1)

end Loading

section Composition

variable {turnStarts : String → List Nat}

theorem prepend_history (turnStarts : String → List Nat) (archive : Archive) {lo lo' hi : Nat} (hlo : lo' ≤ lo) (hhi : lo ≤ hi) :
    prependUniqueHistory turnStarts (historyToMessages turnStarts (slice archive.items lo' hi))
        (historyToMessages turnStarts (archive.items.drop lo)) =
      orderConversationTurns (historyToMessages turnStarts (archive.items.drop lo')) := by
  have hhistory : ∀ {items : List Item}, items.Sublist archive.items →
      historyToMessages turnStarts items = archived turnStarts (messagesOf items) := fun h =>
    history_archived (archive.ordered.sublist h) (archive.distinct.sublist (h.map _))
  -- the older items, those on both sides, and the newer ones
  have hnewer : archive.items.drop lo = slice archive.items lo hi ++ archive.items.drop hi := by
    unfold slice
    rw [List.drop_take]
    conv_lhs => rw [← List.take_append_drop (hi - lo) (archive.items.drop lo)]
    rw [List.drop_drop]
    congr 2
    omega
  have hpage : slice archive.items lo' hi = slice archive.items lo' lo ++ slice archive.items lo hi := by
    unfold slice
    rw [List.drop_take, List.drop_take, List.drop_take]
    have hsplit : hi - lo' = (lo - lo') + (hi - lo) := by omega
    rw [hsplit, List.take_add, List.drop_drop]
    congr 3
    omega
  have hall : archive.items.drop lo' = slice archive.items lo' lo ++ slice archive.items lo hi ++ archive.items.drop hi := by
    unfold slice
    rw [List.append_assoc]
    rw [List.drop_take]
    conv_lhs => rw [← List.take_append_drop (lo - lo') (archive.items.drop lo')]
    have hlast : (archive.items.drop lo').drop (lo - lo') = archive.items.drop lo := by
      rw [List.drop_drop]
      congr 1
      omega
    rw [hlast, hnewer]
    rfl
  have hsub : ∀ lo hi, (slice archive.items lo hi).Sublist archive.items := fun lo hi =>
    (List.drop_sublist _ _).trans (List.take_sublist _ _)
  rw [hhistory (hsub lo' hi), hhistory (List.drop_sublist lo _), hhistory (List.drop_sublist lo' _)]
  unfold prependUniqueHistory
  have hkept : (archived turnStarts (messagesOf (archive.items.drop lo))).filter ChatMsg.fromHistory =
      archived turnStarts (messagesOf (archive.items.drop lo)) :=
    List.filter_eq_self.mpr (archived_fromHistory _)
  have hnone : (archived turnStarts (messagesOf (archive.items.drop lo))).filter (fun m => !m.fromHistory) = [] := by
    refine List.filter_eq_nil_iff.mpr fun m hm => ?_
    simp [archived_fromHistory _ m hm]
  rw [hkept, hnone, mergeLive_nil]
  refine congrArg orderConversationTurns ?_
  change archived turnStarts (_ ++ _) = _
  rw [archived_append (messagesOf_whole _) (messagesOf_whole _), hpage, hnewer, hall]
  simp only [messagesOf_append]
  refine archived_twice _ _ _ ?_ fun m hm => ?_
  · intro m hm
    rw [← messagesOf_append, ← messagesOf_append] at hm
    exact messagesOf_whole _ m hm
  · obtain ⟨item, rfl⟩ := mem_messagesOf hm
    exact toMessage_pageKey item

-- Page by page from the newest, the whole archive, when nothing is put in another place on the way.
theorem pages_compose (archive : Archive) (pages : List (Nat × Nat))
    (hpages : Backwards archive.items.length pages) (horder : InOrder turnStarts archive.items pages) :
    loadPages turnStarts archive.items [] pages =
      orderConversationTurns (historyToMessages turnStarts archive.items) := by
  have hload : ∀ (pages : List (Nat × Nat)) (lo : Nat), pages ≠ [] → Backwards lo pages →
      InOrder turnStarts archive.items pages →
      loadPages turnStarts archive.items (historyToMessages turnStarts (archive.items.drop lo)) pages =
        orderConversationTurns (historyToMessages turnStarts archive.items) := by
    intro pages
    induction pages with
    | nil => exact fun lo hne => absurd rfl hne
    | cons page rest ih =>
        intro lo _ hback horder
        obtain ⟨hlo, hhi, hrest⟩ := hback
        have hstep := prepend_history turnStarts archive hlo hhi
        unfold loadPages at ih ⊢
        rw [List.foldl_cons, hstep]
        cases rest with
        | nil =>
            have hzero : page.1 = 0 := hrest
            simp [hzero]
        | cons next rest =>
            rw [horder page (by simp)]
            refine ih page.1 (by simp) hrest fun later hlater => horder later ?_
            simp only [List.dropLast_cons_cons] at hlater ⊢
            exact List.mem_cons_of_mem _ hlater
  cases pages with
  | nil =>
      have hempty : archive.items = [] := List.length_eq_zero_iff.mp hpages
      simp [loadPages, hempty, historyToMessages, coalesceArchiveRuns, orderConversationTurns, sortTurns, conversationTurns,
        placeDated]
  | cons page rest =>
      have h := hload (page :: rest) archive.items.length (by simp) hpages horder
      rw [List.drop_length] at h
      exact h

end Composition

-- A run of two answers over two pages, the first of them loaded with part of the other.
def crossingArchive : Archive where
  items := [{ id := "0", ordinal := 0, role := .user, content := "q", timestamp := some 10, runId := some "r" },
    { id := "1", ordinal := 1, role := .assistant, content := "a", runId := some "r" },
    { id := "2", ordinal := 2, role := .user, content := "continue", timestamp := some 40, runId := some "r" },
    { id := "3", ordinal := 3, role := .assistant, content := "b", runId := some "r" }]
  ordered := by decide
  distinct := by decide

theorem pages_compose_crossing :
    Backwards crossingArchive.items.length [(2, 4), (0, 3)] ∧
      loadPages (fun _ => []) crossingArchive.items [] [(2, 4), (0, 3)] =
        orderConversationTurns (historyToMessages (fun _ => []) crossingArchive.items) := by
  have hback : Backwards crossingArchive.items.length [(2, 4), (0, 3)] := by
    simp [Backwards, crossingArchive]
  have horder : InOrder (fun _ => []) crossingArchive.items [(2, 4), (0, 3)] := by
    intro page hpage
    simp only [List.dropLast_cons_cons, List.dropLast_singleton, List.mem_singleton] at hpage
    subst hpage
    decide
  exact ⟨hback, pages_compose crossingArchive [(2, 4), (0, 3)] hback horder⟩

-- After it a question without a time, and one with an earlier time than the continuation.
def shiftedArchive : Archive where
  items := crossingArchive.items ++
    [{ id := "4", ordinal := 4, role := .user, content := "u" },
     { id := "5", ordinal := 5, role := .user, content := "v", timestamp := some 20 }]
  ordered := by decide
  distinct := by decide

theorem pages_shift_question :
    Backwards shiftedArchive.items.length [(2, 6), (0, 2)] ∧
      ((loadPages (fun _ => []) shiftedArchive.items [] [(2, 6), (0, 2)]).map fun m => m.content) =
        ["q", "a\n\nb", "v", "u"] ∧
      ((orderConversationTurns (historyToMessages (fun _ => []) shiftedArchive.items)).map fun m => m.content) =
        ["q", "a\n\nb", "u", "v"] := by
  refine ⟨?_, by decide, by decide⟩
  simp [Backwards, shiftedArchive, crossingArchive]

end GaHub.Chat
