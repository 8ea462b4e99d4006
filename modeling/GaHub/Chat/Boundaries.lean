import GaHub.Chat.Transcript
import Mathlib.Data.List.Induction
import Mathlib.Data.List.TakeWhile

namespace GaHub.Chat

open Lib Lib.Regex Transcript

-- The starts of the turns that a legacy piece guesses.
def transcriptTurnStarts (content : String) : List Nat := turnStarts (scanTranscript content)

def isBlankPiece (piece : String) : Bool := piece.toList.all isSpace

-- White space with nothing behind it, or with a turn header behind it: the guess then begins with a
-- blank piece.
def opensBlank (content : String) : Bool :=
  let body := content.toList.dropWhile isSpace
  content.toList.head?.any isSpace && (body.isEmpty || (turnRe.exec body).isSome)

def crosses (nodes : List TranscriptNode) : Nat → List String → Bool
  | _, [] => false
  | offset, piece :: pieces =>
    let offset := offset + piece.length
    nodes.any (fun node => decide (node.start < offset ∧ offset < node.stop)) || crosses nodes offset pieces

def opaqueNodes (text : String) : List TranscriptNode :=
  (scanTranscript text).filter fun node =>
    !(node.kind == .text || node.kind == .turn) && !(node.kind == .thinking && !node.complete)

-- The pieces by which `parseAssistantTranscript` goes, where it trusts them.
def trustedSegments (turnSegments : Option (List String)) (text : String) : Option (List String) :=
  (validTurnSegments turnSegments text).filter fun trusted => !crosses (opaqueNodes text) 0 trusted.dropLast

section Cuts

theorem eraseDups_of_nodup {offsets : List Nat} (h : offsets.Nodup) : offsets.eraseDups = offsets := by
  induction offsets with
  | nil => rfl
  | cons a offsets ih =>
    obtain ⟨ha, htail⟩ := List.nodup_cons.mp h
    have hfilter : offsets.filter (fun b => !b == a) = offsets := by
      refine List.filter_eq_self.mpr fun b hb => ?_
      have hne : b ≠ a := fun heq => ha (heq ▸ hb)
      simpa using hne
    rw [List.eraseDups_cons, hfilter, ih htail]

theorem join_cut (content : String) {start : Nat} {offsets : List Nat}
    (hsorted : (start :: offsets ++ [content.length]).Pairwise (· ≤ ·)) :
    String.join (cut content (start :: offsets ++ [content.length])) = String.ofList (content.toList.drop start) := by
  induction offsets generalizing start with
  | nil =>
    have htake := List.take_of_length_le (Nat.le_of_eq (String.length_toList (s := content)))
    simp [cut, htake]
  | cons stop offsets ih =>
    obtain ⟨hstart, htail⟩ := List.pairwise_cons.mp hsorted
    have hle : start ≤ stop := hstart stop (by simp)
    simp only [List.cons_append] at htail ih ⊢
    rw [cut, String.join_cons, ih htail, ← String.ofList_append]
    congr 1
    rw [List.drop_take]
    have hsplit := List.take_append_drop (stop - start) (content.toList.drop start)
    rwa [List.drop_drop, Nat.add_sub_cancel' hle] at hsplit

theorem cut_ne_nil (content : String) (start : Nat) (offsets : List Nat) :
    cut content (start :: offsets ++ [content.length]) ≠ [] := by
  cases offsets with
  | nil => simp [cut]
  | cons stop offsets => simp [cut]

theorem slice_not_blank {content : String} {start stop : Nat} (hlt : start < stop)
    (hheader : (turnRe.exec (content.toList.drop start)).isSome) :
    isBlankPiece (String.ofList ((content.toList.take stop).drop start)) = false := by
  obtain ⟨c, rest, hdrop, hspace, -⟩ := header_first hheader
  obtain ⟨n, hn⟩ := Nat.exists_eq_add_of_lt hlt
  have hpiece : (content.toList.take stop).drop start = c :: rest.take n := by
    rw [List.drop_take, hdrop, hn]
    have : start + n + 1 - start = n + 1 := by omega
    rw [this, List.take_succ_cons]
  simp [isBlankPiece, hpiece, hspace]

theorem cut_not_blank {content : String} {start : Nat} {offsets : List Nat}
    (hsorted : (start :: offsets ++ [content.length]).Pairwise (· < ·))
    (hheader : ∀ offset ∈ start :: offsets, (turnRe.exec (content.toList.drop offset)).isSome) :
    ∀ piece ∈ cut content (start :: offsets ++ [content.length]), isBlankPiece piece = false := by
  induction offsets generalizing start with
  | nil =>
    have hlt : start < content.length := by simpa using hsorted
    intro piece hpiece
    obtain rfl : piece = _ := by simpa [cut] using hpiece
    exact slice_not_blank hlt (hheader start (by simp))
  | cons stop offsets ih =>
    obtain ⟨hstart, htail⟩ := List.pairwise_cons.mp hsorted
    intro piece hpiece
    simp only [List.cons_append, cut, List.mem_cons] at hpiece
    obtain rfl | hpiece := hpiece
    · exact slice_not_blank (hstart stop (by simp)) (hheader start (by simp))
    · exact ih htail (fun offset hoffset => hheader offset (List.mem_cons_of_mem _ hoffset)) piece hpiece

end Cuts

section Starts

variable (content : String)

theorem transcriptTurnStarts_eq : transcriptTurnStarts content = turnStarts (scan content.toList).nodes :=
  Scan.turnStarts_flush _

theorem transcriptTurnStarts_sorted : (transcriptTurnStarts content).Pairwise (· < ·) := by
  rw [transcriptTurnStarts_eq]
  exact (scan_marked content.toList).sorted

theorem transcriptTurnStarts_header {content : String} {start : Nat} (h : start ∈ transcriptTurnStarts content) :
    (turnRe.exec (content.toList.drop start)).isSome := by
  rw [transcriptTurnStarts_eq] at h
  exact (scan_marked content.toList).header start h

theorem transcriptTurnStarts_lt {content : String} {start : Nat} (h : start ∈ transcriptTurnStarts content) :
    start < content.length := by
  obtain ⟨c, rest, hdrop, -⟩ := header_first (transcriptTurnStarts_header h)
  have hlen := congrArg List.length hdrop
  rw [List.length_drop, List.length_cons, String.length_toList] at hlen
  omega

theorem transcriptTurnStarts_spaces {w text : List Char} (hcontent : content.toList = w ++ text)
    (hw : ∀ c ∈ w, isSpace c) (htext : (turnRe.exec text).isSome) :
    (transcriptTurnStarts content).head? = some w.length := by
  rw [transcriptTurnStarts_eq]
  obtain ⟨c, rest, rfl, -⟩ := header_first htext
  exact loop_spaces (u := []) hcontent hw htext rfl (by simp [hcontent])

-- Where the first piece of the guess ends.
def firstCut : Nat := (transcriptTurnStarts content).headD content.length

theorem firstCut_le : firstCut content ≤ content.length := by
  unfold firstCut
  cases hstarts : transcriptTurnStarts content with
  | nil => exact Nat.le_refl _
  | cons start starts => exact Nat.le_of_lt (transcriptTurnStarts_lt (by simp [hstarts]))

theorem mem_take_start {start : Nat} {starts : List Nat} (h : transcriptTurnStarts content = start :: starts) :
    ∃ c rest, content.toList.drop start = c :: rest ∧ isSpace c = false := by
  have hmem : start ∈ transcriptTurnStarts content := by simp [h]
  obtain ⟨c, rest, hdrop, hc, -⟩ := header_first (transcriptTurnStarts_header hmem)
  exact ⟨c, rest, hdrop, hc⟩

theorem opensBlank_iff : opensBlank content = true ↔
    0 < firstCut content ∧ ∀ c ∈ content.toList.take (firstCut content), isSpace c := by
  have hlen : content.length = content.toList.length := String.length_toList.symm
  simp only [opensBlank, Bool.and_eq_true, Bool.or_eq_true, List.isEmpty_iff]
  constructor
  · rintro ⟨hhead, hempty | hheader⟩
    · -- white space alone: there is no turn in it
      have hall : ∀ c ∈ content.toList, isSpace c := List.dropWhile_eq_nil_iff.mp hempty
      have hstarts : transcriptTurnStarts content = [] := by
        cases hstarts : transcriptTurnStarts content with
        | nil => rfl
        | cons start starts =>
          obtain ⟨c, rest, hdrop, hc⟩ := mem_take_start content hstarts
          have hmem : c ∈ content.toList := List.mem_of_mem_drop (i := start) (by rw [hdrop]; simp)
          simp [hall c hmem] at hc
      simp only [firstCut, hstarts, List.headD_nil]
      refine ⟨?_, fun c hc => hall c (List.mem_of_mem_take hc)⟩
      rw [hlen]
      exact List.length_pos_of_ne_nil (by rintro h; simp [h] at hhead)
    · -- white space before a header: the scan comes to the header
      have hsplit := List.takeWhile_append_dropWhile (p := isSpace) (l := content.toList)
      have hw : ∀ c ∈ content.toList.takeWhile isSpace, isSpace c := 
        List.all_eq_true.mp List.all_takeWhile
      have hfirst := transcriptTurnStarts_spaces content hsplit.symm hw hheader
      have hcut : firstCut content = (content.toList.takeWhile isSpace).length := by
        rw [firstCut, List.headD_eq_head?_getD, hfirst]
        rfl
      rw [hcut, List.prefix_iff_eq_take.mp (List.takeWhile_prefix isSpace) |>.symm]
      refine ⟨?_, hw⟩
      cases htext : content.toList with
      | nil => simp [htext] at hhead
      | cons c rest => simp [show isSpace c = true by simpa [htext] using hhead]
  · rintro ⟨hpos, hall⟩
    have hhead : content.toList.head?.any isSpace := by
      have hle := firstCut_le content
      cases htext : content.toList with
      | nil =>
        simp only [htext, List.length_nil] at hlen
        omega
      | cons c rest =>
        obtain ⟨n, hn⟩ := Nat.exists_eq_succ_of_ne_zero (Nat.ne_of_gt hpos)
        rw [hn, htext] at hall
        simpa using hall c (by simp)
    refine ⟨hhead, ?_⟩
    cases hstarts : transcriptTurnStarts content with
    | nil =>
      left
      have hcut : firstCut content = content.toList.length := by simp [firstCut, hstarts, hlen]
      rw [hcut, List.take_length] at hall
      exact List.dropWhile_eq_nil_iff.mpr hall
    | cons start starts =>
      right
      have hcut : firstCut content = start := by simp [firstCut, hstarts]
      obtain ⟨c, rest, hdrop, hc⟩ := mem_take_start content hstarts
      have hbody : content.toList.dropWhile isSpace = content.toList.drop start := by
        conv_lhs => rw [← List.take_append_drop start content.toList]
        rw [List.dropWhile_append_of_pos (by rwa [hcut] at hall), hdrop]
        simp [hc]
      rw [hbody]
      exact transcriptTurnStarts_header (by simp [hstarts])

end Starts

section Guess

-- How `replySegmentsTurns` cuts a piece that has no turns of its own.
def guessedTurns (content : String) : List String :=
  cut content ((0 :: transcriptTurnStarts content ++ [content.length]).eraseDups)

def innerStarts (content : String) : List Nat :=
  match transcriptTurnStarts content with
  | 0 :: starts => starts
  | starts => starts

theorem mem_innerStarts {content : String} {start : Nat} (h : start ∈ innerStarts content) :
    start ∈ transcriptTurnStarts content ∧ 0 < start := by
  unfold innerStarts at h
  have hsorted := transcriptTurnStarts_sorted content
  split at h
  next starts hstarts =>
    rw [hstarts] at hsorted ⊢
    exact ⟨List.mem_cons_of_mem 0 h, (List.pairwise_cons.mp hsorted).1 start h⟩
  next hnot =>
    refine ⟨h, Nat.pos_of_ne_zero ?_⟩
    rintro rfl
    obtain ⟨first, starts, hstarts⟩ := List.exists_cons_of_ne_nil (List.ne_nil_of_mem h)
    rw [hstarts] at h hsorted
    obtain hzero | htail := List.mem_cons.mp h
    · exact hnot starts (hzero ▸ hstarts)
    · exact absurd ((List.pairwise_cons.mp hsorted).1 0 htail) (Nat.not_lt_zero _)

theorem innerStarts_sorted {content : String} (hcontent : content ≠ "") :
    (0 :: innerStarts content ++ [content.length]).Pairwise (· < ·) := by
  have hlen : 0 < content.length := Nat.pos_of_ne_zero fun h => hcontent (String.length_eq_zero_iff.mp h)
  have hsorted : (innerStarts content).Pairwise (· < ·) := by
    have hall := transcriptTurnStarts_sorted content
    unfold innerStarts
    split
    next starts hstarts =>
      rw [hstarts] at hall
      exact (List.pairwise_cons.mp hall).2
    next => exact hall
  refine List.pairwise_cons.mpr ⟨?_, List.pairwise_append.mpr ⟨hsorted, by simp, ?_⟩⟩
  · intro offset hoffset
    obtain hinner | hlast := List.mem_append.mp hoffset
    · exact (mem_innerStarts hinner).2
    · exact List.mem_singleton.mp hlast ▸ hlen
  · intro start hstart stop hstop
    rw [List.mem_singleton.mp hstop]
    exact transcriptTurnStarts_lt (mem_innerStarts hstart).1

theorem guessedTurns_eq {content : String} (hcontent : content ≠ "") :
    guessedTurns content = cut content (0 :: innerStarts content ++ [content.length]) := by
  have hnodup := (innerStarts_sorted hcontent).imp fun h => Nat.ne_of_lt h
  have hcuts : (0 :: transcriptTurnStarts content ++ [content.length]).eraseDups =
      (0 :: innerStarts content ++ [content.length]).eraseDups := by
    unfold innerStarts
    split
    next starts hstarts =>
      rw [hstarts]
      simp [List.eraseDups_cons]
    next => rfl
  rw [guessedTurns, hcuts, eraseDups_of_nodup hnodup]

theorem guessedTurns_join {content : String} (hcontent : content ≠ "") :
    String.join (guessedTurns content) = content := by
  rw [guessedTurns_eq hcontent, join_cut content ((innerStarts_sorted hcontent).imp Nat.le_of_lt)]
  simp

theorem guessedTurns_ne_nil {content : String} (hcontent : content ≠ "") : guessedTurns content ≠ [] := by
  rw [guessedTurns_eq hcontent]
  exact cut_ne_nil content 0 _

theorem guessedTurns_blank_iff {content : String} (hcontent : content ≠ "") :
    (∀ piece ∈ guessedTurns content, isBlankPiece piece = false) ↔ opensBlank content = false := by
  have hsorted := innerStarts_sorted hcontent
  have hheader : ∀ start ∈ innerStarts content, (turnRe.exec (content.toList.drop start)).isSome :=
    fun start hstart => transcriptTurnStarts_header (mem_innerStarts hstart).1
  rw [guessedTurns_eq hcontent, ← Bool.not_eq_true, opensBlank_iff]
  by_cases hzero : 0 ∈ transcriptTurnStarts content
  · -- the text begins with a header
    have hcut : firstCut content = 0 := by
      obtain ⟨first, starts, hstarts⟩ := List.exists_cons_of_ne_nil (List.ne_nil_of_mem hzero)
      have hall := transcriptTurnStarts_sorted content
      rw [hstarts] at hzero hall
      obtain rfl | htail := List.mem_cons.mp hzero
      · simp [firstCut, hstarts]
      · exact absurd ((List.pairwise_cons.mp hall).1 0 htail) (Nat.not_lt_zero _)
    refine ⟨fun _ h => by omega, fun _ => cut_not_blank hsorted ?_⟩
    intro offset hoffset
    obtain rfl | hinner := List.mem_cons.mp hoffset
    · exact transcriptTurnStarts_header hzero
    · exact hheader offset hinner
  · have hinner : innerStarts content = transcriptTurnStarts content := by
      unfold innerStarts
      split
      next starts hstarts => exact absurd (by simp [hstarts]) hzero
      next => rfl
    have hpieces : ∃ rest, cut content (0 :: innerStarts content ++ [content.length]) =
          String.ofList (content.toList.take (firstCut content)) :: rest ∧
        ∀ piece ∈ rest, isBlankPiece piece = false := by
      unfold firstCut
      cases hstarts : transcriptTurnStarts content with
      | nil => exact ⟨[], by simp [hinner, hstarts, cut], by simp⟩
      | cons start starts =>
        rw [hinner, hstarts] at hsorted hheader
        refine ⟨cut content (start :: starts ++ [content.length]), by simp [hinner, hstarts, cut], ?_⟩
        exact cut_not_blank (List.pairwise_cons.mp hsorted).2 hheader
    obtain ⟨rest, hpieces, hrest⟩ := hpieces
    have hpos : 0 < firstCut content := by
      have hle := innerStarts_sorted hcontent
      unfold firstCut
      cases hstarts : transcriptTurnStarts content with
      | nil => exact (List.pairwise_cons.mp hle).1 content.length (by simp)
      | cons start starts =>
        have hmem : start ∈ innerStarts content := by simp [hinner, hstarts]
        exact (mem_innerStarts hmem).2
    rw [hpieces]
    simp only [List.mem_cons, forall_eq_or_imp, hpos, true_and]
    constructor
    · rintro ⟨hfirst, -⟩ hall
      rw [isBlankPiece, String.toList_ofList, List.all_eq_true.mpr hall] at hfirst
      cases hfirst
    · intro hall
      refine ⟨?_, hrest⟩
      rw [isBlankPiece, String.toList_ofList, ← Bool.not_eq_true, List.all_eq_true]
      exact hall

end Guess

section Compose

def partTurns (part : ReplySegment) : List String :=
  match validTurnSegments part.turnSegments part.content with
  | some trusted => trusted
  | none => guessedTurns part.content

def glue (result turns : List String) : List String :=
  match result, turns with
  | [], turns => turns
  | _, [] => ["\n\nundefined"]
  | _, first :: rest => ("\n\n" ++ first) :: rest

theorem validTurnSegments_some {value : Option (List String)} {content : String} {pieces : List String} :
    validTurnSegments value content = some pieces ↔ value = some pieces ∧ pieces ≠ [] ∧
      (∀ piece ∈ pieces, isBlankPiece piece = false) ∧ String.join pieces = content := by
  unfold validTurnSegments
  rw [Option.filter_eq_some_iff]
  simp only [Bool.and_eq_true, Bool.not_eq_true', List.all_eq_true, decide_eq_true_eq, List.isEmpty_eq_false_iff,
    and_assoc, isBlankPiece]

theorem replySegmentsTurns_eq (parts : List ReplySegment) : replySegmentsTurns transcriptTurnStarts parts =
    if !parts.any fun part => (validTurnSegments part.turnSegments part.content).isSome then none
    else
      let result := (parts.filter fun part => decide (part.content ≠ "")).foldl
        (fun result part => result ++ glue result (partTurns part)) []
      if result.isEmpty then none else some result := rfl

-- A part is sound where its pieces were given, or where its guess does not open with a blank one.
def ReplySegment.sound (part : ReplySegment) : Bool :=
  (validTurnSegments part.turnSegments part.content).isSome || !opensBlank part.content

theorem partTurns_spec {part : ReplySegment} (hcontent : part.content ≠ "") :
    partTurns part ≠ [] ∧ String.join (partTurns part) = part.content ∧
      ((∀ piece ∈ partTurns part, isBlankPiece piece = false) ↔ part.sound = true) := by
  unfold partTurns ReplySegment.sound
  cases hvalid : validTurnSegments part.turnSegments part.content with
  | some trusted =>
    obtain ⟨-, hne, hblank, hjoin⟩ := validTurnSegments_some.mp hvalid
    exact ⟨hne, hjoin, by simpa using hblank⟩
  | none =>
    refine ⟨guessedTurns_ne_nil hcontent, guessedTurns_join hcontent, ?_⟩
    rw [guessedTurns_blank_iff hcontent]
    simp

theorem glue_spec {result turns : List String} (hresult : result ≠ []) (hturns : turns ≠ []) :
    glue result turns ≠ [] ∧ String.join (glue result turns) = "\n\n" ++ String.join turns ∧
      ((∀ piece ∈ glue result turns, isBlankPiece piece = false) ↔ ∀ piece ∈ turns, isBlankPiece piece = false) := by
  obtain ⟨first, rest, rfl⟩ := List.exists_cons_of_ne_nil hturns
  obtain ⟨last, before, rfl⟩ := List.exists_cons_of_ne_nil hresult
  have hblank : isBlankPiece ("\n\n" ++ first) = isBlankPiece first := by
    simp [isBlankPiece, show isSpace '\n' = true by rfl]
  simp [glue, hblank, String.append_assoc]

-- What the pieces of a list of parts come to: they join to the text that is shown, and one of them
-- is blank exactly where some part is not sound.
theorem compose_spec (parts : List ReplySegment) (hparts : ∀ part ∈ parts, part.content ≠ "") :
    let result := parts.foldl (fun result part => result ++ glue result (partTurns part)) []
    (result = [] ↔ parts = []) ∧ String.join result = "\n\n".intercalate (parts.map ReplySegment.content) ∧
      ((∀ piece ∈ result, isBlankPiece piece = false) ↔ ∀ part ∈ parts, part.sound = true) := by
  induction parts using List.reverseRecOn with
  | nil => simp
  | append_singleton parts part ih =>
    obtain ⟨hne, hjoin, hsound⟩ := partTurns_spec (hparts part (by simp))
    obtain ⟨ihnil, ihjoin, ihsound⟩ := ih fun part hpart => hparts part (by simp [hpart])
    simp only [List.foldl_append, List.foldl_cons, List.foldl_nil]
    generalize parts.foldl (fun result part => result ++ glue result (partTurns part)) [] = result at *
    by_cases hnil : parts = []
    · have hresult : result = [] := ihnil.mpr hnil
      subst hnil hresult
      simpa [glue, hne, hjoin] using hsound
    · have hresult : result ≠ [] := fun h => hnil (ihnil.mp h)
      obtain ⟨-, hgjoin, hgblank⟩ := glue_spec hresult hne
      refine ⟨by simp [hresult], ?_, ?_⟩
      · rw [String.join_append, hgjoin, ihjoin, hjoin, List.map_append, List.map_singleton,
          String.intercalate_append_of_ne_nil (by simpa using hnil) (by simp), String.intercalate_singleton,
          String.append_assoc]
      · simp only [List.mem_append, List.mem_singleton, or_imp, forall_and, forall_eq]
        rw [ihsound, hgblank, hsound]

end Compose

-- The composed turns are accepted exactly where no part without valid turns of its own opens with a
-- blank piece. Then they are what the transcript is parsed by, unless a piece ends inside of a node
-- that keeps its text together.
theorem replySegmentsTurns_accepted_iff (parts : List ReplySegment) (turns : List String)
    (hturns : replySegmentsTurns transcriptTurnStarts parts = some turns) :
    (validTurnSegments (some turns) (replySegmentsContent parts) = some turns ↔
      ∀ part ∈ parts, validTurnSegments part.turnSegments part.content = none → opensBlank part.content = false) ∧
    (validTurnSegments (some turns) (replySegmentsContent parts) = some turns →
      (trustedSegments (some turns) (replySegmentsContent parts) = some turns ↔
        ¬ crosses (opaqueNodes (replySegmentsContent parts)) 0 turns.dropLast)) := by
  rw [replySegmentsTurns_eq] at hturns
  split at hturns
  · cases hturns
  simp only at hturns
  split at hturns
  · cases hturns
  next hresult =>
    have hparts : ∀ part ∈ parts.filter fun part => decide (part.content ≠ ""), part.content ≠ "" := by
      intro part hpart
      simpa using (List.mem_filter.mp hpart).2
    obtain ⟨-, hjoin, hblank⟩ := compose_spec _ hparts
    rw [Option.some.inj hturns] at hresult hjoin hblank
    have hcontent : String.join turns = replySegmentsContent parts := by
      rw [hjoin, replySegmentsContent, List.filter_map]
      rfl
    constructor
    · rw [validTurnSegments_some, hblank]
      have hne : turns ≠ [] := by simpa using hresult
      simp only [hne, hcontent, ne_eq, not_false_eq_true, true_and, and_true]
      constructor
      · intro hsound part hpart hinvalid
        by_cases hempty : part.content = ""
        · simp [opensBlank, hempty]
        · simpa [ReplySegment.sound, hinvalid] using hsound part (List.mem_filter.mpr ⟨hpart, by simpa using hempty⟩)
      · intro hopen part hpart
        cases hvalid : validTurnSegments part.turnSegments part.content with
        | some trusted => simp [ReplySegment.sound, hvalid]
        | none => simp [ReplySegment.sound, hopen part (List.mem_filter.mp hpart).1 hvalid]
    · intro hvalid
      simp [trustedSegments, hvalid, Option.filter_eq_some_iff]

section Examples

def trustedPart : ReplySegment := { streamId := "a", content := "one", turnSegments := some ["one"], done := true }

def legacyPart (content : String) : ReplySegment := { streamId := "b", content := content, done := true }

theorem replySegmentsTurns_accepted_legacy :
    let parts := [trustedPart, legacyPart "two"]
    (validTurnSegments (some ["one", "\n\ntwo"]) (replySegmentsContent parts) = some ["one", "\n\ntwo"] ↔
      ∀ part ∈ parts, validTurnSegments part.turnSegments part.content = none → opensBlank part.content = false) ∧
    (validTurnSegments (some ["one", "\n\ntwo"]) (replySegmentsContent parts) = some ["one", "\n\ntwo"] →
      (trustedSegments (some ["one", "\n\ntwo"]) (replySegmentsContent parts) = some ["one", "\n\ntwo"] ↔
        ¬ crosses (opaqueNodes (replySegmentsContent parts)) 0 ["one"])) :=
  replySegmentsTurns_accepted_iff [trustedPart, legacyPart "two"] _ (by decide)

-- The header of the legacy piece has the empty lines before it that came with it.
theorem blank_opening_rejected :
    replySegmentsTurns transcriptTurnStarts [trustedPart, legacyPart "\n\nLLM Running (Turn 1) ...\nok"] =
        some ["one", "\n\n\n\n", "LLM Running (Turn 1) ...\nok"] ∧
      validTurnSegments (some ["one", "\n\n\n\n", "LLM Running (Turn 1) ...\nok"])
        (replySegmentsContent [trustedPart, legacyPart "\n\nLLM Running (Turn 1) ...\nok"]) = none := by
  decide

end Examples

end GaHub.Chat
