import GaHub.Archive.Decode

namespace GaHub.Archive

section Ends

theorem marks_unbroken {accept : Text → Option Label} {content : Text} (h : hasLineEnd content = false) (at' : Nat) :
    marks accept at' false content = [] := by
  induction content generalizing at' with
  | nil => rfl
  | cons c rest ih =>
      simp only [hasLineEnd, List.any_cons, Bool.or_eq_false_iff] at h
      simp only [marks, h.1.1, Bool.false_eq_true, if_false, Option.map_none, Option.toList_none, List.nil_append]
      exact ih h.2 _

theorem drop_cons_sub {at' start : Nat} (h : at' + 1 ≤ start) (c : Nat) (rest : Text) :
    (c :: rest).drop (start - at') = rest.drop (start - (at' + 1)) := by
  obtain ⟨k, rfl⟩ := Nat.exists_eq_add_of_le h
  rw [show at' + 1 + k - at' = k + 1 by omega, show at' + 1 + k - (at' + 1) = k by omega, List.drop_succ_cons]

-- Where the last header of a text is in it, and whether its line ends.
def LastEnds (content : Text) (at' : Nat) (last : Nat × Label) (ends : Bool) : Prop :=
  at' ≤ last.1 ∧ last.1 < at' + content.length ∧ hasLineEnd (content.drop (last.1 - at')) = ends

theorem LastEnds.cons {content : Text} {at' : Nat} {last : Nat × Label} {ends : Bool}
    (h : LastEnds content (at' + 1) last ends) (c : Nat) : LastEnds (c :: content) at' last ends := by
  obtain ⟨hle, hlt, hends⟩ := h
  refine ⟨by omega, by simp only [List.length_cons]; omega, ?_⟩
  rwa [drop_cons_sub hle]

theorem marks_ended (content : Text) (at' : Nat) (fresh : Bool) :
    marks labelAt at' fresh content = marks ended at' fresh content ∧
        (∀ last ∈ (marks labelAt at' fresh content).getLast?, LastEnds content at' last true) ∨
      ∃ last, marks labelAt at' fresh content = marks ended at' fresh content ++ [last] ∧
        LastEnds content at' last false := by
  induction content generalizing at' fresh with
  | nil => exact Or.inl ⟨rfl, by simp [marks]⟩
  | cons c rest ih =>
      have hskip : (if fresh then labelAt (c :: rest) else none) = none →
          (if fresh then ended (c :: rest) else none) = none := by
        intro h
        split at h
        · rename_i hfresh
          simp only [hfresh, ended, h, ite_self]
        · rename_i hfresh
          simp only [hfresh]
          rfl
      cases hlabel : (if fresh then labelAt (c :: rest) else none) with
      | none =>
          simp only [marks, hlabel, hskip hlabel, Option.map_none, Option.toList_none, List.nil_append]
          rcases ih (at' + 1) (c == 10) with ⟨heq, hlast⟩ | ⟨last, heq, hlast⟩
          · exact Or.inl ⟨heq, fun last hl => (hlast last hl).cons c⟩
          · exact Or.inr ⟨last, heq, hlast.cons c⟩
      | some label =>
          have hfresh : fresh = true := by
            cases fresh with
            | true => rfl
            | false => cases hlabel
          have hlabelAt : labelAt (c :: rest) = some label := by simpa [hfresh] using hlabel
          have hhere : ∀ ends, hasLineEnd (c :: rest) = ends → LastEnds (c :: rest) at' (at', label) ends :=
            fun ends h => ⟨le_refl _, by simp, by simpa using h⟩
          cases hends : hasLineEnd (c :: rest) with
          | false =>
              have hnone : (if fresh then ended (c :: rest) else none) = none := by simp [hfresh, ended, hends]
              have hrest : hasLineEnd rest = false := by
                simp only [hasLineEnd, List.any_cons, Bool.or_eq_false_iff] at hends
                exact hends.2
              have hc : (c == 10) = false := by rw [labelAt_head hlabelAt]; rfl
              refine Or.inr ⟨(at', label), ?_, hhere false hends⟩
              simp [marks, hlabel, hnone, hc, marks_unbroken hrest]
          | true =>
              have hsome : (if fresh then ended (c :: rest) else none) = some label := by
                simp [hfresh, ended, hends, hlabelAt]
              simp only [marks, hlabel, hsome, Option.map_some, Option.toList_some, List.singleton_append]
              rcases ih (at' + 1) (c == 10) with ⟨heq, hlast⟩ | ⟨last, heq, hlast⟩
              · refine Or.inl ⟨by rw [heq], fun last hl => ?_⟩
                cases hms : marks labelAt (at' + 1) (c == 10) rest with
                | nil =>
                    rw [hms] at hl
                    have hself : last = (at', label) := by simpa using hl.symm
                    exact hself ▸ hhere true hends
                | cons m ms =>
                    rw [hms] at hl hlast
                    exact (hlast last (by simpa [List.getLast?_cons_cons] using hl)).cons c
              · exact Or.inr ⟨last, by rw [heq]; rfl, hlast.cons c⟩

end Ends

-- The loop of `pairUp`, on places and labels.
def pairMarks (size : Nat) : Option Nat → List (Nat × Label) → List (Nat × Nat)
  | _, [] => []
  | pending, m :: rest =>
      let bodyEnd := (rest.head?.map Prod.fst).getD size
      match m.2, pending with
      | .prompt, _ => pairMarks size (some m.1) rest
      | .response, some prompt => (prompt, bodyEnd) :: pairMarks size none rest
      | .response, none => pairMarks size none rest

def Round.range (round : Round) : Nat × Nat := (round.prompt.start, round.stop)

def Label.waits (label : Label) (start : Nat) : Option Nat :=
  match label with
  | .prompt => some start
  | .response => none

def pendingAfter (pending : Option Nat) (ms : List (Nat × Label)) : Option Nat :=
  ms.getLast?.elim pending fun m => m.2.waits m.1

section Pairs

variable {size : Nat} {pending : Option Nat} {ms : List (Nat × Label)}

theorem pairUp_ranges (size : Nat) (pending : Option Header) (headers : List Header) :
    (pairUp size pending headers).map Round.range =
      pairMarks size (pending.map Header.start) (headers.map Header.mark) := by
  induction headers generalizing pending with
  | nil => rfl
  | cons header headers ih =>
      have hend : (headers.head?.map Header.start).getD size =
          ((headers.map Header.mark).head?.map Prod.fst).getD size := by
        cases headers <;> rfl
      obtain ⟨start, stop, label, time⟩ := header
      cases label with
      | prompt => exact ih (some _)
      | response =>
          cases pending with
          | none => exact ih none
          | some prompt =>
              refine congrArg₂ List.cons (congrArg (Prod.mk _) hend) (ih none)

theorem pairMarks_map (f : Nat → Nat) (size : Nat) (pending : Option Nat) (ms : List (Nat × Label)) :
    pairMarks (f size) (pending.map f) (ms.map fun m => (f m.1, m.2)) =
      (pairMarks size pending ms).map fun r => (f r.1, f r.2) := by
  induction ms generalizing pending with
  | nil => rfl
  | cons m ms ih =>
      have hend : ((ms.map fun m => (f m.1, m.2)).head?.map Prod.fst).getD (f size) =
          f ((ms.head?.map Prod.fst).getD size) := by
        cases ms <;> rfl
      obtain ⟨start, label⟩ := m
      cases label with
      | prompt => exact ih (some start)
      | response =>
          cases pending with
          | none => exact ih none
          | some prompt => exact congrArg₂ List.cons (congrArg (Prod.mk _) hend) (ih none)

theorem pendingAfter_cons (pending : Option Nat) (m : Nat × Label) (ms : List (Nat × Label)) :
    pendingAfter pending (m :: ms) = pendingAfter (m.2.waits m.1) ms := by
  cases ms with
  | nil =>
      obtain ⟨start, label⟩ := m
      cases label <;> rfl
  | cons n ms =>
      obtain ⟨last, hlast⟩ : ∃ last, (n :: ms).getLast? = some last :=
        ⟨_, List.getLast?_eq_some_getLast (by simp)⟩
      simp only [pendingAfter, List.getLast?_cons_cons, hlast, Option.elim_some]

theorem pairMarks_append (size : Nat) (pending : Option Nat) (ms : List (Nat × Label)) (m : Nat × Label) :
    pairMarks size pending (ms ++ [m]) = pairMarks m.1 pending ms ++
      if m.2 = .response then ((pendingAfter pending ms).map fun prompt => (prompt, size)).toList else [] := by
  induction ms generalizing pending with
  | nil =>
      obtain ⟨start, label⟩ := m
      cases label <;> cases pending <;> rfl
  | cons n ms ih =>
      have hend : ((ms ++ [m]).head?.map Prod.fst).getD size = (ms.head?.map Prod.fst).getD m.1 := by
        cases ms <;> rfl
      rw [pendingAfter_cons]
      obtain ⟨start, label⟩ := n
      cases label with
      | prompt => exact ih (some start)
      | response =>
          cases pending with
          | none => exact ih none
          | some prompt => exact congrArg₂ List.cons (congrArg (Prod.mk prompt) hend) (ih none)

def EndsAtRound (labels : List Label) : Prop :=
  ∃ before, labels = before ++ [.prompt, .response] ∨ ∃ label, labels = before ++ [.prompt, .response, label]

theorem endsAtRound_append (before : List Label) (a b : Label) : EndsAtRound (before ++ [a, b]) ↔
    a = .prompt ∧ b = .response ∨ a = .response ∧ ∃ earlier, before = earlier ++ [.prompt] := by
  constructor
  · rintro ⟨earlier, h | ⟨label, h⟩⟩
    · obtain ⟨_, htail⟩ := List.append_inj' h rfl
      simp only [List.cons.injEq, and_true] at htail
      exact Or.inl htail
    · rw [show earlier ++ [.prompt, .response, label] = (earlier ++ [.prompt]) ++ [.response, label] by simp] at h
      obtain ⟨hbefore, htail⟩ := List.append_inj' h rfl
      simp only [List.cons.injEq, and_true] at htail
      exact Or.inr ⟨htail.1, earlier, hbefore⟩
  · rintro (⟨rfl, rfl⟩ | ⟨rfl, earlier, rfl⟩)
    · exact ⟨before, Or.inl rfl⟩
    · exact ⟨earlier, Or.inr ⟨b, by simp⟩⟩

theorem pendingAfter_append (pending : Option Nat) (ms : List (Nat × Label)) (m : Nat × Label) :
    pendingAfter pending (ms ++ [m]) = m.2.waits m.1 := by
  obtain ⟨start, label⟩ := m
  cases label <;> simp [pendingAfter, Label.waits]

theorem pendingAfter_isSome (ms : List (Nat × Label)) :
    (pendingAfter none ms).isSome = true ↔ ∃ earlier, ms.map Prod.snd = earlier ++ [.prompt] := by
  rcases List.eq_nil_or_concat ms with rfl | ⟨before, ⟨start, label⟩, rfl⟩
  · simp [pendingAfter]
  · rw [List.concat_eq_append, pendingAfter_append]
    cases label <;> simp [Label.waits]

theorem pairMarks_cut (size : Nat) (ms : List (Nat × Label)) (last : Nat × Label) (hlast : last.1 ≠ size) :
    pairMarks size none (ms ++ [last]) = pairMarks size none ms ↔
      ¬ EndsAtRound ((ms ++ [last]).map Prod.snd) := by
  rw [pairMarks_append]
  rcases List.eq_nil_or_concat ms with rfl | ⟨before, m, rfl⟩
  · have hends : ¬ EndsAtRound [last.2] := by
      rintro ⟨labels, h | ⟨label, h⟩⟩ <;> simpa using congrArg List.length h
    simpa [pairMarks, pendingAfter] using hends
  · obtain ⟨start, label⟩ := m
    have hlabels : (before.concat (start, label) ++ [last]).map Prod.snd = before.map Prod.snd ++ [label, last.2] := by
      simp
    rw [hlabels, endsAtRound_append, ← pendingAfter_isSome, List.concat_eq_append, pairMarks_append,
      pairMarks_append, pendingAfter_append]
    cases label with
    | prompt => cases hl : last.2 <;> simp [Label.waits]
    | response =>
        cases hp : pendingAfter none before with
        | none => simp [Label.waits]
        | some prompt => simp [Label.waits, hlast]

end Pairs

-- The last line of the file is a header without a line end, and a round stops at it or in front of it.
def CutShort (content : Text) : Prop :=
  (∃ last ∈ (textHeaders content).getLast?, hasLineEnd (content.drop last.start) = false) ∧
    EndsAtRound ((textHeaders content).map Header.label)

-- The rounds of the text, by the bytes they take.
def textRanges (data : Bytes) : List (Nat × Nat) :=
  (completedRounds (decode data)).map fun round => (byteOffset data round.prompt.start, byteOffset data round.stop)

theorem textRanges_eq (data : Bytes) : textRanges data = pairMarks data.length none
    ((marks labelAt 0 true (decode data)).map fun m => (byteOffset data m.1, m.2)) := by
  have hsize : byteOffset data (decode data).length = data.length := offset_all (pieces_blocks data)
  rw [← hsize]
  have hmap := pairMarks_map (byteOffset data) (decode data).length none (marks labelAt 0 true (decode data))
  rw [Option.map_none] at hmap
  rw [hmap, ← textHeaders_marks]
  have hranges := pairUp_ranges (decode data).length none (textHeaders (decode data))
  rw [Option.map_none] at hranges
  rw [← hranges, List.map_map]
  rfl

theorem byteRanges_eq (data : Bytes) : (bytePairs data).map Round.range = pairMarks data.length none
    ((marks ended 0 true (decode data)).map fun m => (byteOffset data m.1, m.2)) := by
  have hmarks := blocks_marks (pieces_blocks data) [] true
  have hranges := pairUp_ranges data.length none (byteHeaders data)
  rw [byteHeaders_marks] at hranges
  exact hranges.trans (congrArg (pairMarks data.length none) hmarks.symm)

theorem ranges_agree_iff (data : Bytes) :
    textRanges data = (bytePairs data).map Round.range ↔ ¬ CutShort (decode data) := by
  have hblocks := pieces_blocks data
  have hlasts : ∀ ms, marks labelAt 0 true (decode data) = ms →
      (textHeaders (decode data)).map Header.mark = ms := fun ms h => (textHeaders_marks _).trans h
  rw [textRanges_eq, byteRanges_eq]
  rcases marks_ended (decode data) 0 true with ⟨heq, hends⟩ | ⟨last, heq, hlast⟩
  · rw [heq]
    refine iff_of_true rfl ?_
    rintro ⟨⟨header, hheader, hopen⟩, _⟩
    obtain ⟨_, _, hended⟩ := hends header.mark (by
      rw [← textHeaders_marks, List.getLast?_map, Option.mem_def.mp hheader]
      rfl)
    exact Bool.false_ne_true (hopen.symm.trans hended)
  · have hlabels : (textHeaders (decode data)).map Header.label =
        (marks ended 0 true (decode data)).map Prod.snd ++ [last.2] := by
      have hmap := congrArg (List.map Prod.snd) ((textHeaders_marks _).trans heq)
      rwa [List.map_map, List.map_append, List.map_singleton] at hmap
    have hcut : CutShort (decode data) ↔ EndsAtRound ((textHeaders (decode data)).map Header.label) := by
      refine ⟨And.right, fun h => ⟨?_, h⟩⟩
      have hlastHeader := congrArg List.getLast? ((textHeaders_marks _).trans heq)
      rw [List.getLast?_map, List.getLast?_concat] at hlastHeader
      obtain ⟨header, hheader, hmark⟩ := Option.map_eq_some_iff.mp hlastHeader
      refine ⟨header, hheader, ?_⟩
      rw [show header.start = last.1 from congrArg Prod.fst hmark]
      exact hlast.2.2
    have hbefore : byteOffset data last.1 ≠ data.length := by
      rw [← offset_all hblocks]
      exact Nat.ne_of_lt (offset_lt hblocks (lt_of_lt_of_eq hlast.2.1 (Nat.zero_add _)) (le_refl _))
    rw [heq, List.map_append, List.map_singleton, hcut, hlabels]
    have hiff := pairMarks_cut data.length
      ((marks ended 0 true (decode data)).map fun m => (byteOffset data m.1, m.2))
      (byteOffset data last.1, last.2) hbefore
    rwa [List.map_append, List.map_map, List.map_singleton] at hiff

end GaHub.Archive
