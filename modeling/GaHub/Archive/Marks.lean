import GaHub.Archive.Headers
import Mathlib.Data.List.TakeWhile

namespace GaHub.Archive

def marks (accept : Text → Option Label) : Nat → Bool → Text → List (Nat × Label)
  | _, _, [] => []
  | at', fresh, c :: rest =>
      ((if fresh then accept (c :: rest) else none).map fun label => (at', label)).toList ++
        marks accept (at' + 1) (c == 10) rest

def Header.mark (header : Header) : Nat × Label := (header.start, header.label)

-- No line in these characters opens like a header; `fresh` says that the first one opens a line.
def Calm : Bool → Text → Prop
  | _, [] => True
  | fresh, c :: rest => (fresh = true → c ≠ 61) ∧ Calm (c == 10) rest

-- What an expression asks of its classes: neither `=` nor a line end is a digit, and `=` is no white space.
structure Classes.Apart (k : Classes) : Prop where
  space : k.space 61 = false
  digit : k.digit 61 = false
  line : k.digit 10 = false

section Calm

variable {a b : Text} {fresh : Bool}

theorem calm_other (ha : ∀ c ∈ a, c ≠ 61) (hb : ∀ fresh, Calm fresh b) : Calm fresh (a ++ b) := by
  induction a generalizing fresh with
  | nil => exact hb fresh
  | cons c a ih =>
      exact ⟨fun _ => ha c List.mem_cons_self, ih fun d hd => ha d (List.mem_cons_of_mem _ hd)⟩

theorem calm_line (ha : ∀ c ∈ a, c ≠ 10) (hb : Calm false b) : Calm false (a ++ b) := by
  induction a with
  | nil => exact hb
  | cons c a ih =>
      refine ⟨fun h => absurd h Bool.false_ne_true, ?_⟩
      rw [beq_false_of_ne (ha c List.mem_cons_self)]
      exact ih fun d hd => ha d (List.mem_cons_of_mem _ hd)

theorem calm_word (ha : ∀ c ∈ a, c ≠ 61 ∧ c ≠ 10) (hne : a ≠ []) (hb : Calm false b) : Calm fresh (a ++ b) := by
  cases a with
  | nil => exact absurd rfl hne
  | cons c a =>
      refine ⟨fun _ => (ha c List.mem_cons_self).1, ?_⟩
      rw [beq_false_of_ne (ha c List.mem_cons_self).2]
      exact calm_line (fun d hd => (ha d (List.mem_cons_of_mem _ hd)).2) hb

theorem calm_end (ha : ∀ c ∈ a, c ≠ 61) : Calm fresh a := by
  simpa using calm_other (b := []) ha fun _ => trivial

end Calm

section Regions

variable {k : Classes} {rest : Text} {label : Label}

theorem fitsPattern_mem (pattern : List (Option Nat)) (after : Text)
    (h : fitsPattern k pattern after = true) :
    pattern.length ≤ after.length ∧
      ∀ c ∈ after.take pattern.length, k.digit c = true ∨ some c ∈ pattern := by
  induction pattern generalizing after with
  | nil => simp
  | cons d pattern ih =>
      cases after with
      | nil => cases h
      | cons c after =>
          cases d with
          | none =>
              obtain ⟨hc, hrest⟩ := Bool.and_eq_true_iff.mp h
              obtain ⟨hlen, hmem⟩ := ih after hrest
              refine ⟨by simpa using hlen, fun e he => ?_⟩
              rcases List.mem_cons.mp he with rfl | he
              · exact Or.inl hc
              · exact (hmem e he).imp_right fun h => List.mem_cons_of_mem _ h
          | some d =>
              obtain ⟨hc, hrest⟩ := Bool.and_eq_true_iff.mp h
              obtain ⟨hlen, hmem⟩ := ih after hrest
              refine ⟨by simpa using hlen, fun e he => ?_⟩
              rcases List.mem_cons.mp he with rfl | he
              · rw [eq_of_beq hc]
                exact Or.inr List.mem_cons_self
              · exact (hmem e he).imp_right fun h => List.mem_cons_of_mem _ h

theorem dated_split (hk : k.Apart) {time : Text} {n : Nat} (h : dated k rest = some (time, n)) :
    ∃ blanks date, rest.take n = blanks ++ date ∧ (blanks ++ date).length = n ∧ (∀ c ∈ blanks, c ≠ 61) ∧
      (∀ c ∈ date, c ≠ 61 ∧ c ≠ 10) ∧ date ≠ [] := by
  simp only [dated] at h
  split at h
  · rename_i hfits
    cases h
    obtain ⟨hlen, hmem⟩ := fitsPattern_mem _ _ hfits.2
    refine ⟨rest.takeWhile k.space, (rest.drop (rest.takeWhile k.space).length).take datePattern.length,
      ?_, ?_, ?_, ?_, ?_⟩
    · rw [List.take_add]
      congr 1
      exact (List.prefix_iff_eq_take.mp (List.takeWhile_prefix _)).symm
    · rw [List.length_append, List.length_take_of_le hlen]
    · rintro c hc rfl
      exact Bool.false_ne_true (hk.space.symm.trans (List.mem_takeWhile_imp hc))
    · intro c hc
      rcases hmem c hc with hdigit | hpattern
      · constructor
        · rintro rfl
          exact Bool.false_ne_true (hk.digit.symm.trans hdigit)
        · rintro rfl
          exact Bool.false_ne_true (hk.line.symm.trans hdigit)
      · have hwords : ∀ d ∈ datePattern, d ≠ some 61 ∧ d ≠ some 10 := by decide
        exact ⟨fun h => (hwords _ hpattern).1 (congrArg some h), fun h => (hwords _ hpattern).2 (congrArg some h)⟩
    · intro hnil
      have hzero := congrArg List.length hnil
      rw [List.length_take_of_le hlen] at hzero
      exact absurd hzero (by decide)
  · cases h

theorem labelAt_front (h : labelAt rest = some label) : ∃ after, rest = label.line ++ after := by
  unfold labelAt at h
  split at h
  · rename_i hprefix
    cases h
    obtain ⟨after, hafter⟩ := List.isPrefixOf_iff_prefix.mp hprefix
    exact ⟨after, hafter.symm⟩
  · split at h
    · rename_i hprefix
      cases h
      obtain ⟨after, hafter⟩ := List.isPrefixOf_iff_prefix.mp hprefix
      exact ⟨after, hafter.symm⟩
    · cases h

theorem Label.line_eq (label : Label) : ∃ word, label.line = 61 :: word ∧ ∀ c ∈ word, c ≠ 10 := by
  cases label <;> exact ⟨_, rfl, by decide⟩

theorem labelAt_head {c : Nat} (h : labelAt (c :: rest) = some label) : c = 61 := by
  obtain ⟨after, hafter⟩ := labelAt_front h
  obtain ⟨word, hword, _⟩ := label.line_eq
  rw [hword] at hafter
  exact (List.cons.inj hafter).1

-- What a header expression matches, behind the first character of its line.
structure Matched (k : Classes) (rest : Text) (label : Label) (n : Nat) : Prop where
  label : labelAt rest = some label
  calm : ∀ c after, rest = c :: after → Calm false (after.take (n - 1))

theorem matched_of_parts (hlabel : labelAt rest = some label) {date line : Nat}
    (hdate : date = 0 ∨ ∃ time, dated k (rest.drop label.line.length) = some (time, date)) (hk : k.Apart)
    (hline : Calm false (((rest.drop label.line.length).drop date).take line)) :
    Matched k rest label (label.line.length + (date + line)) := by
  refine ⟨hlabel, fun c after hrest => ?_⟩
  obtain ⟨tail, htail⟩ := labelAt_front hlabel
  obtain ⟨word, hword, hwordLine⟩ := label.line_eq
  have hafter : after = word ++ tail := by
    rw [hrest, hword] at htail
    exact (List.cons.inj htail).2
  have hdrop : rest.drop label.line.length = tail := by simp [htail]
  have hcount : label.line.length + (date + line) - 1 = word.length + (date + line) := by
    simp only [hword, List.length_cons]
    omega
  rw [hdrop] at hdate hline
  rw [hafter, hcount, List.take_length_add_append, List.take_add]
  refine calm_line hwordLine ?_
  rcases hdate with rfl | ⟨time, hdate⟩
  · simpa using hline
  · obtain ⟨blanks, day, htake, _, hblanks, hday, hne⟩ := dated_split hk hdate
    rw [htake, List.append_assoc]
    exact calm_other hblanks fun fresh => calm_word hday hne hline

theorem textClasses_apart : textClasses.Apart := by
  constructor <;> decide

theorem byteClasses_apart : byteClasses.Apart := by
  constructor <;> decide

theorem take_takeWhile_length (p : Nat → Bool) (l : Text) :
    l.take (l.takeWhile p).length = l.takeWhile p :=
  (List.prefix_iff_eq_take.mp (List.takeWhile_prefix p)).symm

theorem takeWhile_lines {p : Nat → Bool} (hp : p 10 = false) (l : Text) : ∀ c ∈ l.takeWhile p, c ≠ 10 := by
  rintro c hc rfl
  exact Bool.false_ne_true (hp.symm.trans (List.mem_takeWhile_imp hc))

theorem textHeader_matched {time : Option Text} {n : Nat} (h : textHeader rest = some (label, time, n)) :
    Matched textClasses rest label n := by
  obtain ⟨label', hlabel, heq⟩ := Option.map_eq_some_iff.mp h
  cases heq
  refine matched_of_parts hlabel ?_ textClasses_apart ?_
  · cases hdate : dated textClasses (rest.drop label.line.length) with
    | none => exact Or.inl rfl
    | some date => exact Or.inr ⟨date.1, rfl⟩
  · rw [take_takeWhile_length]
    simpa using calm_line (b := []) (takeWhile_lines (by decide) _) trivial

theorem drop_takeWhile_length (p : Nat → Bool) (l : Text) :
    l.drop (l.takeWhile p).length = l.dropWhile p := by
  induction l with
  | nil => rfl
  | cons c l ih =>
      cases hc : p c with
      | true => simpa [List.takeWhile_cons, List.dropWhile_cons, hc] using ih
      | false => simp [hc]

theorem lineEnd_calm {n : Nat} (h : lineEnd rest = some n) : Calm false (rest.take n) := by
  have hline : ∀ c ∈ rest.takeWhile fun c => c ≠ 10 && c ≠ 13, c ≠ 10 := takeWhile_lines (by decide) _
  have hhead : ∀ c ∈ (rest.dropWhile fun c => c ≠ 10 && c ≠ 13).head?, c ≠ 61 := by
    rintro c hc rfl
    have hfalse := List.head?_dropWhile_not (fun c => c ≠ 10 && c ≠ 13) rest
    rw [hc] at hfalse
    exact absurd hfalse (by decide)
  simp only [lineEnd, drop_takeWhile_length] at h
  have htake : ∀ m, rest.take ((rest.takeWhile fun c => c ≠ 10 && c ≠ 13).length + m) =
      (rest.takeWhile fun c => c ≠ 10 && c ≠ 13) ++ (rest.dropWhile fun c => c ≠ 10 && c ≠ 13).take m := by
    intro m
    rw [List.take_add, take_takeWhile_length, drop_takeWhile_length]
  generalize (rest.dropWhile fun c => c ≠ 10 && c ≠ 13) = tail at h htake hhead
  split at h
  · cases h
    rw [htake]
    exact calm_line hline (calm_end (by simp))
  · cases h
    rw [htake]
    refine calm_line hline (calm_end fun d hd => hhead d ?_)
    rw [List.mem_singleton.mp hd]
    rfl
  · cases h

theorem byteHeader_matched {time : Option Text} {n : Nat} (h : byteHeader rest = some (label, time, n)) :
    Matched byteClasses rest label n := by
  obtain ⟨label', hlabel, heq⟩ := Option.bind_eq_some_iff.mp h
  rcases Option.or_eq_some_iff.mp heq with hdated | ⟨_, hplain⟩
  · obtain ⟨date, hdate, hend⟩ := Option.bind_eq_some_iff.mp hdated
    obtain ⟨m, hm, hparts⟩ := Option.map_eq_some_iff.mp hend
    cases hparts
    exact matched_of_parts hlabel (Or.inr ⟨date.1, hdate⟩) byteClasses_apart (lineEnd_calm hm)
  · obtain ⟨m, hm, hparts⟩ := Option.map_eq_some_iff.mp hplain
    cases hparts
    simpa using matched_of_parts hlabel (Or.inl rfl) byteClasses_apart (lineEnd_calm hm)

def hasLineEnd (rest : Text) : Bool := rest.any fun c => c == 10 || c == 13

theorem lineEnd_eq_none (rest : Text) : lineEnd rest = none ↔ hasLineEnd rest = false := by
  have htail : lineEnd rest = none ↔ (rest.dropWhile fun c => c ≠ 10 && c ≠ 13) = [] := by
    simp only [lineEnd, drop_takeWhile_length]
    generalize (rest.dropWhile fun c => c ≠ 10 && c ≠ 13) = tail
    split <;> simp
  rw [htail, List.dropWhile_eq_nil_iff]
  simp [hasLineEnd]

theorem hasLineEnd_label (label : Label) (after : Text) : hasLineEnd (label.line ++ after) = hasLineEnd after := by
  have hnone : hasLineEnd label.line = false := by cases label <;> decide
  unfold hasLineEnd at hnone ⊢
  rw [List.any_append, hnone, Bool.false_or]

theorem hasLineEnd_of_drop {n : Nat} (h : hasLineEnd (rest.drop n) = true) : hasLineEnd rest = true := by
  obtain ⟨c, hc, hend⟩ := List.any_eq_true.mp h
  exact List.any_eq_true.mpr ⟨c, List.mem_of_mem_drop hc, hend⟩

theorem textHeader_label (rest : Text) : (textHeader rest).map Prod.fst = labelAt rest := by
  unfold textHeader
  rw [Option.map_map]
  cases labelAt rest <;> rfl

theorem byteHeader_label (rest : Bytes) :
    (byteHeader rest).map Prod.fst = if hasLineEnd rest then labelAt rest else none := by
  unfold byteHeader
  cases hlabel : labelAt rest with
  | none => simp
  | some label =>
      obtain ⟨tail, htail⟩ := labelAt_front hlabel
      have hdrop : rest.drop label.line.length = tail := by simp [htail]
      have hends : hasLineEnd rest = hasLineEnd tail := by rw [htail, hasLineEnd_label]
      simp only [Option.bind_some, hdrop, hends]
      cases hend : lineEnd tail with
      | some n =>
          have hyes : hasLineEnd tail = true := by
            rw [← Bool.not_eq_false, ← lineEnd_eq_none, hend]
            exact Option.some_ne_none n
          rw [if_pos hyes]
          cases hdated : dated byteClasses tail with
          | none => simp
          | some date =>
              cases hdateEnd : lineEnd (tail.drop date.2) <;> simp [hdateEnd]
      | none =>
          have hno : hasLineEnd tail = false := (lineEnd_eq_none tail).mp hend
          rw [if_neg (by simp [hno])]
          cases hdated : dated byteClasses tail with
          | none => simp
          | some date =>
              have hdateEnd : lineEnd (tail.drop date.2) = none := (lineEnd_eq_none _).mpr
                (Bool.eq_false_iff.mpr fun h => Bool.false_ne_true (hno.symm.trans (hasLineEnd_of_drop h)))
              simp [hdateEnd]

end Regions

section Scans

variable {header : Text → Option (Label × Option Text × Nat)} {k : Classes}

theorem scan_marks (hheader : ∀ rest label time n, header rest = some (label, time, n) → Matched k rest label n)
    (content : Text) (at' skip : Nat) (fresh : Bool) (hcalm : Calm fresh (content.take skip)) :
    (scan header at' skip fresh content).map Header.mark =
      marks (fun rest => (header rest).map Prod.fst) at' fresh content := by
  have hhead : ∀ c rest, c ≠ 61 → header (c :: rest) = none := by
    intro c rest hc
    refine Option.eq_none_iff_forall_ne_some.mpr fun found hfound => hc ?_
    exact labelAt_head (hheader _ found.1 found.2.1 found.2.2 hfound).label
  induction content generalizing at' skip fresh with
  | nil => cases skip <;> cases fresh <;> rfl
  | cons c rest ih =>
      cases skip with
      | succ skip =>
          obtain ⟨hfirst, hrest⟩ := hcalm
          have hnone : (if fresh then (header (c :: rest)).map Prod.fst else none) = none := by
            cases fresh with
            | false => rfl
            | true => rw [if_pos rfl, hhead c rest (hfirst rfl)]; rfl
          simp only [scan, marks, hnone]
          exact ih _ _ _ hrest
      | zero =>
          have hnext : ∀ fresh, Calm fresh (rest.take 0) := fun _ => trivial
          cases fresh with
          | false =>
              simp only [scan, marks]
              exact ih _ _ _ (hnext _)
          | true =>
              cases hfound : header (c :: rest) with
              | none =>
                  simp only [scan, marks, hfound]
                  exact ih _ _ _ (hnext _)
              | some found =>
                  obtain ⟨label, time, n⟩ := found
                  have hmatched := hheader _ _ _ _ hfound
                  have hequals : c = 61 := labelAt_head hmatched.label
                  simp only [scan, marks, hfound]
                  refine congrArg (_ :: ·) (ih _ _ _ ?_)
                  rw [hequals]
                  exact hmatched.calm c rest rfl

theorem textHeaders_marks (content : Text) :
    (textHeaders content).map Header.mark = marks labelAt 0 true content := by
  have hscan := scan_marks (fun _ _ _ _ h => textHeader_matched h) content 0 0 true trivial
  rwa [show (fun rest => (textHeader rest).map Prod.fst) = labelAt from funext textHeader_label] at hscan

theorem byteHeaders_marks (data : Bytes) : (byteHeaders data).map Header.mark =
    marks (fun rest => if hasLineEnd rest then labelAt rest else none) 0 true data := by
  have hscan := scan_marks (fun _ _ _ _ h => byteHeader_matched h) data 0 0 true trivial
  rwa [show (fun rest => (byteHeader rest).map Prod.fst) = _ from funext byteHeader_label] at hscan

end Scans

end GaHub.Archive
