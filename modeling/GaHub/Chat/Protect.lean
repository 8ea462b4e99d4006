import GaHub.Chat.Tiling

namespace GaHub.Chat.Transcript

open Lib Lib.Regex

def nul : Char := Char.ofNat 0

def placeholderHead : List Char := nul :: "GA_TOOL_FENCE_".toList

def placeholder (i : Nat) : List Char := placeholderHead ++ (toString i).toList ++ [nul]

def placeholderRe : Regex :=
  cat [word (fun c d => c == d) placeholderHead, group (plus isDigit), set fun c => c == nul]

structure Protected where
  safe : List Char
  values : List (List Char)
  deriving DecidableEq

-- The loop over the ranges: what stands before each, and a placeholder in its stead.
def hide (source : List Char) : Nat → Protected → List Span → Protected
  | pos, p, [] => { p with safe := p.safe ++ source.drop pos }
  | pos, p, range :: ranges =>
    hide source range.stop
      { safe := p.safe ++ Scan.slice source pos range.start ++ placeholder p.values.length
        values := p.values ++ [Scan.slice source range.start range.stop] } ranges

def opaqueRanges (source : String) : List Span := (scanTranscript source).flatMap TranscriptNode.ranges

def protectTranscript (source : String) : Protected :=
  hide source.toList 0 { safe := [], values := [] } (opaqueRanges source)

namespace Protected

variable (p : Protected)

def value (found : Found) : List Char := p.values[number (found.groups.headD [])]?.getD []

def restore (value : List Char) : List Char := placeholderRe.replaceAll p.value value

end Protected

-- What the source has outside of the ranges.
def gaps (source : List Char) : Nat → List Span → List (List Char)
  | pos, [] => [source.drop pos]
  | pos, range :: ranges => Scan.slice source pos range.start :: gaps source range.stop ranges

-- The source with its gaps rewritten.
def weave (rewrite : List Char → List Char) (source : List Char) : Nat → List Span → List Char
  | pos, [] => rewrite (source.drop pos)
  | pos, range :: ranges =>
    rewrite (Scan.slice source pos range.start) ++
      (Scan.slice source range.start range.stop ++ weave rewrite source range.stop ranges)

section Placeholder

theorem placeholderRe_nullable : placeholderRe.nullable = false := by rfl

theorem isDigit_nul : isDigit nul = false := by rfl

theorem nul_not_mem {ds : List Char} (hds : ∀ c ∈ ds, isDigit c) : nul ∉ "GA_TOOL_FENCE_".toList ++ ds := by
  intro hmem
  obtain hword | hdigit := List.mem_append.mp hmem
  · exact absurd hword (by decide)
  · have hnul := hds nul hdigit
    simp [isDigit_nul] at hnul

theorem digits_unique {ds es v w : List Char} (hds : ∀ c ∈ ds, isDigit c) (hes : ∀ c ∈ es, isDigit c)
    (h : ds ++ nul :: v = es ++ nul :: w) : ds = es := by
  induction ds generalizing es with
  | nil =>
    cases es with
    | nil => rfl
    | cons e es =>
      obtain ⟨rfl, -⟩ := List.cons.inj h
      have hnul := hes nul (by simp)
      simp [isDigit_nul] at hnul
  | cons d ds ih =>
    cases es with
    | nil =>
      obtain ⟨rfl, -⟩ := List.cons.inj h
      have hnul := hds nul (by simp)
      simp [isDigit_nul] at hnul
    | cons e es =>
      obtain ⟨rfl, htail⟩ := List.cons.inj h
      rw [ih (fun c hc => hds c (by simp [hc])) (fun c hc => hes c (by simp [hc])) htail]

theorem mem_placeholder_ends {p q : Cursor} (hq : q ∈ placeholderRe.ends p) :
    ∃ ds, ds ≠ [] ∧ (∀ c ∈ ds, isDigit c) ∧ p.rest = placeholderHead ++ ds ++ nul :: q.rest ∧
      q.groups = p.groups ++ [ds] := by
  obtain ⟨m, hm, hq⟩ := mem_ends_cat_cons.mp hq
  obtain ⟨u, mid, hmid, hword, rfl⟩ := mem_ends_word.mp hm
  obtain rfl := forall₂_eq hword
  obtain ⟨n, hn, hq⟩ := mem_ends_cat_cons.mp hq
  obtain ⟨k, hk, rfl⟩ := mem_ends_group.mp hn
  obtain ⟨j, hj, hk⟩ := mem_ends_seq.mp hk
  obtain ⟨i, hi, hj⟩ := mem_ends_seq.mp hj
  obtain ⟨d, after, hafter, hd, rfl⟩ := mem_ends_set.mp hi
  obtain rfl := mem_ends_eps.mp hj
  obtain ⟨ds, tail, htail, hds, rfl⟩ := mem_ends_many.mp hk
  obtain ⟨e, he, hq⟩ := mem_ends_cat_cons.mp hq
  obtain rfl := mem_ends_eps.mp hq
  obtain ⟨c, rest, hrest, hc, rfl⟩ := mem_ends_set.mp he
  obtain rfl := eq_of_beq hc
  simp only [Cursor.past_rest, Cursor.past_groups] at hafter htail hrest ⊢
  subst hafter htail hrest
  refine ⟨d :: ds, by simp, by simpa using ⟨hd, hds⟩, by simp [hmid], ?_⟩
  have hlen : (d :: (ds ++ nul :: rest)).length - (nul :: rest).length = (d :: ds).length := by
    simp only [List.length_cons, List.length_append]
    omega
  rw [hlen, show d :: (ds ++ nul :: rest) = (d :: ds) ++ nul :: rest by rfl, List.take_left]

theorem placeholder_meets {prev : Option Char} {ds rest : List Char} (hne : ds ≠ []) (hds : ∀ c ∈ ds, isDigit c) :
    placeholderRe.Meets { prev := prev, rest := placeholderHead ++ ds ++ nul :: rest } := by
  obtain ⟨d, ds, rfl⟩ := List.exists_cons_of_ne_nil hne
  have hhead : List.Forall₂ (fun c d => ((c == d) = true)) placeholderHead placeholderHead :=
    List.forall₂_same.mpr fun c _ => by simp
  refine .seq (mem_ends_word.mpr ⟨placeholderHead, _, List.append_assoc _ _ _, hhead, rfl⟩) ?_
  refine .seq (mem_ends_group.mpr ⟨_, mem_ends_seq.mpr ⟨_, mem_ends_seq.mpr ⟨_, mem_ends_set.mpr
    ⟨d, ds ++ nul :: rest, rfl, hds d (by simp), rfl⟩, mem_ends_eps.mpr rfl⟩, mem_ends_many.mpr
    ⟨ds, nul :: rest, rfl, fun c hc => hds c (by simp [hc]), rfl⟩⟩, rfl⟩) ?_
  exact .seq (mem_ends_set.mpr ⟨nul, rest, rfl, by simp, rfl⟩) (meets_eps _)

theorem placeholder_match {prev : Option Char} {text : List Char} {found : Found} :
    placeholderRe.matchAt prev text = some found ↔ ∃ ds rest, ds ≠ [] ∧ (∀ c ∈ ds, isDigit c) ∧
      text = placeholderHead ++ ds ++ nul :: rest ∧ found = ⟨placeholderHead ++ ds ++ [nul], [ds]⟩ := by
  have hfound : ∀ {found}, placeholderRe.matchAt prev text = some found → ∃ ds rest, ds ≠ [] ∧ (∀ c ∈ ds, isDigit c) ∧
      text = placeholderHead ++ ds ++ nul :: rest ∧ found = ⟨placeholderHead ++ ds ++ [nul], [ds]⟩ := by
    intro found h
    obtain ⟨q, hq, rfl⟩ := Option.map_eq_some_iff.mp h
    obtain ⟨ds, hne, hds, htext, hgroups⟩ := mem_placeholder_ends (List.mem_of_head? hq)
    obtain rfl : text = placeholderHead ++ ds ++ nul :: q.rest := htext
    refine ⟨ds, q.rest, hne, hds, rfl, ?_⟩
    have hlen : (placeholderHead ++ ds ++ nul :: q.rest).length - q.rest.length =
        (placeholderHead ++ ds ++ [nul]).length := by
      simp only [List.length_append, List.length_cons, List.length_nil]
      omega
    rw [hlen, show placeholderHead ++ ds ++ nul :: q.rest = (placeholderHead ++ ds ++ [nul]) ++ q.rest by simp,
      List.take_left, hgroups]
    rfl
  refine ⟨hfound, ?_⟩
  rintro ⟨ds, rest, hne, hds, rfl, rfl⟩
  obtain ⟨found, hmatch⟩ := Option.isSome_iff_exists.mp (matchAt_isSome.mpr (placeholder_meets hne hds))
  obtain ⟨es, tail, -, hes, htext, rfl⟩ := hfound hmatch
  rw [List.append_assoc, List.append_assoc, List.append_cancel_left_eq] at htext
  rw [hmatch, digits_unique hds hes htext]

theorem placeholder_prev (prev prev' : Option Char) (text : List Char) :
    placeholderRe.matchAt prev text = placeholderRe.matchAt prev' text :=
  Option.ext fun found => by rw [placeholder_match, placeholder_match]

theorem restore_prev (f : Found → List Char) (skip : Nat) (prev prev' : Option Char) (text : List Char) :
    placeholderRe.replaceFrom f skip prev text = placeholderRe.replaceFrom f skip prev' text := by
  cases text with
  | nil => cases skip <;> rfl
  | cons c text =>
    cases skip with
    | zero => simp only [replaceFrom, placeholder_prev prev prev']
    | succ skip => rfl

theorem placeholder_cross {v t : List Char} (hv : v ≠ []) (hlast : v.getLast?.any isDigit = false)
    (prev : Option Char) : placeholderRe.matchAt prev (v ++ nul :: t) = placeholderRe.matchAt prev v := by
  refine Option.ext fun found => ?_
  rw [placeholder_match, placeholder_match]
  constructor
  · rintro ⟨ds, rest, hne, hds, htext, rfl⟩
    have hsplit : v ++ nul :: t = (placeholderHead ++ ds ++ [nul]) ++ rest := by simp [htext]
    obtain ⟨a, hmark, htail⟩ | ⟨a, rfl, -⟩ := List.append_eq_append_iff.mp hsplit
    · -- the placeholder goes on behind the gap
      obtain ⟨c, v, rfl⟩ := List.exists_cons_of_ne_nil hv
      obtain rfl | ⟨a, rfl⟩ : a = [] ∨ ∃ b, a = nul :: b := by
        cases a with
        | nil => exact .inl rfl
        | cons d a => exact .inr ⟨a, by rw [(List.cons.inj htail).1]⟩
      · exact ⟨ds, [], hne, hds, by simpa using hmark.symm, rfl⟩
      have hbody : "GA_TOOL_FENCE_".toList ++ ds ++ [nul] = v ++ nul :: a := by
        have hcons := hmark
        simp only [placeholderHead, List.cons_append] at hcons
        exact (List.cons.inj hcons).2
      have hnil : a = [] := by
        by_contra hne
        obtain ⟨b, d, rfl⟩ := (List.eq_nil_or_concat' a).resolve_left hne
        rw [show v ++ nul :: (b ++ [d]) = (v ++ nul :: b) ++ [d] by simp] at hbody
        have hmem : nul ∈ "GA_TOOL_FENCE_".toList ++ ds := by
          rw [(List.append_inj' hbody rfl).1]
          simp
        exact nul_not_mem hds hmem
      subst hnil
      obtain rfl := (List.append_inj' hbody rfl).1
      obtain ⟨es, d, rfl⟩ := (List.eq_nil_or_concat' ds).resolve_left hne
      have hdigit := hds d (by simp)
      have hend : (c :: ("GA_TOOL_FENCE_".toList ++ (es ++ [d]))).getLast? = some d := by
        rw [show c :: ("GA_TOOL_FENCE_".toList ++ (es ++ [d])) = (c :: ("GA_TOOL_FENCE_".toList ++ es)) ++ [d] by simp,
          List.getLast?_concat]
      rw [hend] at hlast
      simp [hdigit] at hlast
    · exact ⟨ds, a, hne, hds, by simp, rfl⟩
  · rintro ⟨ds, rest, hne, hds, rfl, rfl⟩
    exact ⟨ds, rest ++ nul :: t, hne, hds, by simp, rfl⟩

theorem number_toString (i : Nat) : number (toString i).toList = i := by
  have htext : (toString i).toList = Nat.toDigits 10 i := by
    rw [Nat.toString_eq_ofList_toDigits, String.toList_ofList]
  rw [htext]
  have hvalue : Nat.ofDigitChars 10 (Nat.toDigits 10 i) 0 = i := Nat.ofDigitChars_ten_toDigits
  rw [Nat.ofDigitChars_eq_foldl] at hvalue
  exact hvalue

theorem placeholder_found (prev : Option Char) (i : Nat) (t : List Char) :
    placeholderRe.matchAt prev (placeholder i ++ t) = some ⟨placeholder i, [(toString i).toList]⟩ := by
  have htext : (toString i).toList = Nat.toDigits 10 i := by
    rw [Nat.toString_eq_ofList_toDigits, String.toList_ofList]
  refine placeholder_match.mpr ⟨(toString i).toList, t, ?_, ?_, by simp [placeholder], rfl⟩
  · rw [htext]
    exact Nat.toDigits_ne_nil
  · intro c hc
    rw [htext] at hc
    exact Nat.isDigit_of_mem_toDigits (by decide) (by decide) hc

end Placeholder

section Hide

variable {source : List Char}

-- The source with a placeholder for each range, counted from `i` on.
def hidden (source : List Char) : Nat → Nat → List Span → List Char
  | pos, _, [] => source.drop pos
  | pos, i, range :: ranges =>
    Scan.slice source pos range.start ++ (placeholder i ++ hidden source range.stop (i + 1) ranges)

theorem hide_eq (pos : Nat) (p : Protected) (ranges : List Span) : hide source pos p ranges =
    { safe := p.safe ++ hidden source pos p.values.length ranges
      values := p.values ++ ranges.map fun range => Scan.slice source range.start range.stop } := by
  induction ranges generalizing pos p with
  | nil => simp [hide, hidden]
  | cons range ranges ih =>
    simp only [hide, hidden, ih, List.length_append, List.length_singleton, List.map_cons, List.append_assoc,
      List.singleton_append]

theorem slice_last {start stop : Nat} (hguard : stop = start ∨ digitBefore source stop = false) :
    (Scan.slice source start stop).getLast?.any isDigit = false := by
  by_cases hle : (source.take stop).length ≤ start
  · simp [Scan.slice, List.drop_eq_nil_of_le hle]
  · have hlt : start < (source.take stop).length := Nat.not_le.mp hle
    have hend : (Scan.slice source start stop).getLast? = (source.take stop).getLast? := by
      rw [Scan.slice, List.getLast?_drop, if_neg hle]
    obtain rfl | hdigit := hguard
    · rw [List.length_take] at hlt
      omega
    · rw [hend]
      exact hdigit

variable {stop : Nat} {p : Protected}

theorem restore_hidden {pos i : Nat} {ranges : List Span} (h : Guarded source pos ranges stop)
    (hvalues : ∀ k (hk : k < ranges.length),
      p.values[i + k]? = some (Scan.slice source ranges[k].start ranges[k].stop)) (prev : Option Char) :
    placeholderRe.replaceFrom p.value 0 prev (hidden source pos i ranges) = weave p.restore source pos ranges := by
  induction ranges generalizing pos i prev with
  | nil => exact restore_prev p.value 0 prev none _
  | cons range ranges ih =>
    obtain ⟨-, hdigit, -, -, hrest⟩ := h
    have hvalue : p.value ⟨placeholder i, [(toString i).toList]⟩ = Scan.slice source range.start range.stop := by
      have hhere := hvalues 0 (Nat.zero_lt_succ _)
      rw [Nat.add_zero] at hhere
      show p.values[number (toString i).toList]?.getD [] = _
      rw [number_toString, hhere]
      rfl
    have hcross : ∀ prev u v, Scan.slice source pos range.start = u ++ v → v ≠ [] →
        placeholderRe.matchAt prev (v ++ (placeholder i ++ hidden source range.stop (i + 1) ranges)) =
          placeholderRe.matchAt prev v := by
      intro prev u v huv hv
      have hlast := slice_last hdigit
      rw [huv, List.getLast?_append_of_ne_nil _ hv] at hlast
      exact placeholder_cross hv hlast prev
    have hne : placeholder i ≠ [] := by simp [placeholder, placeholderHead]
    have hnext := ih hrest (i := i + 1) fun k hk => by
      have hthere := hvalues (k + 1) (Nat.succ_lt_succ hk)
      rw [← Nat.add_assoc, Nat.add_right_comm] at hthere
      exact hthere
    simp only [hidden, weave]
    rw [replaceFrom_append placeholderRe_nullable (Nat.zero_le _) hcross,
      replaceFrom_hit hne rfl (placeholder_found _ i _), hvalue, hnext]
    congr 1
    exact restore_prev p.value 0 prev none _

theorem weave_id {pos : Nat} {ranges : List Span} (h : Guarded source pos ranges stop) :
    weave id source pos ranges = source.drop pos := by
  induction ranges generalizing pos with
  | nil => rfl
  | cons range ranges ih =>
    obtain ⟨hpos, -, hfence, hlt, hrest⟩ := h
    have hinside : range.start < source.length := by
      by_contra hout
      rw [List.drop_eq_nil_of_le (Nat.not_lt.mp hout)] at hfence
      simp at hfence
    have hle : pos ≤ (source.take range.stop).length := by
      rw [List.length_take]
      omega
    simp only [weave, ih hrest, id_eq]
    rw [← List.append_assoc, Tiles.slice_append hpos (Nat.le_of_lt hlt), Scan.slice,
      ← List.drop_append_of_le_length hle, List.take_append_drop]

theorem weave_congr {f g : List Char → List Char} {pos : Nat} {ranges : List Span}
    (h : ∀ gap ∈ gaps source pos ranges, f gap = g gap) : weave f source pos ranges = weave g source pos ranges := by
  induction ranges generalizing pos with
  | nil => exact h _ (by simp [gaps])
  | cons range ranges ih =>
    simp only [gaps, List.forall_mem_cons] at h
    simp only [weave, h.1, ih h.2]

-- Two texts that differ in their gaps only have the same weight where every gap has, and the one
-- whose gaps weigh no less weighs no less.
theorem weave_weight (weight : List Char → Nat) (hweight : ∀ a b, weight (a ++ b) = weight a + weight b)
    (f g : List Char → List Char) {pos : Nat} {ranges : List Span}
    (h : ∀ gap ∈ gaps source pos ranges, weight (f gap) ≤ weight (g gap)) :
    weight (weave f source pos ranges) ≤ weight (weave g source pos ranges) ∧
      (weight (weave f source pos ranges) = weight (weave g source pos ranges) →
        ∀ gap ∈ gaps source pos ranges, weight (f gap) = weight (g gap)) := by
  induction ranges generalizing pos with
  | nil =>
    simp only [gaps, weave, List.forall_mem_singleton] at h ⊢
    exact ⟨h, id⟩
  | cons range ranges ih =>
    simp only [gaps, List.forall_mem_cons] at h ⊢
    obtain ⟨hle, hall⟩ := ih h.2
    simp only [weave, hweight]
    refine ⟨by have := h.1; omega, fun heq => ?_⟩
    have hfirst := h.1
    exact ⟨by omega, hall (by omega)⟩

end Hide

section Ranges

variable {source : List Char}

theorem Guarded.weaken {start first stop : Nat} {spans : List Span} (h : Guarded source first spans stop)
    (hle : start ≤ first) (hdigit : spans = [] ∨ digitBefore source first = false) (hne : spans ≠ []) :
    Guarded source start spans stop := by
  cases spans with
  | nil => exact absurd rfl hne
  | cons span spans =>
    obtain ⟨hfirst, hbefore, hfence, hlt, hrest⟩ := h
    refine ⟨Nat.le_trans hle hfirst, .inr ?_, hfence, hlt, hrest⟩
    obtain heq | hbefore := hbefore
    · rw [heq]
      exact hdigit.resolve_left (by simp)
    · exact hbefore

theorem Guarded.append {start mid stop : Nat} {spans more : List Span} (h : Guarded source start spans mid)
    (hmore : Guarded source mid more stop) : Guarded source start (spans ++ more) stop := by
  induction spans generalizing start with
  | nil =>
    obtain rfl : start = mid := h
    exact hmore
  | cons span spans ih =>
    obtain ⟨hstart, hbefore, hfence, hlt, hrest⟩ := h
    exact ⟨hstart, hbefore, hfence, hlt, ih hrest⟩

theorem Tiles.guarded {start stop : Nat} {nodes : List TranscriptNode} (h : Tiles source start nodes stop) {pos : Nat}
    (hpos : pos ≤ start) : ∃ last, Guarded source pos (nodes.flatMap TranscriptNode.ranges) last := by
  induction nodes generalizing start pos with
  | nil => exact ⟨pos, rfl⟩
  | cons node nodes ih =>
    obtain ⟨hnode, hrest⟩ := h
    obtain ⟨place, hplace, hdigit, hguard⟩ := hnode.guarded
    have hlt := hnode.start_lt
    rw [hnode.start_eq] at hplace hlt
    rw [List.flatMap_cons]
    by_cases hnil : node.ranges = []
    · rw [hnil]
      exact ih hrest (by omega)
    · obtain ⟨last, hlast⟩ := ih hrest (Nat.le_refl node.stop)
      exact ⟨last, (hguard.weaken (by omega) hdigit hnil).append hlast⟩

theorem opaqueRanges_guarded (source : String) : ∃ last, Guarded source.toList 0 (opaqueRanges source) last :=
  (scan_tiles source).guarded (Nat.le_refl 0)

theorem Guarded.fenced {start stop : Nat} {spans : List Span} (h : Guarded source start spans stop) {span : Span}
    (hspan : span ∈ spans) : 0 < (Scan.slice source span.start span.stop).countP isFence := by
  induction spans generalizing start with
  | nil => simp at hspan
  | cons first spans ih =>
    obtain ⟨-, -, hfence, hlt, hrest⟩ := h
    obtain rfl | hspan := List.mem_cons.mp hspan
    · have hslice : Scan.slice source span.start span.stop =
          (source.drop span.start).take (span.stop - span.start) := List.drop_take
      obtain ⟨more, hmore⟩ := Nat.exists_eq_add_of_lt hlt
      rw [hslice, show span.stop - span.start = more + 1 by omega]
      cases hdrop : source.drop span.start with
      | nil => simp [hdrop] at hfence
      | cons c rest =>
        rw [hdrop] at hfence
        have hc : isFence c = true := by simpa using hfence
        simp [hc]
    · exact ih hrest hspan

end Ranges

section Weights

variable {f : Found → List Char} (hf : ∀ found, f found = [] ∨ 0 < (f found).countP isFence)

theorem placeholder_plain {ds : List Char} (hds : ∀ c ∈ ds, isDigit c) :
    (placeholderHead ++ ds ++ [nul]).countP isFence = 0 := by
  rw [List.countP_append, List.countP_append, show placeholderHead.countP isFence = 0 by decide,
    show [nul].countP isFence = 0 by decide, Nat.zero_add, Nat.add_zero, List.countP_eq_zero]
  intro c hc hfence
  have hblank : c = ' ' ∨ c = '\t' ∨ c = Char.ofNat 96 ∨ c = '~' := by
    simpa [isFence, isBlank, isTick, or_assoc] using hfence
  have hdigit := hds c hc
  obtain rfl | rfl | rfl | rfl := hblank <;> exact absurd hdigit (by decide)

include hf in
-- No text has fewer signs of a fence once its placeholders are replaced; where it has as many, it is
-- no longer, and where it is as long, it had no placeholder.
theorem replace_weight (text : List Char) (skip : Nat) (prev : Option Char) (hskip : skip ≤ text.length) :
    (text.drop skip).countP isFence ≤ (placeholderRe.replaceFrom f skip prev text).countP isFence ∧
    ((text.drop skip).countP isFence = (placeholderRe.replaceFrom f skip prev text).countP isFence →
      (placeholderRe.replaceFrom f skip prev text).length ≤ (text.drop skip).length ∧
      ((placeholderRe.replaceFrom f skip prev text).length = (text.drop skip).length →
        ∀ u v, text.drop skip = u ++ v → placeholderRe.matchAt none v = none)) := by
  induction text generalizing skip prev with
  | nil =>
    obtain rfl : skip = 0 := Nat.le_zero.mp hskip
    simp only [replaceFrom, List.drop_nil]
    refine ⟨Nat.le_refl _, fun _ => ⟨Nat.le_refl _, fun _ u v huv => ?_⟩⟩
    obtain ⟨rfl, rfl⟩ := List.append_eq_nil_iff.mp huv.symm
    decide
  | cons c text ih =>
    cases skip with
    | succ skip => exact ih skip (some c) (Nat.le_of_succ_le_succ hskip)
    | zero =>
      simp only [replaceFrom, List.drop_zero]
      cases hmatch : placeholderRe.matchAt prev (c :: text) with
      | some found =>
        obtain ⟨ds, rest, -, hds, htext, rfl⟩ := placeholder_match.mp hmatch
        have hmark : c :: text = (placeholderHead ++ ds ++ [nul]) ++ rest := by simp [htext]
        have hplain := placeholder_plain hds
        have hpos : 0 < (placeholderHead ++ ds ++ [nul]).length := by simp [placeholderHead]
        generalize placeholderHead ++ ds ++ [nul] = mark at hmark hplain hpos
        have hlen : mark.length ≤ text.length + 1 := by
          rw [← List.length_cons, hmark, List.length_append]
          exact Nat.le_add_right _ _
        have hrest : text.drop (mark.length - 1) = rest := by
          have hdrop := congrArg (List.drop mark.length) hmark
          rw [List.drop_left] at hdrop
          rwa [← Nat.sub_add_cancel hpos, List.drop_succ_cons] at hdrop
        obtain ⟨hcount, heq⟩ := ih (mark.length - 1) (some c) (by omega)
        rw [hrest] at hcount heq
        simp only [hmark, List.countP_append, hplain, Nat.zero_add, List.length_append]
        refine ⟨by omega, fun hsame => ?_⟩
        obtain hnil | hfence := hf ⟨mark, [ds]⟩
        · obtain ⟨hle, -⟩ := heq (by rw [hsame, hnil]; simp)
          rw [hnil, List.length_nil]
          exact ⟨by omega, fun hlong => by omega⟩
        · omega
      | none =>
        obtain ⟨hcount, heq⟩ := ih 0 (some c) (Nat.zero_le _)
        rw [List.drop_zero] at hcount heq
        simp only [List.countP_cons, List.length_cons]
        refine ⟨by omega, fun hsame => ?_⟩
        obtain ⟨hle, hclean⟩ := heq (by omega)
        refine ⟨by omega, fun hlong u v huv => ?_⟩
        cases u with
        | nil =>
          obtain rfl : c :: text = v := huv
          rwa [placeholder_prev none prev]
        | cons d u => exact hclean (by omega) u v (List.cons.inj huv).2

end Weights

theorem search_none {text : List Char} : placeholderRe.search text = none ↔
    ∀ u v, text = u ++ v → placeholderRe.matchAt none v = none := by
  rw [search, searchFrom_eq_none]
  exact forall_congr' fun u => forall_congr' fun v => by rw [placeholder_prev _ none]

-- Restoring what is protected gives the source back just where it has no placeholder of its own
-- outside of the ranges.
theorem protectTranscript_restore_iff (source : String) :
    (protectTranscript source).restore (protectTranscript source).safe = source.toList ↔
      ∀ gap ∈ gaps source.toList 0 (opaqueRanges source), placeholderRe.search gap = none := by
  obtain ⟨last, hguard⟩ := opaqueRanges_guarded source
  have hprotect : protectTranscript source =
      { safe := hidden source.toList 0 0 (opaqueRanges source)
        values := (opaqueRanges source).map fun range => Scan.slice source.toList range.start range.stop } := by
    simp [protectTranscript, hide_eq]
  have hrestore : (protectTranscript source).restore (protectTranscript source).safe =
      weave (protectTranscript source).restore source.toList 0 (opaqueRanges source) := by
    have hhidden := restore_hidden (p := protectTranscript source) (i := 0) hguard
      (fun k hk => by simp [hprotect, hk]) none
    rw [← hhidden, hprotect]
    rfl
  have hsource : weave id source.toList 0 (opaqueRanges source) = source.toList := weave_id hguard
  rw [hrestore]
  constructor
  · intro heq
    have hvalue : ∀ found, (protectTranscript source).value found = [] ∨
        0 < ((protectTranscript source).value found).countP isFence := by
      intro found
      rw [hprotect]
      simp only [Protected.value]
      cases hget : ((opaqueRanges source).map fun range =>
          Scan.slice source.toList range.start range.stop)[number (found.groups.headD [])]? with
      | none => exact .inl rfl
      | some value =>
        obtain ⟨range, hrange, rfl⟩ := List.mem_map.mp (List.mem_of_getElem? hget)
        exact .inr (hguard.fenced hrange)
    have hgap := fun gap : List Char => replace_weight hvalue gap 0 none (Nat.zero_le _)
    simp only [List.drop_zero] at hgap
    have hall := heq.trans hsource.symm
    have hcount := (weave_weight (List.countP isFence) (fun a b => List.countP_append) id
      (protectTranscript source).restore fun gap _ => (hgap gap).1).2 (by rw [hall])
    have hlength := (weave_weight List.length (fun a b => List.length_append) (protectTranscript source).restore id
      fun gap hin => ((hgap gap).2 (hcount gap hin)).1).2 (by rw [hall])
    exact fun gap hin => search_none.mpr (((hgap gap).2 (hcount gap hin)).2 (hlength gap hin))
  · intro hclean
    rw [weave_congr (g := id) fun gap hin => ?_, hsource]
    exact replaceFrom_none fun u v huv => by
      rw [placeholder_prev _ none]
      exact search_none.mp (hclean gap hin) u v huv

-- A text that reads as a placeholder is lost.
theorem own_placeholder_lost : ¬∀ source : String,
    (protectTranscript source).restore (protectTranscript source).safe = source.toList := by
  intro h
  have hlost : (protectTranscript "\x00GA_TOOL_FENCE_0\x00").restore
      (protectTranscript "\x00GA_TOOL_FENCE_0\x00").safe = [] := by decide
  exact absurd (hlost.symm.trans (h _)) (by decide)

end GaHub.Chat.Transcript
