import Mathlib.Data.List.Basic
import Mathlib.Data.List.Forall2

namespace Lib

-- Where a match stands in a text: the character before, what is left, and what the groups have caught.
structure Cursor where
  prev : Option Char
  rest : List Char
  groups : List (List Char) := []
  deriving DecidableEq

namespace Cursor

-- The cursor after reading `u`, with `rest` left.
def past (p : Cursor) (u rest : List Char) : Cursor where
  prev := u.getLast?.or p.prev
  rest := rest
  groups := p.groups

@[simp] theorem past_rest (p : Cursor) (u rest : List Char) : (p.past u rest).rest = rest := rfl

@[simp] theorem past_groups (p : Cursor) (u rest : List Char) : (p.past u rest).groups = p.groups := rfl

@[simp] theorem past_nil (p : Cursor) : p.past [] p.rest = p := rfl

theorem past_past (p : Cursor) (u v mid rest : List Char) : (p.past u mid).past v rest = p.past (u ++ v) rest := by
  simp only [past, List.getLast?_append, Option.or_assoc]

end Cursor

-- Expressions of a backtracking matcher. Only classes are repeated, and `check` looks at the two
-- sides of a place without moving on.
inductive Regex where
  | eps
  | set (ok : Char → Bool)
  | many (ok : Char → Bool)
  | seq (r s : Regex)
  | alt (r s : Regex)
  | group (r : Regex)
  | check (ok : Option Char → List Char → Bool)

namespace Regex

-- All the places where a run of a class may end, the longest first.
def runs (ok : Char → Bool) (groups : List (List Char)) : List Char → Option Char → List Cursor
  | [], prev => [{ prev := prev, rest := [], groups := groups }]
  | c :: rest, prev =>
    (if ok c then runs ok groups rest (some c) else []) ++ [{ prev := prev, rest := c :: rest, groups := groups }]

-- All the places where a match may end, in the order in which the matcher tries them.
def ends : Regex → Cursor → List Cursor
  | eps, p => [p]
  | set ok, p =>
    match p.rest with
    | [] => []
    | c :: rest => if ok c then [{ p with prev := some c, rest := rest }] else []
  | many ok, p => runs ok p.groups p.rest p.prev
  | seq r s, p => (r.ends p).flatMap s.ends
  | alt r s, p => r.ends p ++ s.ends p
  | group r, p => (r.ends p).map fun q =>
    { q with groups := q.groups ++ [p.rest.take (p.rest.length - q.rest.length)] }
  | check ok, p => if ok p.prev p.rest then [p] else []

def cat : List Regex → Regex
  | [] => eps
  | r :: rest => seq r (cat rest)

def any : List Regex → Regex
  | [] => set fun _ => false
  | r :: rest => alt r (any rest)

def opt (r : Regex) : Regex := alt r eps

-- A literal, its characters compared by `same`.
def word (same : Char → Char → Bool) : List Char → Regex
  | [] => eps
  | c :: rest => seq (set (same c)) (word same rest)

def lit (s : String) : Regex := word (fun c d => c == d) s.toList

-- `r{n}` of a class, and `r{n,}`.
def times (ok : Char → Bool) : Nat → Regex
  | 0 => eps
  | n + 1 => seq (set ok) (times ok n)

def atLeast (ok : Char → Bool) (n : Nat) : Regex := seq (times ok n) (many ok)

def plus (ok : Char → Bool) : Regex := atLeast ok 1

-- `(?:a(?:b(?:c)?)?)?`: a sequence that may break off at any of its parts.
def begun : List Regex → Regex
  | [] => eps
  | r :: rest => opt (seq r (begun rest))

def atEnd : Regex := check fun _ rest => rest.isEmpty

def wordBreak (isWord : Char → Bool) : Regex :=
  check fun prev rest => prev.any isWord != rest.head?.any isWord

structure Found where
  text : List Char
  groups : List (List Char)
  deriving DecidableEq

def matchAt (r : Regex) (prev : Option Char) (text : List Char) : Option Found :=
  (r.ends { prev := prev, rest := text }).head?.map fun q =>
    { text := text.take (text.length - q.rest.length), groups := q.groups }

def exec (r : Regex) (text : List Char) : Option Found := r.matchAt none text

-- The first place where a match begins, from `at` characters on.
def searchFrom (r : Regex) (start : Nat) (prev : Option Char) : List Char → Option (Nat × Found)
  | [] => (r.matchAt prev []).map fun found => (start, found)
  | c :: rest =>
    match r.matchAt prev (c :: rest) with
    | some found => some (start, found)
    | none => searchFrom r (start + 1) (some c) rest

def search (r : Regex) (text : List Char) : Option (Nat × Found) := r.searchFrom 0 none text

-- Where the matches begin that follow each other in a text, of an expression that reads something.
def findStarts (r : Regex) : Nat → Nat → Option Char → List Char → List Nat
  | 0, _, _, _ => []
  | fuel + 1, start, prev, text =>
    match r.searchFrom start prev text with
    | none => []
    | some (index, found) =>
      let read := text.take (index - start + found.text.length)
      index :: findStarts r fuel (start + read.length) (read.getLast?.or prev) (text.drop read.length)

def finditer (r : Regex) (text : List Char) : List Nat := r.findStarts (text.length + 1) 0 none text

-- Every match replaced by what `f` makes of it, of an expression that reads something. The first
-- argument counts what is left of the match just replaced.
def replaceFrom (r : Regex) (f : Found → List Char) : Nat → Option Char → List Char → List Char
  | _, _, [] => []
  | skip + 1, _, c :: rest => replaceFrom r f skip (some c) rest
  | 0, prev, c :: rest =>
    match r.matchAt prev (c :: rest) with
    | some found => f found ++ replaceFrom r f (found.text.length - 1) (some c) rest
    | none => c :: replaceFrom r f 0 (some c) rest

def replaceAll (r : Regex) (f : Found → List Char) (text : List Char) : List Char := r.replaceFrom f 0 none text

section Ends

variable {p q : Cursor}

theorem runs_cons (ok : Char → Bool) (groups : List (List Char)) (c : Char) (rest : List Char) (prev : Option Char) :
    runs ok groups (c :: rest) prev = (if ok c then runs ok groups rest (some c) else []) ++
      [{ prev := prev, rest := c :: rest, groups := groups }] := rfl

theorem ends_eps (p : Cursor) : eps.ends p = [p] := rfl

theorem ends_set_cons (ok : Char → Bool) (prev : Option Char) (c : Char) (rest : List Char)
    (groups : List (List Char)) : (set ok).ends { prev := prev, rest := c :: rest, groups := groups } =
      if ok c then [{ prev := some c, rest := rest, groups := groups }] else [] := rfl

theorem ends_many (ok : Char → Bool) (p : Cursor) : (many ok).ends p = runs ok p.groups p.rest p.prev := rfl

theorem ends_seq (r s : Regex) (p : Cursor) : (seq r s).ends p = (r.ends p).flatMap s.ends := rfl

theorem ends_group (r : Regex) (p : Cursor) : (group r).ends p = (r.ends p).map fun q =>
    { q with groups := q.groups ++ [p.rest.take (p.rest.length - q.rest.length)] } := rfl

theorem ends_check (ok : Option Char → List Char → Bool) (p : Cursor) :
    (check ok).ends p = if ok p.prev p.rest then [p] else [] := rfl

@[simp] theorem mem_ends_eps : q ∈ eps.ends p ↔ q = p := List.mem_singleton

theorem mem_ends_set {ok : Char → Bool} :
    q ∈ (set ok).ends p ↔ ∃ c rest, p.rest = c :: rest ∧ ok c ∧ q = p.past [c] rest := by
  obtain ⟨prev, text, groups⟩ := p
  cases text with
  | nil =>
    refine iff_of_false List.not_mem_nil ?_
    rintro ⟨c, rest, hrest, -⟩
    cases hrest
  | cons c rest =>
    by_cases hok : ok c
    · simp [ends_set_cons, hok, Cursor.past]
    · simp [ends_set_cons, hok]

theorem getLast?_cons_or (c : Char) (u : List Char) (prev : Option Char) :
    (c :: u).getLast?.or prev = u.getLast?.or (some c) := by
  rw [List.getLast?_cons]
  cases u.getLast? <;> rfl

theorem mem_runs {ok : Char → Bool} {groups : List (List Char)} {text : List Char} {prev : Option Char} :
    q ∈ runs ok groups text prev ↔ ∃ u rest, text = u ++ rest ∧ (∀ c ∈ u, ok c) ∧
      q = { prev := u.getLast?.or prev, rest := rest, groups := groups } := by
  induction text generalizing prev with
  | nil => simp [runs]
  | cons c text ih =>
    simp only [runs_cons, List.mem_append, List.mem_singleton]
    constructor
    · rintro (hq | rfl)
      · split at hq
        next hok =>
          obtain ⟨u, rest, rfl, hu, rfl⟩ := ih.mp hq
          exact ⟨c :: u, rest, rfl, by simpa using ⟨hok, hu⟩, by rw [getLast?_cons_or]⟩
        next => simp at hq
      · exact ⟨[], c :: text, rfl, by simp, by simp⟩
    · rintro ⟨u, rest, htext, hu, rfl⟩
      cases u with
      | nil =>
        right
        simp only [List.nil_append] at htext
        simp [← htext]
      | cons d u =>
        left
        obtain ⟨rfl, rfl⟩ := List.cons.inj htext
        rw [if_pos (hu _ (by simp))]
        exact ih.mpr ⟨u, rest, rfl, fun e he => hu e (by simp [he]), by rw [getLast?_cons_or]⟩

theorem mem_ends_many {ok : Char → Bool} :
    q ∈ (many ok).ends p ↔ ∃ u rest, p.rest = u ++ rest ∧ (∀ c ∈ u, ok c) ∧ q = p.past u rest :=
  mem_runs

theorem mem_ends_seq {r s : Regex} : q ∈ (seq r s).ends p ↔ ∃ m ∈ r.ends p, q ∈ s.ends m :=
  List.mem_flatMap

theorem mem_ends_alt {r s : Regex} : q ∈ (alt r s).ends p ↔ q ∈ r.ends p ∨ q ∈ s.ends p :=
  List.mem_append

theorem mem_ends_group {r : Regex} : q ∈ (group r).ends p ↔
    ∃ m ∈ r.ends p, { m with groups := m.groups ++ [p.rest.take (p.rest.length - m.rest.length)] } = q :=
  List.mem_map

theorem mem_ends_check {ok : Option Char → List Char → Bool} :
    q ∈ (check ok).ends p ↔ ok p.prev p.rest ∧ q = p := by
  rw [ends_check]
  split
  next h => simp [h]
  next h => simp [h]

theorem mem_ends_word {same : Char → Char → Bool} {w : List Char} :
    q ∈ (word same w).ends p ↔
      ∃ u rest, p.rest = u ++ rest ∧ List.Forall₂ (fun c d => same c d) w u ∧ q = p.past u rest := by
  induction w generalizing p with
  | nil =>
    simp only [word, mem_ends_eps, List.forall₂_nil_left_iff]
    constructor
    · rintro rfl
      exact ⟨[], q.rest, rfl, rfl, rfl⟩
    · rintro ⟨u, rest, hrest, rfl, rfl⟩
      simp only [List.nil_append] at hrest
      rw [← hrest, Cursor.past_nil]
  | cons c w ih =>
    simp only [word, mem_ends_seq, mem_ends_set]
    constructor
    · rintro ⟨_, ⟨d, mid, hmid, hsame, rfl⟩, hq⟩
      obtain ⟨u, rest, hrest, hu, rfl⟩ := ih.mp hq
      refine ⟨d :: u, rest, ?_, List.Forall₂.cons hsame hu, ?_⟩
      · simpa [hmid] using hrest
      · simp [Cursor.past_past]
    · rintro ⟨u, rest, hrest, hu, rfl⟩
      cases hu with
      | cons hsame hu =>
        rename_i d u
        refine ⟨p.past [d] (u ++ rest), ⟨d, u ++ rest, hrest, hsame, rfl⟩, ?_⟩
        exact ih.mpr ⟨u, rest, rfl, hu, by simp [Cursor.past_past]⟩

theorem forall₂_eq {u v : List Char} (h : List.Forall₂ (fun c d => (c == d) = true) u v) : u = v := by
  induction h with
  | nil => rfl
  | cons hcd _ ih => rw [eq_of_beq hcd, ih]

theorem forall₂_exists {rel : Char → Char → Prop} {u v : List Char} (h : List.Forall₂ rel u v) {d : Char}
    (hd : d ∈ v) : ∃ c ∈ u, rel c d := by
  induction h with
  | nil => cases hd
  | cons hcd _ ih =>
    obtain rfl | htail := List.mem_cons.mp hd
    · exact ⟨_, List.mem_cons_self, hcd⟩
    · obtain ⟨c, hc, hrel⟩ := ih htail
      exact ⟨c, List.mem_cons_of_mem _ hc, hrel⟩

theorem mem_ends_lit {s : String} :
    q ∈ (lit s).ends p ↔ ∃ rest, p.rest = s.toList ++ rest ∧ q = p.past s.toList rest := by
  rw [lit, mem_ends_word]
  constructor
  · rintro ⟨u, rest, hrest, hu, rfl⟩
    rw [← forall₂_eq hu] at hrest ⊢
    exact ⟨rest, hrest, rfl⟩
  · rintro ⟨rest, hrest, rfl⟩
    exact ⟨s.toList, rest, hrest, List.forall₂_same.mpr fun c _ => by simp, rfl⟩

theorem mem_ends_any {rs : List Regex} : q ∈ (any rs).ends p ↔ ∃ r ∈ rs, q ∈ r.ends p := by
  induction rs with
  | nil =>
    simp only [any, mem_ends_set]
    simp
  | cons r rs ih => simp [any, mem_ends_alt, ih]

theorem mem_ends_cat_cons {r : Regex} {rest : List Regex} :
    q ∈ (cat (r :: rest)).ends p ↔ ∃ m ∈ r.ends p, q ∈ (cat rest).ends m :=
  mem_ends_seq

end Ends

-- Whether a match may read nothing, and the characters it may begin with. Both err on the side of
-- letting more through.
def nullable : Regex → Bool
  | eps | many _ | check _ => true
  | set _ => false
  | seq r s => r.nullable && s.nullable
  | alt r s => r.nullable || s.nullable
  | group r => r.nullable

def first : Regex → Char → Bool
  | eps, _ | check _, _ => false
  | set ok, c | many ok, c => ok c
  | seq r s, c => r.first c || (r.nullable && s.first c)
  | alt r s, c => r.first c || s.first c
  | group r, c => r.first c

def last : Regex → Char → Bool
  | eps, _ | check _, _ => false
  | set ok, c | many ok, c => ok c
  | seq r s, c => s.last c || (s.nullable && r.last c)
  | alt r s, c => r.last c || s.last c
  | group r, c => r.last c

theorem rest_suffix {r : Regex} {p q : Cursor} (hq : q ∈ r.ends p) : q.rest <:+ p.rest := by
  induction r generalizing p q with
  | eps => simp_all
  | set ok =>
    obtain ⟨c, rest, hrest, -, rfl⟩ := mem_ends_set.mp hq
    exact hrest ▸ List.suffix_cons c rest
  | many ok =>
    obtain ⟨u, rest, hrest, -, rfl⟩ := mem_ends_many.mp hq
    exact hrest ▸ List.suffix_append u rest
  | seq r s ihr ihs =>
    obtain ⟨m, hm, hq⟩ := mem_ends_seq.mp hq
    exact (ihs hq).trans (ihr hm)
  | alt r s ihr ihs => exact (mem_ends_alt.mp hq).elim ihr ihs
  | group r ih =>
    obtain ⟨m, hm, rfl⟩ := mem_ends_group.mp hq
    show m.rest <:+ p.rest
    exact ih hm
  | check ok =>
    obtain ⟨-, rfl⟩ := mem_ends_check.mp hq
    exact List.suffix_refl _

theorem rest_lt {r : Regex} (hr : r.nullable = false) {p q : Cursor} (hq : q ∈ r.ends p) :
    q.rest.length < p.rest.length := by
  induction r generalizing p q with
  | eps | many _ | check _ => simp [nullable] at hr
  | set ok =>
    obtain ⟨c, rest, hrest, -, rfl⟩ := mem_ends_set.mp hq
    simp [hrest]
  | seq r s ihr ihs =>
    obtain ⟨m, hm, hq⟩ := mem_ends_seq.mp hq
    have hleft := (rest_suffix hm).length_le
    have hright := (rest_suffix hq).length_le
    cases hn : r.nullable with
    | false => exact Nat.lt_of_le_of_lt hright (ihr hn hm)
    | true =>
      have hs : s.nullable = false := by simpa [nullable, hn] using hr
      exact Nat.lt_of_lt_of_le (ihs hs hq) hleft
  | alt r s ihr ihs =>
    obtain ⟨hr, hs⟩ : r.nullable = false ∧ s.nullable = false := by simpa [nullable] using hr
    exact (mem_ends_alt.mp hq).elim (ihr hr) (ihs hs)
  | group r ih =>
    obtain ⟨m, hm, rfl⟩ := mem_ends_group.mp hq
    show m.rest.length < p.rest.length
    exact ih hr hm

theorem first_of_mem {r : Regex} {p q : Cursor} (hq : q ∈ r.ends p) :
    q.rest = p.rest ∨ ∃ c rest, p.rest = c :: rest ∧ r.first c := by
  induction r generalizing p q with
  | eps => simp_all
  | set ok =>
    obtain ⟨c, rest, hrest, hok, rfl⟩ := mem_ends_set.mp hq
    exact .inr ⟨c, rest, hrest, hok⟩
  | many ok =>
    obtain ⟨u, rest, hrest, hok, rfl⟩ := mem_ends_many.mp hq
    cases u with
    | nil => exact .inl (by simpa using hrest.symm)
    | cons c u => exact .inr ⟨c, u ++ rest, hrest, hok c (by simp)⟩
  | seq r s ihr ihs =>
    obtain ⟨m, hm, hq⟩ := mem_ends_seq.mp hq
    obtain hsame | ⟨c, rest, hrest, hc⟩ := ihr hm
    · have hn : r.nullable = true := by
        by_contra hn
        have hlt := rest_lt (by simpa using hn) hm
        rw [hsame] at hlt
        exact Nat.lt_irrefl _ hlt
      obtain hq | ⟨c, rest, hrest, hc⟩ := ihs hq
      · exact .inl (hq.trans hsame)
      · exact .inr ⟨c, rest, hsame ▸ hrest, by simp [first, hn, hc]⟩
    · exact .inr ⟨c, rest, hrest, by simp [first, hc]⟩
  | alt r s ihr ihs =>
    obtain hq | hq := mem_ends_alt.mp hq
    · exact (ihr hq).imp_right fun ⟨c, rest, hrest, hc⟩ => ⟨c, rest, hrest, by simp [first, hc]⟩
    · exact (ihs hq).imp_right fun ⟨c, rest, hrest, hc⟩ => ⟨c, rest, hrest, by simp [first, hc]⟩
  | group r ih =>
    obtain ⟨m, hm, rfl⟩ := mem_ends_group.mp hq
    show m.rest = p.rest ∨ _
    exact ih hm
  | check ok =>
    obtain ⟨-, rfl⟩ := mem_ends_check.mp hq
    exact .inl rfl

theorem cons_of_mem {r : Regex} (hr : r.nullable = false) {p q : Cursor} (hq : q ∈ r.ends p) :
    ∃ c rest, p.rest = c :: rest ∧ r.first c := by
  obtain hsame | hfirst := first_of_mem hq
  · have hlt := rest_lt hr hq
    rw [hsame] at hlt
    exact absurd hlt (Nat.lt_irrefl _)
  · exact hfirst

theorem last_of_mem {r : Regex} {p q : Cursor} (hq : q ∈ r.ends p) :
    q.rest = p.rest ∨ ∃ u c, p.rest = u ++ c :: q.rest ∧ r.last c := by
  induction r generalizing p q with
  | eps => simp_all
  | set ok =>
    obtain ⟨c, rest, hrest, hok, rfl⟩ := mem_ends_set.mp hq
    exact .inr ⟨[], c, hrest, hok⟩
  | many ok =>
    obtain ⟨u, rest, hrest, hok, rfl⟩ := mem_ends_many.mp hq
    obtain rfl | ⟨v, c, rfl⟩ := List.eq_nil_or_concat' u
    · exact .inl (by simpa using hrest.symm)
    · exact .inr ⟨v, c, by simpa using hrest, hok c (by simp)⟩
  | seq r s ihr ihs =>
    obtain ⟨m, hm, hq⟩ := mem_ends_seq.mp hq
    obtain hsame | ⟨v, c, hrest, hc⟩ := ihs hq
    · have hn : s.nullable = true := by
        by_contra hn
        have hlt := rest_lt (by simpa using hn) hq
        rw [hsame] at hlt
        exact Nat.lt_irrefl _ hlt
      obtain hm | ⟨u, c, hrest, hc⟩ := ihr hm
      · exact .inl (hsame.trans hm)
      · exact .inr ⟨u, c, hsame ▸ hrest, by simp [last, hn, hc]⟩
    · obtain ⟨u, hu⟩ := rest_suffix hm
      exact .inr ⟨u ++ v, c, by rw [← hu, hrest, List.append_assoc], by simp [last, hc]⟩
  | alt r s ihr ihs =>
    obtain hq | hq := mem_ends_alt.mp hq
    · exact (ihr hq).imp_right fun ⟨u, c, hrest, hc⟩ => ⟨u, c, hrest, by simp [last, hc]⟩
    · exact (ihs hq).imp_right fun ⟨u, c, hrest, hc⟩ => ⟨u, c, hrest, by simp [last, hc]⟩
  | group r ih =>
    obtain ⟨m, hm, rfl⟩ := mem_ends_group.mp hq
    show m.rest = p.rest ∨ ∃ u c, p.rest = u ++ c :: m.rest ∧ _
    exact ih hm
  | check ok =>
    obtain ⟨-, rfl⟩ := mem_ends_check.mp hq
    exact .inl rfl

def Meets (r : Regex) (p : Cursor) : Prop := ∃ q, q ∈ r.ends p

theorem Meets.seq {r s : Regex} {p m : Cursor} (hm : m ∈ r.ends p) (hs : s.Meets m) : (Regex.seq r s).Meets p := by
  obtain ⟨q, hq⟩ := hs
  exact ⟨q, mem_ends_seq.mpr ⟨m, hm, hq⟩⟩

theorem Meets.assoc {r s t : Regex} {p : Cursor} (h : (Regex.seq r (Regex.seq s t)).Meets p) :
    (Regex.seq (Regex.seq r s) t).Meets p := by
  obtain ⟨q, hq⟩ := h
  obtain ⟨m, hm, hq⟩ := mem_ends_seq.mp hq
  obtain ⟨n, hn, hq⟩ := mem_ends_seq.mp hq
  exact ⟨q, mem_ends_seq.mpr ⟨n, mem_ends_seq.mpr ⟨m, hm, hn⟩, hq⟩⟩

theorem Meets.skip {r : Regex} {p : Cursor} (h : r.Meets p) : (Regex.seq eps r).Meets p :=
  .seq (mem_ends_eps.mpr rfl) h

theorem Meets.cat {rs rest : List Regex} {p : Cursor} (h : (Regex.cat (rs ++ rest)).Meets p) :
    (Regex.seq (Regex.cat rs) (Regex.cat rest)).Meets p := by
  induction rs generalizing p with
  | nil => exact h.skip
  | cons r rs ih =>
    obtain ⟨q, hq⟩ := h
    obtain ⟨m, hm, hq⟩ := mem_ends_cat_cons.mp hq
    exact .assoc (.seq hm (ih ⟨q, hq⟩))

theorem Meets.any {r s : Regex} {rs : List Regex} {p : Cursor} (hr : r ∈ rs) (h : (Regex.seq r s).Meets p) :
    (Regex.seq (Regex.any rs) s).Meets p := by
  obtain ⟨q, hq⟩ := h
  obtain ⟨m, hm, hq⟩ := mem_ends_seq.mp hq
  exact ⟨q, mem_ends_seq.mpr ⟨m, mem_ends_any.mpr ⟨r, hr, hm⟩, hq⟩⟩

theorem meets_eps (p : Cursor) : eps.Meets p := ⟨p, mem_ends_eps.mpr rfl⟩

theorem matchAt_isSome {r : Regex} {prev : Option Char} {text : List Char} :
    (r.matchAt prev text).isSome ↔ r.Meets { prev := prev, rest := text } := by
  unfold Meets
  cases h : r.ends { prev := prev, rest := text } <;> simp [matchAt, h]

-- What a match read is a prefix of the text; it is not empty where the expression is not nullable,
-- and it begins with a first character of the expression.
theorem matchAt_spec {r : Regex} (hr : r.nullable = false) {prev : Option Char} {text : List Char} {found : Found}
    (h : r.matchAt prev text = some found) :
    0 < found.text.length ∧ found.text.length ≤ text.length ∧ ∃ c rest, text = c :: rest ∧ r.first c := by
  obtain ⟨q, hq, rfl⟩ := Option.map_eq_some_iff.mp h
  have hmem := List.mem_of_head? hq
  have hlt : q.rest.length < text.length := rest_lt hr hmem
  exact ⟨by simp only [List.length_take]; omega, by simp, cons_of_mem hr hmem⟩

theorem matchAt_last {r : Regex} (hr : r.nullable = false) {prev : Option Char} {text : List Char} {found : Found}
    (h : r.matchAt prev text = some found) : ∃ u c rest, text = u ++ c :: rest ∧ found.text = u ++ [c] ∧ r.last c := by
  obtain ⟨q, hq, rfl⟩ := Option.map_eq_some_iff.mp h
  have hmem := List.mem_of_head? hq
  obtain hsame | ⟨u, c, hrest, hc⟩ := last_of_mem hmem
  · have hlt := rest_lt hr hmem
    rw [hsame] at hlt
    exact absurd hlt (Nat.lt_irrefl _)
  · refine ⟨u, c, q.rest, hrest, ?_, hc⟩
    obtain rfl : text = u ++ c :: q.rest := hrest
    have hlen : (u ++ c :: q.rest).length - q.rest.length = (u ++ [c]).length := by
      simp only [List.length_append, List.length_cons, List.length_nil]
      omega
    simp only [hlen]
    rw [show u ++ c :: q.rest = (u ++ [c]) ++ q.rest by simp, List.take_left]

theorem matchAt_eq_none {r : Regex} (hr : r.nullable = false) {prev : Option Char} {c : Char} {rest : List Char}
    (hc : r.first c = false) : r.matchAt prev (c :: rest) = none := by
  by_contra hne
  obtain ⟨found, hfound⟩ := Option.ne_none_iff_exists'.mp hne
  obtain ⟨-, -, d, _, hcons, hd⟩ := matchAt_spec hr hfound
  obtain ⟨rfl, -⟩ := List.cons.inj hcons
  simp [hc] at hd

section Run

variable {ok : Char → Bool} {r s t : Regex} {prev : Option Char} {c : Char} {rest : List Char}
  {groups : List (List Char)} {p : Cursor}

theorem ends_eps_seq : (seq eps r).ends p = r.ends p := by
  rw [ends_seq, ends_eps, List.flatMap_singleton]

theorem ends_seq_assoc : (seq (seq r s) t).ends p = (seq r (seq s t)).ends p := by
  rw [ends_seq, ends_seq, List.flatMap_assoc]
  rfl

theorem ends_set_seq : (seq (set ok) r).ends { prev := prev, rest := c :: rest, groups := groups } =
    if ok c then r.ends { prev := some c, rest := rest, groups := groups } else [] := by
  rw [ends_seq, ends_set_cons]
  split <;> simp

theorem ends_group_seq : (seq (group r) s).ends p = (r.ends p).flatMap fun q =>
    s.ends { q with groups := q.groups ++ [p.rest.take (p.rest.length - q.rest.length)] } := by
  rw [ends_seq, ends_group, List.flatMap_map]

theorem ends_many_seq (hc : ok c = true) :
    (seq (many ok) r).ends { prev := prev, rest := c :: rest, groups := groups } =
      (seq (many ok) r).ends { prev := some c, rest := rest, groups := groups } ++
        r.ends { prev := prev, rest := c :: rest, groups := groups } := by
  simp only [ends_seq, ends_many, runs_cons, hc, if_true, List.flatMap_append, List.flatMap_singleton]

theorem ends_many_seq_stop (hc : ok c = false) :
    (seq (many ok) r).ends { prev := prev, rest := c :: rest, groups := groups } =
      r.ends { prev := prev, rest := c :: rest, groups := groups } := by
  simp [ends_seq, ends_many, runs_cons, hc]

end Run

section Search

variable {r : Regex}

theorem searchFrom_cons (start : Nat) (prev : Option Char) (c : Char) (rest : List Char) :
    r.searchFrom start prev (c :: rest) =
      match r.matchAt prev (c :: rest) with
      | some found => some (start, found)
      | none => r.searchFrom (start + 1) (some c) rest := rfl

theorem searchFrom_eq_none {start : Nat} {prev : Option Char} {text : List Char} :
    r.searchFrom start prev text = none ↔
      ∀ u v, text = u ++ v → r.matchAt (u.getLast?.or prev) v = none := by
  induction text generalizing start prev with
  | nil =>
    simp only [searchFrom, Option.map_eq_none_iff]
    constructor
    · intro h u v huv
      obtain ⟨rfl, rfl⟩ := List.append_eq_nil_iff.mp huv.symm
      exact h
    · intro h
      exact h [] [] rfl
  | cons c text ih =>
    simp only [searchFrom_cons]
    constructor
    · intro h u v huv
      split at h
      · cases h
      next hnone =>
        cases u with
        | nil =>
          obtain rfl : c :: text = v := huv
          exact hnone
        | cons d u =>
          obtain ⟨rfl, rfl⟩ := List.cons.inj huv
          rw [getLast?_cons_or]
          exact ih.mp h u v rfl
    · intro h
      have hhere := h [] (c :: text) rfl
      rw [List.getLast?_nil, Option.none_or] at hhere
      rw [hhere]
      refine ih.mpr fun u v huv => ?_
      have hlater := h (c :: u) v (by rw [huv]; rfl)
      rwa [getLast?_cons_or] at hlater

theorem searchFrom_eq_some {start index : Nat} {prev : Option Char} {text : List Char} {found : Found}
    (h : r.searchFrom start prev text = some (index, found)) :
    ∃ u v, text = u ++ v ∧ index = start + u.length ∧ r.matchAt (u.getLast?.or prev) v = some found ∧
      ∀ a b, text = a ++ b → a.length < u.length → r.matchAt (a.getLast?.or prev) b = none := by
  induction text generalizing start prev with
  | nil =>
    obtain ⟨hit, hhit, heq⟩ := Option.map_eq_some_iff.mp h
    obtain ⟨rfl, rfl⟩ := Prod.mk.inj heq
    exact ⟨[], [], rfl, rfl, hhit, fun a b _ ha => absurd ha (Nat.not_lt_zero _)⟩
  | cons c text ih =>
    simp only [searchFrom_cons] at h
    split at h
    next hit hhit =>
      obtain ⟨rfl, rfl⟩ := Prod.mk.inj (Option.some.inj h)
      exact ⟨[], c :: text, rfl, rfl, hhit, fun a b _ ha => absurd ha (Nat.not_lt_zero _)⟩
    next hnone =>
      obtain ⟨u, v, rfl, rfl, hmatch, hfirst⟩ := ih h
      refine ⟨c :: u, v, rfl, by simp only [List.length_cons]; omega, by rwa [getLast?_cons_or], ?_⟩
      intro a b hab ha
      cases a with
      | nil =>
        obtain rfl : c :: (u ++ v) = b := hab
        exact hnone
      | cons d a =>
        obtain ⟨rfl, htail⟩ := List.cons.inj hab
        rw [getLast?_cons_or]
        exact hfirst a b htail (Nat.lt_of_succ_lt_succ ha)

theorem searchFrom_isSome {start : Nat} {prev : Option Char} {u v : List Char}
    (h : (r.matchAt (u.getLast?.or prev) v).isSome) : (r.searchFrom start prev (u ++ v)).isSome := by
  by_contra hnone
  have hmiss := searchFrom_eq_none.mp (Option.not_isSome_iff_eq_none.mp hnone) u v rfl
  simp [hmiss] at h

theorem findStarts_cons (fuel : Nat) {start index : Nat} {prev : Option Char} {text u v : List Char} {found : Found}
    (htext : text = u ++ v) (hindex : index = start + u.length) (hlen : found.text.length ≤ v.length)
    (h : r.searchFrom start prev text = some (index, found)) :
    ∃ prev', r.findStarts (fuel + 1) start prev text =
      index :: r.findStarts fuel (index + found.text.length) prev' (v.drop found.text.length) := by
  subst htext hindex
  refine ⟨((u ++ v).take (u.length + found.text.length)).getLast?.or prev, ?_⟩
  have hread : ((u ++ v).take (u.length + found.text.length)).length = u.length + found.text.length := by
    rw [List.length_take, List.length_append]
    omega
  simp only [findStarts, h, Nat.add_sub_cancel_left, hread, List.drop_length_add_append, Nat.add_assoc]

section Last

variable {last : List Char} (hlast : ∀ prev, (r.matchAt prev last).isSome)
  (hlater : ∀ prev u v, last = u ++ v → u ≠ [] → r.matchAt prev v = none)

include hlater in
theorem findStarts_behind {fuel start : Nat} {prev : Option Char} {n : Nat} (hn : 0 < n) (hle : n ≤ last.length) :
    r.findStarts fuel start prev (last.drop n) = [] := by
  cases fuel with
  | zero => rfl
  | succ fuel =>
    rw [findStarts, searchFrom_eq_none.mpr]
    intro u v huv
    refine hlater _ (last.take n ++ u) v ?_ ?_
    · rw [List.append_assoc, ← huv, List.take_append_drop]
    · intro hnil
      have hempty := (List.append_eq_nil_iff.mp hnil).1
      rw [← List.length_eq_zero_iff, List.length_take] at hempty
      omega

include hlast hlater in
-- The last match of a text that ends in `last`: one begins there, none later, and none before it
-- reaches into it.
theorem findStarts_getLast (hread : r.nullable = false) {fuel start : Nat} {prev : Option Char} {before : List Char}
    (hfuel : before.length < fuel)
    (hbefore : ∀ prev u v found, before = u ++ v → v ≠ [] → r.matchAt prev (v ++ last) = some found →
      found.text.length ≤ v.length) :
    (r.findStarts fuel start prev (before ++ last)).getLast? = some (start + before.length) := by
  induction fuel generalizing start prev before with
  | zero => exact absurd hfuel (Nat.not_lt_zero _)
  | succ fuel ih =>
    obtain ⟨⟨index, found⟩, hfirst⟩ : ∃ hit, r.searchFrom start prev (before ++ last) = some hit :=
      Option.isSome_iff_exists.mp (searchFrom_isSome (hlast (before.getLast?.or prev)))
    obtain ⟨u, v, huv, hindex, hmatch, -⟩ := searchFrom_eq_some hfirst
    obtain ⟨hpos, hle, -⟩ := matchAt_spec hread hmatch
    obtain ⟨prev', hnext⟩ := findStarts_cons fuel huv hindex hle hfirst
    rw [hnext]
    by_cases hu : u.length < before.length
    · -- a match before the last one ends before it
      obtain ⟨w, rfl, rfl⟩ : ∃ w, before = u ++ w ∧ v = w ++ last := by
        obtain ⟨w, rfl, rfl⟩ | ⟨w, rfl, rfl⟩ := List.append_eq_append_iff.mp huv
        · rw [List.length_append] at hu
          omega
        · exact ⟨w, rfl, rfl⟩
      have hw : w ≠ [] := by rintro rfl; simp at hu
      have hinside := hbefore _ u w found rfl hw hmatch
      have htail : (w.drop found.text.length).length < fuel := by
        simp only [List.length_append, List.length_drop] at hfuel ⊢
        omega
      have hrest : (r.findStarts fuel (index + found.text.length) prev' (w.drop found.text.length ++ last)).getLast? =
          some (index + found.text.length + (w.drop found.text.length).length) :=
        ih htail fun prev a b hit hab hb hhit => hbefore prev (u ++ w.take found.text.length ++ a) b hit
          (by rw [List.append_assoc, List.append_assoc, ← hab, List.take_append_drop]) hb hhit
      rw [List.drop_append_of_le_length hinside, List.getLast?_cons, hrest, Option.getD_some, hindex]
      congr 1
      simp only [List.length_append, List.length_drop]
      omega
    · -- the last match: nothing is found behind it
      obtain ⟨w, rfl, rfl⟩ : ∃ w, u = before ++ w ∧ last = w ++ v := by
        obtain ⟨w, rfl, rfl⟩ | ⟨w, rfl, rfl⟩ := List.append_eq_append_iff.mp huv
        · exact ⟨w, rfl, rfl⟩
        · have hw : w = [] := by simpa using hu
          exact ⟨[], by simp [hw], by simp [hw]⟩
      obtain rfl : w = [] := by
        by_contra hw
        simp [hlater _ w v rfl hw] at hmatch
      simp only [List.nil_append] at hlater
      rw [findStarts_behind hlater hpos hle, hindex, List.append_nil]
      rfl

end Last

end Search

section Replace

variable {r : Regex} {f : Found → List Char}

theorem replaceFrom_cons (prev : Option Char) (c : Char) (rest : List Char) :
    r.replaceFrom f 0 prev (c :: rest) =
      match r.matchAt prev (c :: rest) with
      | some found => f found ++ r.replaceFrom f (found.text.length - 1) (some c) rest
      | none => c :: r.replaceFrom f 0 (some c) rest := rfl

theorem replaceFrom_skip (u v : List Char) (prev : Option Char) :
    r.replaceFrom f u.length prev (u ++ v) = r.replaceFrom f 0 (u.getLast?.or prev) v := by
  induction u generalizing prev with
  | nil => rfl
  | cons c u ih =>
    rw [getLast?_cons_or, ← ih (some c)]
    rfl

theorem replaceFrom_hit {u v : List Char} {prev : Option Char} {found : Found} (hu : u ≠ []) (hfound : found.text = u)
    (h : r.matchAt prev (u ++ v) = some found) :
    r.replaceFrom f 0 prev (u ++ v) = f found ++ r.replaceFrom f 0 (u.getLast?.or prev) v := by
  cases u with
  | nil => exact absurd rfl hu
  | cons c u =>
    rw [List.cons_append] at h ⊢
    simp only [replaceFrom_cons, h]
    rw [hfound, List.length_cons, Nat.add_sub_cancel, replaceFrom_skip, getLast?_cons_or]

theorem replaceFrom_none {prev : Option Char} {text : List Char}
    (h : ∀ u v, text = u ++ v → r.matchAt (u.getLast?.or prev) v = none) : r.replaceFrom f 0 prev text = text := by
  induction text generalizing prev with
  | nil => rfl
  | cons c text ih =>
    have hhere : r.matchAt prev (c :: text) = none := h [] (c :: text) rfl
    simp only [replaceFrom_cons, hhere]
    congr 1
    refine ih fun u v huv => ?_
    rw [← getLast?_cons_or c u prev]
    exact h (c :: u) v (by rw [huv]; rfl)

theorem replaceFrom_append (hr : r.nullable = false) {g t : List Char} {skip : Nat} {prev : Option Char}
    (hskip : skip ≤ g.length)
    (hcross : ∀ prev u v, g = u ++ v → v ≠ [] → r.matchAt prev (v ++ t) = r.matchAt prev v) :
    r.replaceFrom f skip prev (g ++ t) = r.replaceFrom f skip prev g ++ r.replaceFrom f 0 (g.getLast?.or prev) t := by
  induction g generalizing skip prev with
  | nil =>
    obtain rfl : skip = 0 := Nat.le_zero.mp hskip
    rfl
  | cons c g ih =>
    have hrest : ∀ prev u v, g = u ++ v → v ≠ [] → r.matchAt prev (v ++ t) = r.matchAt prev v :=
      fun prev u v huv => hcross prev (c :: u) v (by rw [huv]; rfl)
    rw [getLast?_cons_or]
    cases skip with
    | succ skip => exact ih (Nat.le_of_succ_le_succ hskip) hrest
    | zero =>
      have hhere := hcross prev [] (c :: g) rfl (by simp)
      rw [List.cons_append] at hhere ⊢
      simp only [replaceFrom_cons, hhere]
      cases hmatch : r.matchAt prev (c :: g) with
      | none => simp only [ih (Nat.zero_le _) hrest, List.cons_append]
      | some found =>
        have hle := (matchAt_spec hr hmatch).2.1
        rw [List.length_cons] at hle
        simp only [ih (show found.text.length - 1 ≤ g.length by omega) hrest, List.append_assoc]

end Replace

end Regex

end Lib
