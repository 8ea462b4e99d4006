import Mathlib.Data.List.Infix
import Mathlib.Data.List.Pairwise
import Mathlib.Algebra.Order.Ring.Rat
import Mathlib.Tactic.Common
import GaHub.Lib.Pieces
import GaHub.Lib.Text

namespace GaHub.WeChat.Relay

open Lib

abbrev Text := List Char

def NUL : Char := Char.ofNat 0

def TICK : Char := Char.ofNat 96

-- The decimal digits of `\d` and `int`, and what `_clean` has left of a text before it strips it.
structure Env where
  digit : Char → Option Nat
  ascii : ∀ c : Char, c.toNat < 128 → digit c = if c.isDigit then some (c.toNat - 48) else none
  cleaned : Text → Text

section Patterns

variable (env : Env)

def isDigit (c : Char) : Bool := (env.digit c).isSome

def ticks (s : Text) : Nat := (s.takeWhile (· = TICK)).length

-- Where four backticks stand next.
def closing : Text → Option Nat
  | [] => none
  | c :: s => if 4 ≤ ticks (c :: s) then some 0 else (closing s).map (· + 1)

-- Four backticks or more, and what is between them and the next ones. Where there are none, a run of eight or more is
-- taken back to close itself.
def fence (s : Text) : Option (Unit × Nat) :=
  let n := ticks s
  if n < 4 then none
  else match closing (s.drop n) with
    | some i => some ((), n + i + ticks (s.drop (n + i)))
    | none => if n < 8 then none else some ((), n)

def word (w s : Text) : Option Text := if w <+: s then some (s.drop w.length) else none

def TURN : Text := "LLM Running (Turn ".toList
def DOTS : Text := ") ...".toList

-- `\**LLM Running \(Turn \d+\) \.\.\.\**`
def marker (s : Text) : Option (Unit × Nat) :=
  match word TURN (s.dropWhile (· = '*')) with
  | none => none
  | some rest =>
    if (rest.takeWhile (isDigit env)).isEmpty then none
    else match word DOTS (rest.dropWhile (isDigit env)) with
      | none => none
      | some rest => some ((), s.length - (rest.dropWhile (· = '*')).length)

def PH : Text := NUL :: "PH".toList

-- `\x00PH(\d+)\x00`
def placeholder (s : Text) : Option (Text × Nat) :=
  match word PH s with
  | none => none
  | some rest =>
    let number := rest.takeWhile (isDigit env)
    if number.isEmpty then none
    else if (rest.dropWhile (isDigit env)).head? = some NUL then some (number, number.length + 4) else none

def int (number : Text) : Nat := number.foldl (fun n c => 10 * n + (env.digit c).getD 0) 0

end Patterns

section TurnParts

variable (env : Env)

def stored (cut : List (Piece Char Unit)) : List Text :=
  cut.filterMap fun
    | .found _ quoted => some quoted
    | .other _ => none

def maskFrom : Nat → List (Piece Char Unit) → Text
  | _, [] => []
  | n, .found _ _ :: cut => PH ++ (Nat.toDigits 10 n ++ NUL :: maskFrom (n + 1) cut)
  | n, .other c :: cut => c :: maskFrom n cut

-- `_ph[int(m.group(1))]` for each placeholder, which raises where there is no such quote.
def fill (ph : List Text) : List (Piece Char Text) → Option Text
  | [] => some []
  | .found number _ :: cut =>
    match ph[int env number]?, fill ph cut with
    | some quoted, some rest => some (quoted ++ rest)
    | _, _ => none
  | .other c :: cut => (fill ph cut).map (c :: ·)

def restore (ph : List Text) (part : Text) : Option Text := fill env ph (pieces (placeholder env) part)

def restoreTurns (ph : List Text) : List (Text × Text) → Option (List Text)
  | [] => some []
  | (mark, text) :: parts =>
    match restore env ph mark, restore env ph text, restoreTurns ph parts with
    | some mark, some text, some turns => some ((mark ++ text) :: turns)
    | _, _, _ => none

def blank (s : Text) : Bool := s.all isSpace

def partsOf (t head : Text) (turns : List Text) : List Text × Text :=
  if turns.length < 2 then ([], t)
  else ((if blank head then [] else [head]) ++ turns.dropLast, turns.getLast?.getD [])

def turnParts (t : Text) : Option (List Text × Text) :=
  let cut := pieces fence t
  let parts := splitBy (fun _ => true) (pieces (marker env) (maskFrom 0 cut))
  match restore env (stored cut) parts.1, restoreTurns env (stored cut) parts.2 with
  | some head, some turns => some (partsOf t head turns)
  | _, _ => none

end TurnParts

section Loop

variable (env : Env)

def trim (s : Text) : Text := ((s.dropWhile isSpace).reverse.dropWhile isSpace).reverse

def clean (t : Text) : Text := if trim (env.cleaned t) = [] then "...".toList else trim (env.cleaned t)

def joined (segments : List Text) : Text := List.intercalate ['\n', '\n'] segments

-- The clock before and after a send, and whether it fails.
structure Moment where
  now : ℚ
  later : ℚ
  fails : Bool

-- `chosen` are the segments of the sends that went through, and `outbox` is what they sent.
structure State where
  sent : Nat := 0
  mi : Nat := 0
  lastSend : ℚ := 0
  chosen : List Text := []
  outbox : List Text := []

def onNext (s : State) (raw : Text) (m : Moment) : Option State :=
  match turnParts env raw with
  | none => none
  | some (done, _) =>
    if done.length ≤ s.sent then some s
    else
      let merged := clean env (joined (done.drop s.sent))
      if s.mi < 9 && !blank merged then
        if s.mi ≠ 0 && decide (m.now - s.lastSend < 6 * (s.mi : ℚ)) then some s
        else if m.fails then some s
        else some ⟨done.length, s.mi + 1, m.later, s.chosen ++ done.drop s.sent, s.outbox ++ [merged.take 2000]⟩
      else some s

def DONE : Text := "\n\n[任务已完成]".toList

def onDone (s : State) (result : Text) (fails : Bool) : Option State :=
  match turnParts env result with
  | none => none
  | some (done, unfinished) =>
    let rest := clean env (joined (done.drop s.sent ++ [unfinished] ++ [DONE]))
    some { s with
      chosen := s.chosen ++ (done.drop s.sent ++ [unfinished])
      outbox := if fails then s.outbox else s.outbox ++ [rest.drop (rest.length - 2000)] }

def run (s : State) : List (Text × Moment) → Option State
  | [] => some s
  | (raw, m) :: frames => (onNext env s raw m).bind fun s => run s frames

def relay (frames : List (Text × Moment)) (result : Text) (fails : Bool) : Option State :=
  (run env {} frames).bind fun s => onDone env s result fails

end Loop

section Statement

variable (env : Env)

-- The segments sent are those of the done text, each once and in order.
def Once (frames : List (Text × Moment)) (result : Text) (fails : Bool) : Prop :=
  ∃ s done unfinished, relay env frames result fails = some s ∧ turnParts env result = some (done, unfinished) ∧
    s.chosen = done ++ [unfinished]

inductive Kind where
  | quote
  | mark
  deriving DecidableEq

def both (s : Text) : Option (Kind × Nat) :=
  match fence s with
  | some (_, n) => some (.quote, n)
  | none => (marker env s).map fun found => (.mark, found.2)

def isMark (kind : Kind) : Bool := kind = .mark

def isQuote (kind : Kind) : Bool := kind = .quote

def marks (t : Text) : List (Nat × Nat) := spans isMark 0 (pieces (both env) t)

def quotes (t : Text) : List (Nat × Nat) := spans isQuote 0 (pieces (both env) t)

-- A marker at which a frame is split is within a quote of the done text. A frame is not split at a single one.
def Misread (t result : Text) : Prop :=
  2 ≤ (marks env t).length ∧ ∃ m ∈ marks env t, ∃ q ∈ quotes env result, q.1 < m.1 ∧ m.1 < q.2

def Plain (t : Text) : Prop := ¬PH <:+: t

end Statement

section Scan

variable {s t w u v : Text} {n i : Nat} {c : Char}

theorem ticks_le (s : Text) : ticks s ≤ s.length := (List.takeWhile_sublist _).length_le

theorem ticks_cons (c : Char) (s : Text) : ticks (c :: s) = if c = TICK then ticks s + 1 else 0 := by
  simp only [ticks, List.takeWhile_cons, decide_eq_true_eq]
  split <;> rfl

theorem ticks_append (s w : Text) :
    ticks (s ++ w) = if ticks s = s.length then s.length + ticks w else ticks s := by
  induction s with
  | nil => simp [ticks]
  | cons c s ih =>
      rw [List.cons_append, ticks_cons, ticks_cons, ih, List.length_cons]
      split
      · split <;> split <;> omega
      · rw [if_neg (by omega)]

theorem ticks_append_le (s w : Text) : ticks s ≤ ticks (s ++ w) := by
  rw [ticks_append]
  split <;> omega

theorem ticks_append_eq (h : ticks s < s.length) : ticks (s ++ w) = ticks s := by
  rw [ticks_append, if_neg (Nat.ne_of_lt h)]

theorem closing_spec (h : closing s = some i) : 4 ≤ ticks (s.drop i) := by
  induction s generalizing i with
  | nil => cases h
  | cons c s ih =>
      simp only [closing] at h
      split at h
      · cases h
        assumption
      · obtain ⟨j, hj, rfl⟩ := Option.map_eq_some_iff.mp h
        exact ih hj

theorem closing_append (s w : Text) :
    closing (s ++ w) = closing s ∨ ∃ i, s.length < i + 4 ∧ closing (s ++ w) = some i := by
  induction s with
  | nil =>
      cases h : closing w with
      | none => exact .inl h
      | some i => exact .inr ⟨i, Nat.lt_add_left i (by decide), h⟩
  | cons c s ih =>
      rw [List.cons_append]
      simp only [closing]
      by_cases hshort : ticks (c :: s) < (c :: s).length
      · rw [← List.cons_append, ticks_append_eq hshort]
        split
        · exact .inl rfl
        · rcases ih with heq | ⟨i, hi, heq⟩
          · exact .inl (by rw [heq])
          · exact .inr ⟨i + 1, by rw [List.length_cons]; omega, by rw [heq]; rfl⟩
      · have hall : ticks (c :: s) = (c :: s).length := Nat.le_antisymm (ticks_le _) (Nat.le_of_not_lt hshort)
        have hgrow := ticks_append_le (c :: s) w
        rw [List.cons_append] at hgrow
        by_cases hhere : 4 ≤ ticks (c :: s)
        · rw [if_pos hhere, if_pos (by omega)]
          exact .inl rfl
        · by_cases hthere : 4 ≤ ticks (c :: (s ++ w))
          · rw [if_pos hthere]
            exact .inr ⟨0, by omega, rfl⟩
          · rw [if_neg hhere, if_neg hthere]
            rcases ih with heq | ⟨i, hi, heq⟩
            · exact .inl (by rw [heq])
            · exact .inr ⟨i + 1, by rw [List.length_cons]; omega, by rw [heq]; rfl⟩

theorem fence_tick {found : Unit × Nat} (h : fence s = some found) : 4 ≤ ticks s := by
  by_contra hlt
  simp only [fence, if_pos (Nat.lt_of_not_le hlt)] at h
  cases h

theorem fence_eq_none (h : ticks s < 4) : fence s = none := by
  simp only [fence, if_pos h]

theorem fence_closed (hn : 4 ≤ ticks s) (h : closing (s.drop (ticks s)) = some i) :
    fence s = some ((), ticks s + i + ticks (s.drop (ticks s + i))) := by
  simp only [fence, if_neg (Nat.not_lt_of_le hn), h]

theorem fence_unclosed (hn : 4 ≤ ticks s) (h : closing (s.drop (ticks s)) = none) :
    fence s = if ticks s < 8 then none else some ((), ticks s) := by
  simp only [fence, if_neg (Nat.not_lt_of_le hn), h]

theorem fence_reads : Reads fence := by
  intro s tag n h
  have hn := fence_tick h
  cases hclose : closing (s.drop (ticks s)) with
  | none =>
      rw [fence_unclosed hn hclose] at h
      split at h
      · cases h
      · cases h
        exact ⟨by omega, ticks_le s⟩
  | some i =>
      rw [fence_closed hn hclose] at h
      cases h
      have hle := ticks_le (s.drop (ticks s + i))
      have hfour := closing_spec hclose
      rw [List.drop_drop] at hfour
      rw [List.length_drop] at hle
      omega

theorem fence_steady : Steady fence := by
  intro t w ht
  by_cases hall : ticks t = t.length
  · -- the text is one run, which what is behind it may go on with
    have hlen : ticks (t ++ w) = t.length + ticks w := by rw [ticks_append, if_pos hall]
    cases h : fence (t ++ w) with
    | some found =>
        obtain ⟨tag, n⟩ := found
        refine .inr ⟨tag, n, ?_, rfl⟩
        have hn := fence_tick h
        cases hclose : closing ((t ++ w).drop (ticks (t ++ w))) with
        | none =>
            rw [fence_unclosed hn hclose] at h
            split at h
            · cases h
            · cases h
              omega
        | some i =>
            rw [fence_closed hn hclose] at h
            cases h
            omega
    | none =>
        refine .inl (Eq.symm ?_)
        by_cases hfour : ticks t < 4
        · exact fence_eq_none hfour
        · have hclose : closing (t.drop (ticks t)) = none := by rw [hall, List.drop_length]; rfl
          rw [fence_unclosed (Nat.le_of_not_lt hfour) hclose, if_pos]
          by_contra height
          cases hclose' : closing ((t ++ w).drop (ticks (t ++ w))) with
          | none =>
              rw [fence_unclosed (by omega) hclose', if_neg (by omega)] at h
              cases h
          | some i =>
              rw [fence_closed (by omega) hclose'] at h
              cases h
  · have hshort : ticks t < t.length := Nat.lt_of_le_of_ne (ticks_le t) hall
    have hsame : ticks (t ++ w) = ticks t := ticks_append_eq hshort
    by_cases hfour : ticks t < 4
    · exact .inl (by rw [fence_eq_none hfour, fence_eq_none (hsame ▸ hfour)])
    have hfour := Nat.le_of_not_lt hfour
    have hdrop : (t ++ w).drop (ticks (t ++ w)) = t.drop (ticks t) ++ w := by
      rw [hsame, List.drop_append_of_le_length (Nat.le_of_lt hshort)]
    rcases closing_append (t.drop (ticks t)) w with heq | ⟨i, hi, heq⟩
    · cases hclose : closing (t.drop (ticks t)) with
      | none =>
          rw [fence_unclosed hfour hclose, fence_unclosed (hsame ▸ hfour) (by rw [hdrop, heq, hclose]), hsame]
          exact .inl rfl
      | some i =>
          rw [fence_closed hfour hclose, fence_closed (hsame ▸ hfour) (by rw [hdrop, heq, hclose]), hsame]
          have hrun := closing_spec hclose
          rw [List.drop_drop] at hrun
          have hle := ticks_le (t.drop (ticks t + i))
          rw [List.length_drop] at hle
          rw [List.drop_append_of_le_length (by omega)]
          by_cases hend : ticks (t.drop (ticks t + i)) < (t.drop (ticks t + i)).length
          · rw [ticks_append_eq hend]
            exact .inl rfl
          · have hgrow := ticks_append_le (t.drop (ticks t + i)) w
            rw [List.length_drop] at hend
            exact .inr ⟨(), _, by omega, rfl⟩
    · have hrun := closing_spec heq
      rw [← hdrop, List.drop_drop, hsame] at hrun
      refine .inr ⟨(), _, ?_, fence_closed (hsame ▸ hfour) (by rw [hdrop, heq])⟩
      rw [List.length_drop] at hi
      rw [hsame]
      omega

end Scan

section Markers

variable {env : Env} {s t w u v : Text} {n : Nat} {c : Char}

theorem isDigit_ascii (env : Env) {c : Char} (h : c.toNat < 128) : isDigit env c = c.isDigit := by
  rw [isDigit, env.ascii c h]
  cases c.isDigit <;> rfl

theorem span_append {p : Char → Bool} (hu : ∀ c ∈ u, p c) (hv : ∀ c, v.head? = some c → p c = false) :
    (u ++ v).takeWhile p = u ∧ (u ++ v).dropWhile p = v := by
  rw [List.takeWhile_append_of_pos hu, List.dropWhile_append_of_pos hu]
  cases v with
  | nil => exact ⟨List.append_nil u, rfl⟩
  | cons c v =>
      have hc := hv c rfl
      rw [List.takeWhile_cons, List.dropWhile_cons, if_neg (by simp [hc]), if_neg (by simp [hc])]
      exact ⟨List.append_nil u, rfl⟩

theorem span_exists (p : Char → Bool) (s : Text) : ∃ u v, s = u ++ v ∧ s.takeWhile p = u ∧ s.dropWhile p = v ∧
    (∀ c ∈ u, p c) ∧ ∀ c, v.head? = some c → p c = false := by
  refine ⟨_, _, List.takeWhile_append_dropWhile.symm, rfl, rfl, List.all_eq_true.mp List.all_takeWhile, fun c hc => ?_⟩
  have h := List.head?_dropWhile_not p s
  rw [hc] at h
  simpa using h

theorem word_eq_some {w rest : Text} : word w s = some rest ↔ s = w ++ rest := by
  simp only [word]
  constructor
  · intro h
    split at h
    · rename_i hfront
      cases h
      exact List.prefix_append_drop hfront
    · cases h
  · rintro rfl
    rw [if_pos (List.prefix_append w rest), List.drop_left]

def IsMark (env : Env) (u : Text) : Prop :=
  ∃ a ds b, u = a ++ (TURN ++ (ds ++ (DOTS ++ b))) ∧ (∀ c ∈ a, decide (c = '*') = true) ∧ ds ≠ [] ∧
    (∀ c ∈ ds, isDigit env c) ∧ ∀ c ∈ b, decide (c = '*') = true

theorem marker_iff : marker env s = some ((), n) ↔
    ∃ u r, s = u ++ r ∧ IsMark env u ∧ (∀ c, r.head? = some c → decide (c = '*') = false) ∧ n = u.length := by
  constructor
  · intro h
    obtain ⟨a, s', rfl, -, hs', ha, -⟩ := span_exists (· = '*') s
    simp only [marker, hs'] at h
    split at h
    · cases h
    · rename_i rest hturn
      obtain rfl := word_eq_some.mp hturn
      obtain ⟨ds, rest', rfl, hds, hrest', hdigits, -⟩ := span_exists (isDigit env) rest
      rw [hds, hrest'] at h
      split at h
      · cases h
      · rename_i hne
        split at h
        · cases h
        · rename_i tail hdots
          obtain rfl := word_eq_some.mp hdots
          obtain ⟨b, r, rfl, -, hr, hb, hhead⟩ := span_exists (· = '*') tail
          rw [hr] at h
          cases h
          refine ⟨a ++ (TURN ++ (ds ++ (DOTS ++ b))), r, by simp only [List.append_assoc],
            ⟨a, ds, b, rfl, ha, by simpa using hne, hdigits, hb⟩, hhead, ?_⟩
          simp only [List.length_append]
          omega
  · rintro ⟨_, r, rfl, ⟨a, ds, b, rfl, ha, hne, hds, hb⟩, hr, rfl⟩
    have hstars := (span_append (v := TURN ++ (ds ++ (DOTS ++ (b ++ r)))) ha (by rintro c ⟨⟩; rfl)).2
    have hdigits := span_append (v := DOTS ++ (b ++ r)) hds (by
      rintro c ⟨⟩
      exact isDigit_ascii env (by decide))
    simp only [marker, List.append_assoc, hstars, word_eq_some.mpr rfl, hdigits.1, hdigits.2]
    rw [if_neg (by simpa using hne)]
    simp only [(span_append hb hr).2, List.length_append, Option.some.injEq, Prod.mk.injEq, true_and]
    omega

def Inert (c : Char) : Prop := c ≠ TICK ∧ c ≠ NUL

instance (c : Char) : Decidable (Inert c) := inferInstanceAs (Decidable (c ≠ TICK ∧ c ≠ NUL))

theorem IsMark.inert (h : IsMark env u) (hc : c ∈ u) : Inert c := by
  obtain ⟨a, ds, b, rfl, ha, -, hds, hb⟩ := h
  have hstar : decide (c = '*') = true → Inert c := fun h => of_decide_eq_true h ▸ by decide
  have hturn : ∀ c ∈ TURN, c ≠ TICK ∧ c ≠ NUL := forall_mem_of_all (by decide)
  have hdots : ∀ c ∈ DOTS, c ≠ TICK ∧ c ≠ NUL := forall_mem_of_all (by decide)
  have hdigit : isDigit env c = true → Inert c := by
    intro hd
    constructor
    · rintro rfl
      rw [isDigit_ascii env (by decide)] at hd
      revert hd
      decide
    · rintro rfl
      rw [isDigit_ascii env (by decide)] at hd
      revert hd
      decide
  simp only [List.mem_append] at hc
  rcases hc with hc | hc | hc | hc | hc
  · exact hstar (ha c hc)
  · exact hturn c hc
  · exact hdigit (hds c hc)
  · exact hdots c hc
  · exact hstar (hb c hc)

theorem IsMark.ne_nil (h : IsMark env u) : u ≠ [] := by
  obtain ⟨a, ds, b, rfl, -, hne, -⟩ := h
  simp [hne]

theorem marker_head (h : marker env (c :: s) ≠ none) : c = '*' ∨ c = 'L' := by
  obtain ⟨⟨⟨⟩, n⟩, hn⟩ := Option.ne_none_iff_exists'.mp h
  obtain ⟨u, r, hs, ⟨a, ds, b, rfl, ha, -⟩, -⟩ := marker_iff.mp hn
  cases a with
  | nil =>
      have hturn : TURN = 'L' :: "LM Running (Turn ".toList := rfl
      rw [hturn] at hs
      exact .inr (List.cons.inj hs).1
  | cons d a =>
      obtain ⟨rfl, -⟩ := List.cons.inj hs
      exact .inl (of_decide_eq_true (ha c List.mem_cons_self))

theorem marker_reads (env : Env) : Reads (marker env) := by
  rintro s ⟨⟩ n h
  obtain ⟨u, r, rfl, hu, -, rfl⟩ := marker_iff.mp h
  exact ⟨List.length_pos_iff.mpr hu.ne_nil, by simp⟩

theorem marker_local (hv : ∀ c, v.head? = some c → ¬Inert c) (hw : ∀ c, w.head? = some c → ¬Inert c) :
    marker env (u ++ v) = some ((), n) → marker env (u ++ w) = some ((), n) := by
  intro h
  obtain ⟨m, r, hsplit, hm, hr, rfl⟩ := marker_iff.mp h
  rcases List.append_eq_append_iff.mp hsplit with ⟨m', rfl, hvr⟩ | ⟨r', rfl, rfl⟩
  · cases m' with
    | nil =>
        refine marker_iff.mpr ⟨u, w, rfl, by simpa using hm, fun c hc => ?_, by simp⟩
        refine decide_eq_false fun heq => hw c hc ?_
        rw [heq]
        decide
    | cons d m' => exact absurd (hm.inert (by simp)) (hv d (by rw [hvr]; rfl))
  · refine marker_iff.mpr ⟨m, r' ++ w, by rw [List.append_assoc], hm, fun c hc => ?_, rfl⟩
    cases r' with
    | nil =>
        refine decide_eq_false fun heq => hw c hc ?_
        rw [heq]
        decide
    | cons d r' => exact hr c hc

theorem marker_steady (env : Env) : Steady (marker env) := by
  intro t w ht
  cases h : marker env (t ++ w) with
  | some found =>
      obtain ⟨⟨⟩, n⟩ := found
      by_cases hover : t.length ≤ n
      · exact .inr ⟨(), n, hover, rfl⟩
      · obtain ⟨m, r, hsplit, hm, hr, rfl⟩ := marker_iff.mp h
        rcases List.append_eq_append_iff.mp hsplit with ⟨m', rfl, -⟩ | ⟨r', rfl, rfl⟩
        · simp at hover
        · refine .inl (marker_iff.mpr ⟨m, r', rfl, hm, fun c hc => hr c ?_, rfl⟩).symm
          rw [List.head?_append, hc]
          rfl
  | none =>
      refine .inl (Eq.symm (Option.eq_none_iff_forall_ne_some.mpr ?_))
      rintro ⟨⟨⟩, n⟩ hn
      obtain ⟨m, r, rfl, hm, hr, rfl⟩ := marker_iff.mp hn
      -- the stars that come next are read too
      obtain ⟨b, w', hrest, -, -, hb, hhead⟩ := span_exists (· = '*') (r ++ w)
      have hmark : IsMark env (m ++ b) := by
        obtain ⟨a, ds, b', rfl, ha, hne, hds, hb'⟩ := hm
        exact ⟨a, ds, b' ++ b, by simp only [List.append_assoc], ha, hne, hds, fun c hc =>
          (List.mem_append.mp hc).elim (hb' c) (hb c)⟩
      have hsome := marker_iff.mpr ⟨m ++ b, w', rfl, hmark, hhead, rfl⟩
      rw [List.append_assoc, ← hrest, ← List.append_assoc, h] at hsome
      cases hsome

theorem IsMark.dots (h : IsMark env u) : ∃ x b, u = x ++ ("...".toList ++ b) ∧ '.' ∉ x ∧ '.' ∉ b ∧
    ∀ b', b' <+: b → IsMark env (x ++ ("...".toList ++ b')) := by
  obtain ⟨a, ds, b, rfl, ha, hne, hds, hb⟩ := h
  have hdots : DOTS = ") ".toList ++ "...".toList := rfl
  refine ⟨a ++ (TURN ++ (ds ++ ") ".toList)), b, by simp only [hdots, List.append_assoc], ?_, ?_, ?_⟩
  · simp only [List.mem_append, not_or]
    refine ⟨fun hc => ?_, by decide, fun hc => ?_, by decide⟩
    · exact absurd (ha _ hc) (by decide)
    · have hd := hds _ hc
      rw [isDigit_ascii env (by decide)] at hd
      revert hd
      decide
  · exact fun hc => absurd (hb _ hc) (by decide)
  · intro b' hb'
    exact ⟨a, ds, b', by simp only [hdots, List.append_assoc], ha, hne, hds, fun c hc => hb c (hb'.subset hc)⟩

theorem marker_within (hover : marker env (t ++ w) = some ((), n)) (hn : t.length ≤ n) (hnone : marker env t = none)
    {x y : Text} (ht : t = x ++ y) : marker env y = none := by
  refine Option.eq_none_iff_forall_ne_some.mpr ?_
  rintro ⟨⟨⟩, k⟩ hk
  obtain ⟨m', r', rfl, hm', -, -⟩ := marker_iff.mp hk
  obtain ⟨m, r, hsplit, hm, -, rfl⟩ := marker_iff.mp hover
  have hfront : t <+: m := List.prefix_of_prefix_length_le (hsplit ▸ List.prefix_append t w)
    (List.prefix_append m r) hn
  obtain ⟨z, b, rfl, hz, -, hmark⟩ := hm.dots
  obtain ⟨z', b', rfl, -⟩ := hm'.dots
  have hthree : 3 ≤ t.count '.' := by
    subst ht
    simp only [List.count_append]
    have : ("...".toList).count '.' = 3 := by decide
    omega
  rw [← List.append_assoc] at hfront
  rcases List.prefix_or_prefix_of_prefix hfront (List.prefix_append (z ++ "...".toList) b) with hle | hge
  · -- all three dots are there only at its end
    obtain ⟨e, he⟩ := hle
    have hcount : t.count '.' + e.count '.' = 3 := by
      rw [← List.count_append, he, List.count_append, List.count_eq_zero.mpr hz]
      decide
    cases e using List.reverseRecOn with
    | nil =>
        rw [List.append_nil] at he
        subst he
        have hsome := marker_iff.mpr ⟨_, [], (List.append_nil _).symm, hmark [] (List.nil_prefix), by rintro c ⟨⟩, rfl⟩
        simp only [List.append_nil] at hsome
        rw [hnone] at hsome
        cases hsome
    | append_singleton e c _ =>
        have hlast := congrArg List.getLast? he
        rw [← List.append_assoc, List.getLast?_append, List.getLast?_append] at hlast
        obtain rfl : c = '.' := by simpa using hlast
        simp at hcount
        omega
  · obtain ⟨b'', hb''⟩ := hge
    subst hb''
    rw [List.prefix_append_right_inj] at hfront
    have hsome := marker_iff.mpr ⟨_, [], (List.append_nil _).symm, hmark b'' hfront, by rintro c ⟨⟩, rfl⟩
    rw [← List.append_assoc, hnone] at hsome
    cases hsome

theorem not_tick_of_over (hover : marker env (t ++ w) = some ((), n)) (hn : t.length ≤ n) : TICK ∉ t := by
  intro htick
  obtain ⟨m, r, hsplit, hm, -, rfl⟩ := marker_iff.mp hover
  have hfront : t <+: m := List.prefix_of_prefix_length_le (hsplit ▸ List.prefix_append t w)
    (List.prefix_append m r) hn
  exact (hm.inert (hfront.subset htick)).1 rfl

theorem fence_of_not_tick (h : TICK ∉ s) : fence s = none := by
  refine fence_eq_none ?_
  cases s with
  | nil => decide
  | cons c s =>
      have hne : c ≠ TICK := fun heq => h (by rw [heq]; exact List.mem_cons_self)
      rw [ticks_cons, if_neg hne]
      decide

section Both

variable {kind : Kind}

theorem both_quote (h : both env s = some (.quote, n)) : fence s = some ((), n) := by
  simp only [both] at h
  split at h
  · rename_i hfence
    cases h
    exact hfence
  · obtain ⟨_, _, heq⟩ := Option.map_eq_some_iff.mp h
    cases heq

theorem both_mark (h : both env s = some (.mark, n)) : fence s = none ∧ marker env s = some ((), n) := by
  simp only [both] at h
  split at h
  · cases h
  · rename_i hfence
    obtain ⟨⟨⟨⟩, k⟩, hk, heq⟩ := Option.map_eq_some_iff.mp h
    cases heq
    exact ⟨hfence, hk⟩

theorem both_of_fence (h : fence s = some ((), n)) : both env s = some (.quote, n) := by simp [both, h]

theorem both_of_not_fence (h : fence s = none) : both env s = (marker env s).map fun found => (.mark, found.2) := by
  simp [both, h]

theorem both_reads (env : Env) : Reads (both env) := by
  rintro s ⟨⟩ n h
  · exact fence_reads s () n (both_quote h)
  · exact marker_reads env s () n (both_mark h).2

theorem both_steady (env : Env) : Steady (both env) := by
  intro t w ht
  rcases fence_steady t w ht with hsame | ⟨⟨⟩, n, hn, hover⟩
  · cases hfence : fence t with
    | some found =>
        obtain ⟨⟨⟩, n⟩ := found
        exact .inl (by rw [both_of_fence hfence, both_of_fence (hsame.trans hfence)])
    | none =>
        rw [both_of_not_fence hfence, both_of_not_fence (hsame.trans hfence)]
        rcases marker_steady env t w ht with hsame | ⟨⟨⟩, n, hn, hover⟩
        · exact .inl (by rw [hsame])
        · exact .inr ⟨.mark, n, hn, by rw [hover]; rfl⟩
  · exact .inr ⟨.quote, n, hn, both_of_fence hover⟩

end Both

end Markers

section Masks

variable {env : Env} {s t u v : Text} {n k : Nat} {c : Char} {ph : List Text}

theorem fence_of_head (h : c ≠ TICK) : fence (c :: s) = none := by
  refine fence_eq_none ?_
  rw [ticks_cons, if_neg h]
  decide

theorem pieces_fence_append (hu : TICK ∉ u) (s : Text) :
    pieces fence (u ++ s) = u.map .other ++ pieces fence s := by
  refine pieces_append_of_none fun x y hxy hy => ?_
  obtain ⟨c, y, rfl⟩ := List.exists_cons_of_ne_nil hy
  exact fence_of_head fun heq => hu (by rw [hxy, heq]; simp)

theorem stored_others (u : Text) (cut : List (Piece Char Unit)) : stored (u.map .other ++ cut) = stored cut := by
  induction u with
  | nil => rfl
  | cons c u ih => exact ih

theorem maskFrom_others (k : Nat) (u : Text) (cut : List (Piece Char Unit)) :
    maskFrom k (u.map .other ++ cut) = u ++ maskFrom k cut := by
  induction u with
  | nil => rfl
  | cons c u ih => exact congrArg (c :: ·) ih

def mask (k : Nat) (s : Text) : Text := maskFrom k (pieces fence s)

theorem mask_append (hu : TICK ∉ u) (k : Nat) (s : Text) : mask k (u ++ s) = u ++ mask k s := by
  rw [mask, pieces_fence_append hu, maskFrom_others]
  rfl

theorem mask_quote (h : fence (u ++ s) = some ((), u.length)) :
    mask k (u ++ s) = PH ++ (Nat.toDigits 10 k ++ NUL :: mask (k + 1) s) := by
  rw [mask, pieces_found_append fence_reads h]
  rfl

theorem mask_other (h : fence (c :: s) = none) : mask k (c :: s) = c :: mask k s := by
  rw [mask, pieces_other h]
  rfl

theorem mask_head (s : Text) (k : Nat) : (∃ r, mask k s = NUL :: r) ∨ s = [] ∧ mask k s = [] ∨
    ∃ c s', s = c :: s' ∧ mask k s = c :: mask k s' := by
  cases s with
  | nil => exact .inr (.inl ⟨rfl, rfl⟩)
  | cons c s =>
      cases h : fence (c :: s) with
      | none => exact .inr (.inr ⟨c, s, rfl, mask_other h⟩)
      | some found =>
          obtain ⟨⟨⟩, n⟩ := found
          refine .inl ⟨"PH".toList ++ (Nat.toDigits 10 k ++ NUL :: mask (k + 1) ((c :: s).drop n)), ?_⟩
          rw [mask, pieces_found fence_reads h]
          rfl

theorem prefix_of_mask {w : Text} (hw : NUL ∉ w) (h : w <+: mask k s) : w <+: s := by
  induction w generalizing s with
  | nil => exact List.nil_prefix
  | cons c w ih =>
      rcases mask_head s k with ⟨r, hr⟩ | ⟨-, hnil⟩ | ⟨d, s', rfl, hd⟩
      · rw [hr, List.cons_prefix_cons] at h
        exact absurd (List.mem_cons.mpr (.inl h.1.symm)) hw
      · rw [hnil] at h
        cases List.prefix_nil.mp h
      · rw [hd, List.cons_prefix_cons] at h
        rw [List.cons_prefix_cons]
        exact ⟨h.1, ih (fun hmem => hw (List.mem_cons_of_mem _ hmem)) h.2⟩

theorem mask_inert (s : Text) (k : Nat) : ∃ u v w, s = u ++ v ∧ mask k s = u ++ w ∧
    (∀ c, v.head? = some c → ¬Inert c) ∧ ∀ c, w.head? = some c → ¬Inert c := by
  obtain ⟨u, v, rfl, -, -, hu, hv⟩ := span_exists (fun c => decide (Inert c)) s
  have hu : ∀ c ∈ u, Inert c := fun c hc => of_decide_eq_true (hu c hc)
  have hv : ∀ c, v.head? = some c → ¬Inert c := fun c hc => of_decide_eq_false (hv c hc)
  refine ⟨u, v, mask k v, rfl, mask_append (fun htick => (hu _ htick).1 rfl) k v, hv, fun c hc => ?_⟩
  rcases mask_head v k with ⟨r, hr⟩ | ⟨-, hnil⟩ | ⟨d, v', rfl, hd⟩
  · rw [hr] at hc
    cases hc
    exact fun h => h.2 rfl
  · rw [hnil] at hc
    cases hc
  · rw [hd] at hc
    exact hv c hc

theorem marker_mask : marker env (mask k s) = none ↔ marker env s = none := by
  obtain ⟨u, v, w, hs, hmask, hv, hw⟩ := mask_inert s k
  rw [hmask, hs, ← not_iff_not]
  simp only [Option.ne_none_iff_exists']
  constructor
  · rintro ⟨⟨⟨⟩, n⟩, hn⟩
    exact ⟨_, marker_local hw hv hn⟩
  · rintro ⟨⟨⟨⟩, n⟩, hn⟩
    exact ⟨_, marker_local hv hw hn⟩

theorem ascii_of_isDigit (h : c.isDigit = true) : c.toNat < 128 := by
  simp only [Char.isDigit, ge_iff_le, Bool.and_eq_true, decide_eq_true_eq] at h
  have hle : c.toNat ≤ 57 := h.2
  omega

theorem digit_toDigits (k : Nat) : ∀ c ∈ Nat.toDigits 10 k, isDigit env c := by
  intro c hc
  have hd := Nat.isDigit_of_mem_toDigits (by decide) (by decide) hc
  rw [isDigit_ascii env (ascii_of_isDigit hd)]
  exact hd

theorem int_toDigits (env : Env) (k : Nat) : int env (Nat.toDigits 10 k) = k := by
  have hfold : ∀ (ds : List Char) (n : Nat), (∀ c ∈ ds, c.isDigit = true) →
      ds.foldl (fun n c => 10 * n + (env.digit c).getD 0) n = Nat.ofDigitChars 10 ds n := by
    intro ds
    induction ds with
    | nil => exact fun n _ => (Nat.ofDigitChars_nil).symm
    | cons c ds ih =>
        intro n hds
        have hd := hds c List.mem_cons_self
        rw [List.foldl_cons, Nat.ofDigitChars_cons, env.ascii c (ascii_of_isDigit hd), hd]
        exact ih _ fun c hc => hds c (List.mem_cons_of_mem _ hc)
  rw [int, hfold _ 0 fun c hc => Nat.isDigit_of_mem_toDigits (by decide) (by decide) hc]
  exact Nat.ofDigitChars_toDigits (by decide) (by decide)

theorem placeholder_reads (env : Env) : Reads (placeholder env) := by
  intro s tag n h
  simp only [placeholder] at h
  split at h
  · cases h
  · rename_i rest hword
    obtain rfl := word_eq_some.mp hword
    split at h
    · cases h
    · split at h
      · rename_i hend
        cases h
        have hlen := congrArg List.length (List.takeWhile_append_dropWhile (p := isDigit env) (l := rest))
        have hpos : 0 < (rest.dropWhile (isDigit env)).length := by
          cases hdrop : rest.dropWhile (isDigit env) with
          | nil => rw [hdrop] at hend; cases hend
          | cons c r => exact Nat.succ_pos _
        rw [List.length_append] at hlen
        simp only [List.length_append, PH, List.length_cons]
        have htwo : "PH".toList.length = 2 := rfl
        omega
      · cases h

theorem placeholder_toDigits (env : Env) (k : Nat) (s : Text) :
    placeholder env (PH ++ (Nat.toDigits 10 k ++ NUL :: s)) =
      some (Nat.toDigits 10 k, (PH ++ (Nat.toDigits 10 k ++ [NUL])).length) := by
  have hdigits := span_append (v := NUL :: s) (@digit_toDigits env k) (by
    rintro c ⟨⟩
    exact isDigit_ascii env (by decide))
  simp only [placeholder, word_eq_some.mpr rfl, hdigits.1, hdigits.2]
  rw [if_neg (by simp), if_pos (show (NUL :: s).head? = some NUL from rfl)]
  simp only [List.length_append, PH, List.length_cons, List.length_nil]
  have htwo : "PH".toList.length = 2 := rfl
  rw [htwo]
  congr 2
  omega

theorem placeholder_front (h : placeholder env s ≠ none) : PH <+: s := by
  simp only [placeholder] at h
  split at h
  · exact absurd rfl h
  · rename_i rest hword
    exact word_eq_some.mp hword ▸ List.prefix_append PH rest

theorem restore_placeholder (h : ph[k]? = some u) (s : Text) :
    restore env ph (PH ++ (Nat.toDigits 10 k ++ NUL :: s)) = (restore env ph s).map (u ++ ·) := by
  have hsplit : PH ++ (Nat.toDigits 10 k ++ NUL :: s) = (PH ++ (Nat.toDigits 10 k ++ [NUL])) ++ s := by simp
  have hhit := placeholder_toDigits env k s
  rw [hsplit] at hhit ⊢
  rw [restore, pieces_found_append (placeholder_reads env) hhit]
  simp only [fill, int_toDigits, h]
  show _ = (fill env ph _).map _
  cases fill env ph (pieces (placeholder env) s) <;> rfl

theorem restore_other (h : placeholder env (c :: s) = none) :
    restore env ph (c :: s) = (restore env ph s).map (c :: ·) := by
  rw [restore, pieces_other h]
  rfl

theorem restore_inert (ph : List Text) (h : NUL ∉ u) : restore env ph u = some u := by
  induction u with
  | nil => rfl
  | cons c u ih =>
      rw [restore_other, ih fun hmem => h (List.mem_cons_of_mem _ hmem)]
      · rfl
      · by_contra hne
        have hfront := placeholder_front hne
        rw [PH, List.cons_prefix_cons] at hfront
        exact h (hfront.1 ▸ List.mem_cons_self)

end Masks

section Plain

variable {env : Env} {s t u v : Text} {k : Nat} {ph : List Text}

theorem Plain.of_infix (h : Plain t) (hs : s <:+: t) : Plain s := fun hin => h (hin.trans hs)

def head (env : Env) (t : Text) : Text := (splitBy isMark (pieces (both env) t)).1

def turns (env : Env) (t : Text) : List Text :=
  (splitBy isMark (pieces (both env) t)).2.map fun part => part.1 ++ part.2

theorem not_star_of_mask (h : ∀ c, s.head? = some c → decide (c = '*') = false) :
    ∀ c, (mask k s).head? = some c → decide (c = '*') = false := by
  intro c hc
  rcases mask_head s k with ⟨r, hr⟩ | ⟨-, hnil⟩ | ⟨d, s', rfl, hd⟩
  · rw [hr] at hc
    cases hc
    decide
  · rw [hnil] at hc
    cases hc
  · rw [hd] at hc
    exact h c hc

theorem splitBy_others_append {β : Type} (p : β → Bool) (u : Text) (qs : List (Piece Char β)) :
    splitBy p (u.map .other ++ qs) = (u ++ (splitBy p qs).1, (splitBy p qs).2) := by
  induction u with
  | nil => rfl
  | cons c u ih => simp only [List.map_cons, List.cons_append, splitBy, ih]

theorem splitBy_front {β : Type} (p : β → Bool) (ps : List (Piece Char β)) : (splitBy p ps).1 <+: spell ps := by
  induction ps with
  | nil => exact List.nil_prefix
  | cons x ps ih =>
      cases x with
      | other c => exact List.cons_prefix_cons.mpr ⟨rfl, ih⟩
      | found tag u =>
          simp only [splitBy, spell_cons, Piece.text]
          split
          · exact List.nil_prefix
          · exact (List.prefix_append_right_inj u).mpr ih

theorem pieces_marker_placeholder (k : Nat) (s : Text) : pieces (marker env) (PH ++ (Nat.toDigits 10 k ++ NUL :: s)) =
    (PH ++ (Nat.toDigits 10 k ++ [NUL])).map .other ++ pieces (marker env) s := by
  have hsplit : PH ++ (Nat.toDigits 10 k ++ NUL :: s) = (PH ++ (Nat.toDigits 10 k ++ [NUL])) ++ s := by simp
  rw [hsplit]
  refine pieces_append_of_none fun x y hxy hy => ?_
  obtain ⟨c, y, rfl⟩ := List.exists_cons_of_ne_nil hy
  have hmem : c ∈ PH ++ (Nat.toDigits 10 k ++ [NUL]) := hxy ▸ List.mem_append_right x List.mem_cons_self
  by_contra hne
  have hhead := marker_head hne
  rcases List.mem_append.mp hmem with hmem | hmem
  · rcases hhead with rfl | rfl <;> revert hmem <;> decide
  · rcases List.mem_append.mp hmem with hmem | hmem
    · have hd := Nat.isDigit_of_mem_toDigits (by decide) (by decide) hmem
      rcases hhead with rfl | rfl <;> revert hd <;> decide
    · obtain rfl := List.mem_singleton.mp hmem
      revert hhead
      decide

theorem restore_parts (hplain : Plain s) (hph : ph.drop k = stored (pieces fence s)) :
    restore env ph (splitBy (fun _ => true) (pieces (marker env) (mask k s))).1 = some (head env s) ∧
      restoreTurns env ph (splitBy (fun _ => true) (pieces (marker env) (mask k s))).2 = some (turns env s) := by
  induction s using pieces_induction (both_reads env) generalizing k with
  | nil => exact ⟨rfl, rfl⟩
  | found kind u s hu h ih =>
      have hrest := hplain.of_infix (List.suffix_append u s).isInfix
      cases kind with
      | quote =>
          have hfence := both_quote h
          rw [pieces_found_append fence_reads hfence] at hph
          have hquote : ph[k]? = some u := by
            rw [← List.head?_drop, hph]
            rfl
          have hnext : ph.drop (k + 1) = stored (pieces fence s) := by
            rw [← List.tail_drop, hph]
            rfl
          obtain ⟨hhead, hturns⟩ := ih hrest hnext
          rw [mask_quote hfence, pieces_marker_placeholder, splitBy_others_append]
          have hheads : head env (u ++ s) = u ++ head env s := by
            rw [head, pieces_found_append (both_reads env) h]
            rfl
          have hsame : turns env (u ++ s) = turns env s := by
            rw [turns, pieces_found_append (both_reads env) h]
            rfl
          refine ⟨?_, hsame ▸ hturns⟩
          simp only [List.append_assoc, List.singleton_append]
          rw [restore_placeholder hquote, hhead, hheads]
          rfl
      | mark =>
          obtain ⟨hfence, hmarker⟩ := both_mark h
          obtain ⟨u', r, hsplit, hmark, hstar, hlen⟩ := marker_iff.mp hmarker
          obtain ⟨rfl, rfl⟩ := List.append_inj hsplit hlen
          have hplainu : TICK ∉ u := fun htick => (hmark.inert htick).1 rfl
          rw [pieces_fence_append hplainu, stored_others] at hph
          obtain ⟨hhead, hturns⟩ := ih hrest hph
          have hmask : marker env (u ++ mask k s) = some ((), u.length) :=
            marker_iff.mpr ⟨u, mask k s, rfl, hmark, not_star_of_mask hstar, rfl⟩
          have hmarked : pieces (both env) (u ++ s) = .found .mark u :: pieces (both env) s :=
            pieces_found_append (both_reads env) h
          have hheads : head env (u ++ s) = [] := by
            rw [head, hmarked]
            rfl
          have hmore : turns env (u ++ s) = (u ++ head env s) :: turns env s := by
            rw [turns, hmarked]
            rfl
          rw [mask_append hplainu, pieces_found_append (marker_reads env) hmask, hheads, hmore]
          refine ⟨rfl, ?_⟩
          show restoreTurns env ph ((u, _) :: _) = _
          simp only [restoreTurns, restore_inert ph fun hnul => (hmark.inert hnul).2 rfl, hhead, hturns]
  | other c s h ih =>
      have hfence : fence (c :: s) = none := by
        cases hf : fence (c :: s) with
        | none => rfl
        | some found => rw [both_of_fence hf] at h; cases h
      have hmarker : marker env (c :: s) = none := by
        rw [both_of_not_fence hfence] at h
        exact Option.map_eq_none_iff.mp h
      rw [pieces_other hfence] at hph
      obtain ⟨hhead, hturns⟩ := ih (hplain.of_infix (List.suffix_cons c s).isInfix) hph
      have hmask : marker env (c :: mask k s) = none := by
        rw [← mask_other hfence]
        exact marker_mask.mpr hmarker
      have hheads : head env (c :: s) = c :: head env s := by
        rw [head, pieces_other h]
        rfl
      have hsame : turns env (c :: s) = turns env s := by
        rw [turns, pieces_other h]
        rfl
      rw [mask_other hfence, pieces_other hmask, hheads, hsame]
      refine ⟨?_, hturns⟩
      show restore env ph (c :: _) = _
      rw [restore_other, hhead]
      · rfl
      · -- a placeholder would be one of the text's own
        by_contra hne
        have hfront := placeholder_front hne
        rw [PH, List.cons_prefix_cons] at hfront
        have hmasked := hfront.2.trans (splitBy_front _ _)
        rw [spell_pieces (marker_reads env)] at hmasked
        refine hplain (List.IsPrefix.isInfix ?_)
        rw [PH, List.cons_prefix_cons]
        exact ⟨hfront.1, prefix_of_mask (by decide) hmasked⟩

theorem turnParts_plain (h : Plain t) : turnParts env t = some (partsOf t (head env t) (turns env t)) := by
  obtain ⟨hhead, hturns⟩ := @restore_parts env t 0 (stored (pieces fence t)) h rfl
  rw [mask] at hhead hturns
  simp only [turnParts, hhead, hturns]

end Plain

section Prefixes

variable {env : Env} {t w : Text} {n : Nat}

def segments (env : Env) (t : Text) : List Text := (partsOf t (head env t) (turns env t)).1

theorem length_turns (t : Text) : (turns env t).length = (marks env t).length := by
  rw [turns, List.length_map, marks, length_spans]

-- What a frame and the text that goes on behind it make of the part at which they come apart.
inductive Overrun (env : Env) (t w : Text) : Prop where
  | unsplit (none : turns env t = [])
  | mark (whole : pieces (both env) t = [.found .mark t]) (empty : head env (t ++ w) = [])
      (more : turns env (t ++ w) ≠ [])
  | quote (more : turns env t ≠ []) (quoted : TICK ∈ head env t) (quoted' : TICK ∈ head env (t ++ w))
      (shorter : (head env t).length < (head env (t ++ w)).length)
      (inside : ∀ start, ∃ m ∈ spans isMark start (pieces (both env) t),
        ∃ q ∈ spans isQuote start (pieces (both env) (t ++ w)), q.1 < m.1 ∧ m.1 < q.2)

theorem overrun_mark (hn : t.length ≤ n) (h : both env (t ++ w) = some (.mark, n)) : Overrun env t w := by
  obtain ⟨hfence, hmarker⟩ := both_mark h
  have htick : TICK ∉ t := not_tick_of_over hmarker hn
  cases hhere : marker env t with
  | none =>
      refine .unsplit ?_
      have hnone : pieces (both env) (t ++ []) = t.map .other ++ [] := by
        refine pieces_append_of_none fun x y hxy hy => ?_
        rw [List.append_nil, both_of_not_fence (fence_of_not_tick fun hmem => htick (hxy ▸ List.mem_append_right x hmem)),
          marker_within hmarker hn hhere hxy]
        rfl
      rw [List.append_nil, List.append_nil] at hnone
      rw [turns, hnone, splitBy_others]
      rfl
  | some found =>
      obtain ⟨⟨⟩, k⟩ := found
      obtain ⟨u, r, rfl, hmark, hstar, rfl⟩ := marker_iff.mp hhere
      -- the marker is all that is there
      have hr : r = [] := by
        by_contra hne
        obtain ⟨c, r, rfl⟩ := List.exists_cons_of_ne_nil hne
        have hsame := marker_iff.mpr ⟨u, c :: r ++ w, List.append_assoc _ _ _, hmark, hstar, rfl⟩
        rw [hmarker] at hsame
        cases hsame
        simp only [List.length_append, List.length_cons] at hn
        omega
      subst hr
      rw [List.append_nil] at htick hhere ⊢
      have hboth : both env u = some (.mark, u.length) := by
        rw [both_of_not_fence (fence_of_not_tick htick), hhere]
        rfl
      have hpieces := pieces_found_append (both_reads env) (u := u) (s := []) (by rw [List.append_nil]; exact hboth)
      rw [List.append_nil] at hpieces h
      refine .mark hpieces ?_ ?_
      · rw [head, pieces_found (both_reads env) h]
        rfl
      · rw [turns, pieces_found (both_reads env) h]
        exact List.cons_ne_nil _ _

theorem overrun_quote (ht : t ≠ []) (hn : t.length ≤ n) (h : both env (t ++ w) = some (.quote, n)) :
    Overrun env t w := by
  by_cases hturns : turns env t = []
  · exact .unsplit hturns
  have hfence := both_quote h
  obtain ⟨c, s, rfl⟩ := List.exists_cons_of_ne_nil ht
  have hle := (both_reads env _ _ _ h).2
  obtain rfl : c = TICK := by
    by_contra hne
    have hfour := fence_tick hfence
    rw [List.cons_append, ticks_cons, if_neg hne] at hfour
    exact absurd hfour (by decide)
  have hquoted : TICK ∈ head env (TICK :: s) := by
    have hmarker : marker env (TICK :: s) = none := by
      by_contra hne
      exact absurd (marker_head hne) (by decide)
    rw [head]
    cases hf : fence (TICK :: s) with
    | some found =>
        obtain ⟨⟨⟩, k⟩ := found
        have hpos := (fence_reads _ _ _ hf).1
        obtain ⟨j, rfl⟩ : ∃ j, k = j + 1 := ⟨k - 1, by omega⟩
        rw [pieces_found (both_reads env) (both_of_fence hf)]
        exact List.mem_append_left _ List.mem_cons_self
    | none =>
        have hboth : both env (TICK :: s) = none := by
          rw [both_of_not_fence hf, hmarker]
          rfl
        rw [pieces_other hboth]
        exact List.mem_cons_self
  have hhead : head env (TICK :: s ++ w) =
      (TICK :: s ++ w).take n ++ head env ((TICK :: s ++ w).drop n) := by
    rw [head, pieces_found (both_reads env) h]
    rfl
  have hlen : ((TICK :: s ++ w).take n).length = n := by rw [List.length_take, Nat.min_eq_left hle]
  have hfirst := @first_span _ _ isMark (pieces (both env) (TICK :: s))
    (fun tag u hmem => found_ne_nil (both_reads env) hmem) (fun hnil => hturns (by rw [turns, hnil]; rfl))
  rw [spell_pieces (both_reads env)] at hfirst
  have hpos : 0 < (head env (TICK :: s)).length := List.length_pos_iff.mpr (List.ne_nil_of_mem hquoted)
  refine .quote hturns hquoted ?_ ?_ fun start => ?_
  · obtain ⟨j, rfl⟩ : ∃ j, n = j + 1 := ⟨n - 1, by rw [List.length_cons] at hn; omega⟩
    rw [hhead]
    exact List.mem_append_left _ List.mem_cons_self
  · obtain ⟨m, -, heq, hlt⟩ := hfirst 0
    have hshort : (head env (TICK :: s)).length < (TICK :: s).length := by
      rw [head]
      omega
    rw [hhead, List.length_append, hlen]
    omega
  · obtain ⟨m, hm, heq, hlt⟩ := hfirst start
    refine ⟨m, hm, (start, start + n), ?_, ?_, ?_⟩
    · rw [pieces_found (both_reads env) h, spans, if_pos (show isQuote .quote = true from rfl), hlen]
      exact List.mem_cons_self
    · rw [head] at hpos
      show start < m.1
      omega
    · show m.1 < start + n
      omega

theorem segments_front {t t' : Text}
    (h : (head env t :: turns env t).dropLast <+: (head env t' :: turns env t').dropLast) :
    segments env t <+: segments env t' := by
  simp only [segments, partsOf]
  by_cases htwo : (turns env t).length < 2
  · rw [if_pos htwo]
    exact List.nil_prefix
  · have hne : turns env t ≠ [] := fun hnil => htwo (by rw [hnil]; decide)
    have hlen := h.length_le
    simp only [List.length_dropLast, List.length_cons, Nat.add_sub_cancel] at hlen
    have hne' : turns env t' ≠ [] := fun hnil => by
      rw [hnil, List.length_nil] at hlen
      omega
    rw [List.dropLast_cons_of_ne_nil hne, List.dropLast_cons_of_ne_nil hne', List.cons_prefix_cons] at h
    have htwo' : ¬(turns env t').length < 2 := by omega
    rw [if_neg htwo, if_neg htwo', h.1]
    exact (List.prefix_append_right_inj _).mpr h.2

theorem not_segments_front {t t' b b' : Text} {init rest more : List Text}
    (ht : head env t :: turns env t = init ++ b :: rest) (ht' : head env t' :: turns env t' = init ++ b' :: more)
    (hrest : rest ≠ []) (hlt : b.length < b'.length) (hb : TICK ∈ b) (hb' : TICK ∈ b') (htwo : 2 ≤ (turns env t).length) :
    ¬segments env t <+: segments env t' := by
  have hfull : ∀ s : Text, TICK ∈ s → blank s = false := by
    intro s hs
    refine Bool.eq_false_iff.mpr fun hblank => ?_
    have hspace := List.all_eq_true.mp hblank TICK hs
    revert hspace
    decide
  simp only [segments, partsOf]
  rw [if_neg (Nat.not_lt_of_le htwo)]
  intro hfront
  by_cases htwo' : (turns env t').length < 2
  · rw [if_pos htwo', List.prefix_nil, List.append_eq_nil_iff] at hfront
    have hlen := congrArg List.length hfront.2
    rw [List.length_dropLast, List.length_nil] at hlen
    omega
  rw [if_neg htwo'] at hfront
  cases init with
  | nil =>
      obtain ⟨hhead, -⟩ := List.cons.inj ht
      obtain ⟨hhead', -⟩ := List.cons.inj ht'
      rw [hhead, hhead', hfull b hb, hfull b' hb'] at hfront
      have hsame := (List.cons_prefix_cons.mp hfront).1
      rw [hsame] at hlt
      exact Nat.lt_irrefl _ hlt
  | cons i init =>
      obtain ⟨hhead, hturns⟩ : head env t = i ∧ turns env t = init ++ b :: rest := List.cons.inj ht
      obtain ⟨hhead', hturns'⟩ : head env t' = i ∧ turns env t' = init ++ b' :: more := List.cons.inj ht'
      rw [hhead, hhead', List.prefix_append_right_inj] at hfront
      rw [hturns, List.dropLast_append_of_ne_nil (List.cons_ne_nil _ _), List.dropLast_cons_of_ne_nil hrest, hturns',
        List.dropLast_append_of_ne_nil (List.cons_ne_nil _ _), List.prefix_append_right_inj] at hfront
      cases more with
      | nil => cases List.prefix_nil.mp hfront
      | cons m more =>
          have hsame := (List.cons_prefix_cons.mp hfront).1
          rw [hsame] at hlt
          exact Nat.lt_irrefl _ hlt

theorem marks_apart (ps : List (Piece Char Kind)) {start : Nat} {x y : Nat × Nat} (hx : x ∈ spans isMark start ps)
    (hy : y ∈ spans isQuote start ps) : ¬(y.1 < x.1 ∧ x.1 < y.2) := by
  refine spans_apart (fun tag hmark hquote => ?_) ps hx hy
  cases tag with
  | quote => cases hmark
  | mark => cases hquote

theorem segments_prefix_iff (env : Env) (t w : Text) :
    segments env t <+: segments env (t ++ w) ↔ ¬Misread env t (t ++ w) := by
  obtain ⟨common, t', rfl, hpt, hptw, hrest⟩ := pieces_append (both_reads env) (both_steady env) t w
  obtain ⟨init, l, hchunks⟩ := @chunks_append _ _ isMark common
  have ht : head env (spell common ++ t') :: turns env (spell common ++ t') =
      init ++ (l ++ head env t') :: turns env t' := by
    rw [head, turns, hpt]
    exact hchunks _
  have htw : head env (spell common ++ t' ++ w) :: turns env (spell common ++ t' ++ w) =
      init ++ (l ++ head env (t' ++ w)) :: turns env (t' ++ w) := by
    rw [head, turns, hptw]
    exact hchunks _
  -- a marker and a quote around it are both behind what is common
  have hbehind : ∀ m ∈ marks env (spell common ++ t'), ∀ q ∈ quotes env (spell common ++ t' ++ w),
      q.1 < m.1 → m.1 < q.2 → m ∈ spans isMark (0 + (spell common).length) (pieces (both env) t') ∧
        0 + (spell common).length < m.1 := by
    intro m hm q hq hlt hlt'
    rw [marks, hpt, spans_append] at hm
    rw [quotes, hptw, spans_append] at hq
    rcases List.mem_append.mp hm with hm | hm
    · rcases List.mem_append.mp hq with hq | hq
      · exact absurd ⟨hlt, hlt'⟩ (marks_apart common hm hq)
      · have hmb := mem_spans common hm
        have hqb := mem_spans _ hq
        omega
    · rcases List.mem_append.mp hq with hq | hq
      · have hqb := mem_spans common hq
        have hmb := mem_spans _ hm
        omega
      · have hqb := mem_spans _ hq
        exact ⟨hm, by omega⟩
  have hover : Overrun env t' w := by
    rcases hrest with rfl | ⟨hne, tag, n, hn, hhit⟩
    · exact .unsplit rfl
    · cases tag with
      | quote => exact overrun_quote hne hn hhit
      | mark => exact overrun_mark hn hhit
  cases hover with
  | unsplit hnone =>
      constructor
      · rintro - ⟨-, m, hm, q, hq, hlt, hlt'⟩
        have hmem := (hbehind m hm q hq hlt hlt').1
        have hlen := length_spans (p := isMark) (pieces (both env) t') (0 + (spell common).length)
        rw [turns, List.map_eq_nil_iff] at hnone
        rw [hnone] at hlen
        rw [List.length_eq_zero_iff.mp hlen] at hmem
        cases hmem
      · intro _
        refine segments_front ?_
        rw [ht, htw, hnone, List.dropLast_concat, List.dropLast_append_of_ne_nil (List.cons_ne_nil _ _)]
        exact List.prefix_append _ _
  | mark hwhole hempty hmore =>
      constructor
      · rintro - ⟨-, m, hm, q, hq, hlt, hlt'⟩
        obtain ⟨hmem, hlater⟩ := hbehind m hm q hq hlt hlt'
        rw [hwhole, spans, if_pos (show isMark .mark = true from rfl)] at hmem
        obtain rfl := List.mem_singleton.mp hmem
        exact absurd hlater (Nat.lt_irrefl _)
      · intro _
        refine segments_front ?_
        have hhead : head env t' = [] := by rw [head, hwhole]; rfl
        have hturns : turns env t' = [t'] := by rw [turns, hwhole]; exact congrArg (· :: []) (List.append_nil t')
        rw [ht, htw, hhead, hturns, hempty, List.dropLast_append_of_ne_nil (List.cons_ne_nil _ _),
          List.dropLast_append_of_ne_nil (List.cons_ne_nil _ _), List.prefix_append_right_inj,
          List.dropLast_cons_of_ne_nil hmore]
        exact List.cons_prefix_cons.mpr ⟨rfl, List.nil_prefix⟩
  | quote hmore hquoted hquoted' hshorter hinside =>
      obtain ⟨m, hm, q, hq, hlt, hlt'⟩ := hinside (0 + (spell common).length)
      have hm' : m ∈ marks env (spell common ++ t') := by
        rw [marks, hpt, spans_append]
        exact List.mem_append_right _ hm
      have hq' : q ∈ quotes env (spell common ++ t' ++ w) := by
        rw [quotes, hptw, spans_append]
        exact List.mem_append_right _ hq
      constructor
      · rintro hfront ⟨htwo, -⟩
        refine not_segments_front ht htw hmore ?_ (List.mem_append_right l hquoted) (List.mem_append_right l hquoted')
          (@length_turns env _ ▸ htwo) hfront
        simp only [List.length_append]
        omega
      · intro hnot
        have hfew : (turns env (spell common ++ t')).length < 2 := by
          rw [length_turns]
          exact Nat.lt_of_not_le fun htwo => hnot ⟨htwo, m, hm', q, hq', hlt, hlt'⟩
        simp only [segments, partsOf]
        rw [if_pos hfew]
        exact List.nil_prefix

end Prefixes

section Runs

variable {env : Env} {s s' : State} {raw result t : Text} {m : Moment}

theorem turnParts_segments (h : Plain t) : ∃ unfinished, turnParts env t = some (segments env t, unfinished) :=
  ⟨_, turnParts_plain h⟩

theorem blank_clean (env : Env) (t : Text) : blank (clean env t) = false := by
  rw [clean]
  split
  · decide
  · rename_i hne
    refine Bool.eq_false_iff.mpr fun hblank => hne ?_
    -- the last character of what is trimmed is not white space
    rw [trim, List.reverse_eq_nil_iff]
    cases hrest : ((env.cleaned t).dropWhile isSpace).reverse.dropWhile isSpace with
    | nil => rfl
    | cons c rest =>
        have hspace := List.all_eq_true.mp hblank c (by rw [trim, hrest]; simp)
        have hhead := List.head?_dropWhile_not isSpace ((env.cleaned t).dropWhile isSpace).reverse
        rw [hrest] at hhead
        simp [hspace] at hhead

theorem onNext_cases (hraw : Plain raw) : onNext env s raw m = some s ∨
    ∃ later outbox, s.sent < (segments env raw).length ∧ m.fails = false ∧ onNext env s raw m =
      some ⟨(segments env raw).length, s.mi + 1, later, s.chosen ++ (segments env raw).drop s.sent, outbox⟩ := by
  obtain ⟨unfinished, hparts⟩ := @turnParts_segments env raw hraw
  simp only [onNext, hparts]
  by_cases hold : (segments env raw).length ≤ s.sent
  · exact .inl (if_pos hold)
  rw [if_neg hold]
  split
  · split
    · exact .inl rfl
    · split
      · exact .inl rfl
      · rename_i hfails
        exact .inr ⟨_, _, Nat.lt_of_not_le hold, Bool.eq_false_iff.mpr hfails, rfl⟩
  · exact .inl rfl

theorem onNext_fails (hraw : Plain raw) (h : m.fails = true) : onNext env s raw m = some s := by
  rcases @onNext_cases env s raw m hraw with hsame | ⟨_, _, -, hfails, -⟩
  · exact hsame
  · rw [h] at hfails
    cases hfails

theorem onNext_first (hraw : Plain raw) (h : m.fails = false) (hsent : s.sent = 0) (hmi : s.mi = 0)
    (hchosen : s.chosen = []) : ∃ s', onNext env s raw m = some s' ∧ s'.sent = (segments env raw).length ∧
      s'.chosen = segments env raw := by
  obtain ⟨unfinished, hparts⟩ := @turnParts_segments env raw hraw
  simp only [onNext, hparts, hsent, hmi, hchosen, blank_clean, h]
  split
  · rename_i hnone
    have hnil := List.length_eq_zero_iff.mp (Nat.le_zero.mp hnone)
    exact ⟨s, rfl, by rw [hsent, hnil]; rfl, by rw [hchosen, hnil]⟩
  · exact ⟨_, rfl, rfl, rfl⟩

def Sent (env : Env) (result : Text) (s : State) : Prop :=
  s.sent ≤ (segments env result).length ∧ s.chosen = (segments env result).take s.sent

theorem sent_next (hraw : Plain raw) (hfront : segments env raw <+: segments env result) (h : Sent env result s)
    (hs : onNext env s raw m = some s') : Sent env result s' := by
  rcases @onNext_cases env s raw m hraw with hsame | ⟨_, _, hlt, -, hsend⟩
  · rw [hsame] at hs
    cases hs
    exact h
  · rw [hsend] at hs
    cases hs
    obtain ⟨hle, hchosen⟩ := h
    refine ⟨hfront.length_le, ?_⟩
    have hwhole := List.prefix_iff_eq_take.mp hfront
    have htake : (segments env result).take s.sent = (segments env raw).take s.sent := by
      rw [hwhole, List.take_take, Nat.min_eq_left (Nat.le_of_lt hlt)]
    show s.chosen ++ (segments env raw).drop s.sent = (segments env result).take (segments env raw).length
    rw [hchosen, htake, List.take_append_drop]
    exact hwhole

theorem sent_run {frames : List (Text × Moment)} (hplain : ∀ f ∈ frames, Plain f.1)
    (hfront : ∀ f ∈ frames, segments env f.1 <+: segments env result) (h : Sent env result s) :
    ∃ s', run env s frames = some s' ∧ Sent env result s' := by
  induction frames generalizing s with
  | nil => exact ⟨s, rfl, h⟩
  | cons f frames ih =>
      obtain ⟨raw, m⟩ := f
      have hraw : Plain raw := hplain _ List.mem_cons_self
      obtain ⟨s', hs'⟩ : ∃ s', onNext env s raw m = some s' := by
        rcases @onNext_cases env s raw m hraw with hsame | ⟨_, _, -, -, hsend⟩
        · exact ⟨_, hsame⟩
        · exact ⟨_, hsend⟩
      have hnext := sent_next hraw (hfront _ List.mem_cons_self) h hs'
      obtain ⟨s'', hrun, hsent⟩ := ih (fun f hf => hplain f (List.mem_cons_of_mem _ hf))
        (fun f hf => hfront f (List.mem_cons_of_mem _ hf)) hnext
      exact ⟨s'', by rw [run, hs']; exact hrun, hsent⟩

theorem run_fails {frames : List (Text × Moment)} (hplain : ∀ f ∈ frames, Plain f.1)
    (hfails : ∀ f ∈ frames, f.2.fails = true) : run env s frames = some s := by
  induction frames with
  | nil => rfl
  | cons f frames ih =>
      obtain ⟨raw, m⟩ := f
      have hraw : Plain raw := hplain _ List.mem_cons_self
      rw [run, onNext_fails hraw (hfails _ List.mem_cons_self)]
      exact ih (fun f hf => hplain f (List.mem_cons_of_mem _ hf)) fun f hf => hfails f (List.mem_cons_of_mem _ hf)

theorem run_append (s : State) (before after : List (Text × Moment)) :
    run env s (before ++ after) = (run env s before).bind fun s => run env s after := by
  induction before generalizing s with
  | nil => rfl
  | cons f before ih =>
      simp only [List.cons_append, run, Option.bind_assoc]
      exact Option.bind_congr fun s' _ => ih s'

theorem onDone_chosen (hresult : Plain result) (s : State) (fails : Bool) : ∃ s' unfinished,
    onDone env s result fails = some s' ∧ turnParts env result = some (segments env result, unfinished) ∧
      s'.chosen = s.chosen ++ ((segments env result).drop s.sent ++ [unfinished]) := by
  obtain ⟨unfinished, hparts⟩ := @turnParts_segments env result hresult
  simp only [onDone, hparts]
  exact ⟨_, unfinished, rfl, rfl, rfl⟩

theorem once_of_front {frames : List (Text × Moment)} (hresult : Plain result) (hplain : ∀ f ∈ frames, Plain f.1)
    (hfront : ∀ f ∈ frames, segments env f.1 <+: segments env result) (fails : Bool) :
    Once env frames result fails := by
  obtain ⟨s, hrun, -, hchosen⟩ := @sent_run env {} result frames hplain hfront ⟨Nat.zero_le _, rfl⟩
  obtain ⟨s', unfinished, hdone, hparts, heq⟩ := @onDone_chosen env result hresult s fails
  refine ⟨s', _, unfinished, by rw [relay, hrun]; exact hdone, hparts, ?_⟩
  rw [heq, hchosen, ← List.append_assoc, List.take_append_drop]

theorem prefix_of_once (hresult : Plain result) {before after : List Text} (hplain : ∀ x ∈ before ++ t :: after, Plain x)
    (h : ∀ frames : List (Text × Moment), frames.map Prod.fst = before ++ t :: after → ∀ fails,
      Once env frames result fails) : segments env t <+: segments env result := by
  let failing : Text → Text × Moment := fun x => (x, ⟨0, 0, true⟩)
  have hfst : ∀ l : List Text, (l.map failing).map Prod.fst = l := fun l => by
    rw [List.map_map]
    exact List.map_id l
  have hrefused : ∀ (s : State) (l : List Text), (∀ x ∈ l, Plain x) → run env s (l.map failing) = some s := by
    intro s l hl
    refine run_fails (fun f hf => ?_) fun f hf => ?_
    · obtain ⟨x, hx, rfl⟩ := List.mem_map.mp hf
      exact hl x hx
    · obtain ⟨x, -, rfl⟩ := List.mem_map.mp hf
      rfl
  have hbefore := hrefused {} before fun x hx => hplain x (List.mem_append_left _ hx)
  obtain ⟨s, hfirst, hsent, hchosen⟩ := @onNext_first env {} t ⟨0, 0, false⟩
    (hplain t (List.mem_append_right _ List.mem_cons_self)) rfl rfl rfl rfl
  have hafter := hrefused s after fun x hx => hplain x (List.mem_append_right _ (List.mem_cons_of_mem _ hx))
  obtain ⟨s', done, unfinished, hrelay, hparts, heq⟩ :=
    h (before.map failing ++ (t, ⟨0, 0, false⟩) :: after.map failing) (by
      rw [List.map_append, List.map_cons, hfst, hfst]) false
  rw [relay, run_append, hbefore, Option.bind_some, run, hfirst, Option.bind_some, hafter, Option.bind_some] at hrelay
  obtain ⟨s'', unfinished', hdone, hparts', heq'⟩ := @onDone_chosen env result hresult s false
  rw [hdone] at hrelay
  cases hrelay
  rw [hparts'] at hparts
  cases hparts
  rw [heq', hchosen, ← List.append_assoc, List.append_left_inj] at heq
  exact ⟨_, heq⟩

end Runs

instance (t : Text) : Decidable (Plain t) := inferInstanceAs (Decidable (¬PH <:+: t))

-- A cumulative stream's segments are sent once each, however its sends are timed and fail, as long as no frame is
-- misread.
theorem once_iff (env : Env) {texts : List Text} {result : Text} (hcumulative : (texts ++ [result]).Pairwise (· <+: ·))
    (hresult : Plain result) :
    (∀ frames : List (Text × Moment), frames.map Prod.fst = texts → ∀ fails, Once env frames result fails) ↔
      ∀ t ∈ texts, ¬Misread env t result := by
  have hbelow : ∀ t ∈ texts, t <+: result := fun t ht =>
    (List.pairwise_append.mp hcumulative).2.2 t ht result (List.mem_singleton_self _)
  have hplain : ∀ t ∈ texts, Plain t := fun t ht => hresult.of_infix (hbelow t ht).isInfix
  have hiff : ∀ t ∈ texts, segments env t <+: segments env result ↔ ¬Misread env t result := by
    intro t ht
    obtain ⟨w, rfl⟩ := hbelow t ht
    exact segments_prefix_iff env t w
  constructor
  · intro h t ht
    obtain ⟨before, after, rfl⟩ := List.append_of_mem ht
    exact (hiff t ht).mp (prefix_of_once hresult hplain h)
  · rintro h frames rfl fails
    refine once_of_front hresult (fun f hf => hplain _ (List.mem_map_of_mem hf)) (fun f hf => ?_) fails
    exact (hiff _ (List.mem_map_of_mem hf)).mpr (h _ (List.mem_map_of_mem hf))

theorem asciiEnv_digit (c : Char) (_ : c.toNat < 128) :
    (if c.isDigit then some (c.toNat - 48) else none) = if c.isDigit then some (c.toNat - 48) else none := rfl

def asciiEnv : Env where
  digit c := if c.isDigit then some (c.toNat - 48) else none
  ascii := asciiEnv_digit
  cleaned t := t

theorem once_iff_two_turns :
    ((["LLM Running (Turn 1) ...a".toList] ++ ["LLM Running (Turn 1) ...aLLM Running (Turn 2) ...b".toList]).Pairwise
      (· <+: ·) ∧ Plain "LLM Running (Turn 1) ...aLLM Running (Turn 2) ...b".toList) ∧
    ((∀ frames : List (Text × Moment), frames.map Prod.fst = ["LLM Running (Turn 1) ...a".toList] → ∀ fails,
      Once asciiEnv frames "LLM Running (Turn 1) ...aLLM Running (Turn 2) ...b".toList fails) ↔
      ∀ t ∈ ["LLM Running (Turn 1) ...a".toList],
        ¬Misread asciiEnv t "LLM Running (Turn 1) ...aLLM Running (Turn 2) ...b".toList) :=
  ⟨⟨by decide, by decide⟩, once_iff asciiEnv (by decide) (by decide)⟩

-- A frame with a fence open before its second marker, and the done text that closes it.
def openFrame : Text := "LLM Running (Turn 1) ...".toList ++ List.replicate 4 TICK ++ "LLM Running (Turn 2) ...".toList

theorem sent_twice : ¬∀ (env : Env) (frames : List (Text × Moment)) (result : Text) (fails : Bool),
    (frames.map Prod.fst ++ [result]).Pairwise (· <+: ·) → Once env frames result fails := by
  intro h
  obtain ⟨s, done, unfinished, hrelay, hparts, heq⟩ := h asciiEnv [(openFrame, ⟨0, 0, false⟩)]
    (openFrame ++ List.replicate 4 TICK) false (by decide)
  have hchosen : (relay asciiEnv [(openFrame, ⟨0, 0, false⟩)] (openFrame ++ List.replicate 4 TICK) false).map
      (fun s => s.chosen.length) = some 2 := by decide
  have hdone : (turnParts asciiEnv (openFrame ++ List.replicate 4 TICK)).map (fun parts => parts.1.length) = some 0 := by
    decide
  rw [hrelay, Option.map_some, heq, List.length_append, List.length_singleton] at hchosen
  rw [hparts, Option.map_some] at hdone
  have hlen := Option.some.inj hchosen
  have hzero : done.length = 0 := Option.some.inj hdone
  omega

end GaHub.WeChat.Relay
