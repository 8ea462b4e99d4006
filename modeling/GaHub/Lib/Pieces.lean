import Mathlib.Data.List.Infix
import Mathlib.Tactic.Common

namespace Lib

-- A text cut by a matcher, from left to right: what it has found, with what it says of it, and what is between.
inductive Piece (α β : Type) where
  | found (tag : β) (text : List α)
  | other (a : α)
  deriving DecidableEq

section Pieces

variable {α β : Type}

def Piece.text : Piece α β → List α
  | found _ u => u
  | other a => [a]

def spell (ps : List (Piece α β)) : List α := ps.flatMap Piece.text

-- A matcher says of a text whether it has a match at its front, and how long it is.
def piecesFrom (hit : List α → Option (β × Nat)) : Nat → List α → List (Piece α β)
  | _, [] => []
  | skip + 1, _ :: s => piecesFrom hit skip s
  | 0, a :: s =>
    match hit (a :: s) with
    | some (tag, n) => .found tag ((a :: s).take n) :: piecesFrom hit (n - 1) s
    | none => .other a :: piecesFrom hit 0 s

def pieces (hit : List α → Option (β × Nat)) (s : List α) : List (Piece α β) := piecesFrom hit 0 s

-- What stands before the first match of a kind, and each match with what stands behind it.
def splitBy (p : β → Bool) : List (Piece α β) → List α × List (List α × List α)
  | [] => ([], [])
  | .found tag u :: ps =>
    if p tag then ([], (u, (splitBy p ps).1) :: (splitBy p ps).2) else (u ++ (splitBy p ps).1, (splitBy p ps).2)
  | .other a :: ps => (a :: (splitBy p ps).1, (splitBy p ps).2)

-- Where the matches of a kind stand.
def spans (p : β → Bool) (start : Nat) : List (Piece α β) → List (Nat × Nat)
  | [] => []
  | .found tag u :: ps =>
    if p tag then (start, start + u.length) :: spans p (start + u.length) ps else spans p (start + u.length) ps
  | .other _ :: ps => spans p (start + 1) ps

def Reads (hit : List α → Option (β × Nat)) : Prop := ∀ s tag n, hit s = some (tag, n) → 0 < n ∧ n ≤ s.length

-- What is behind a text changes nothing in it, but for a match that reaches its end.
def Steady (hit : List α → Option (β × Nat)) : Prop :=
  ∀ t w, t ≠ [] → hit (t ++ w) = hit t ∨ ∃ tag n, t.length ≤ n ∧ hit (t ++ w) = some (tag, n)

variable {hit : List α → Option (β × Nat)} {p q : β → Bool} {ps qs : List (Piece α β)} {s t u w : List α} {tag : β}
  {a : α} {n start : Nat}

@[simp] theorem spell_nil : spell ([] : List (Piece α β)) = [] := rfl

@[simp] theorem spell_cons (x : Piece α β) : spell (x :: ps) = x.text ++ spell ps := rfl

theorem piecesFrom_eq (n : Nat) (s : List α) : piecesFrom hit n s = pieces hit (s.drop n) := by
  induction s generalizing n with
  | nil => cases n <;> rfl
  | cons a s ih =>
      cases n with
      | zero => rfl
      | succ n => exact ih n

@[simp] theorem pieces_nil : pieces hit [] = [] := rfl

theorem pieces_found (hr : Reads hit) (h : hit s = some (tag, n)) :
    pieces hit s = .found tag (s.take n) :: pieces hit (s.drop n) := by
  obtain ⟨hpos, hle⟩ := hr s tag n h
  cases s with
  | nil => exact absurd (Nat.lt_of_lt_of_le hpos hle) (Nat.lt_irrefl _)
  | cons a s =>
      obtain ⟨k, rfl⟩ : ∃ k, n = k + 1 := ⟨n - 1, by omega⟩
      have hcons : pieces hit (a :: s) = .found tag ((a :: s).take (k + 1)) :: piecesFrom hit k s := by
        simp only [pieces, piecesFrom, h, Nat.add_sub_cancel]
      rw [hcons, piecesFrom_eq]
      rfl

theorem pieces_found_append (hr : Reads hit) (h : hit (u ++ s) = some (tag, u.length)) :
    pieces hit (u ++ s) = .found tag u :: pieces hit s := by
  rw [pieces_found hr h, List.take_left, List.drop_left]

theorem pieces_other (h : hit (a :: s) = none) : pieces hit (a :: s) = .other a :: pieces hit s := by
  simp only [pieces, piecesFrom, h]

theorem pieces_append_of_none (h : ∀ x y, u = x ++ y → y ≠ [] → hit (y ++ s) = none) :
    pieces hit (u ++ s) = u.map .other ++ pieces hit s := by
  induction u with
  | nil => rfl
  | cons a u ih =>
      have hhere : hit (a :: (u ++ s)) = none := h [] (a :: u) rfl (List.cons_ne_nil _ _)
      rw [List.cons_append, pieces_other hhere, ih, List.map_cons, List.cons_append]
      exact fun x y hxy => h (a :: x) y (by rw [hxy]; rfl)

@[elab_as_elim]
theorem pieces_induction (hr : Reads hit) {motive : List α → Prop} (nil : motive [])
    (found : ∀ tag u s, u ≠ [] → hit (u ++ s) = some (tag, u.length) → motive s → motive (u ++ s))
    (other : ∀ a s, hit (a :: s) = none → motive s → motive (a :: s)) (s : List α) : motive s := by
  induction hlen : s.length using Nat.strongRecOn generalizing s with
  | _ len ih =>
      subst hlen
      cases s with
      | nil => exact nil
      | cons a s =>
          cases h : hit (a :: s) with
          | none => exact other a s h (ih s.length (Nat.lt_succ_self _) s rfl)
          | some found' =>
              obtain ⟨tag, n⟩ := found'
              obtain ⟨hpos, hle⟩ := hr _ _ _ h
              have hlen : ((a :: s).take n).length = n := by rw [List.length_take, Nat.min_eq_left hle]
              rw [← List.take_append_drop n (a :: s)]
              refine found tag _ _ ?_ ?_ (ih _ ?_ _ rfl)
              · rw [← List.length_pos_iff, hlen]
                exact hpos
              · rw [List.take_append_drop, hlen]
                exact h
              · rw [List.length_drop]
                omega

@[simp] theorem spell_pieces (hr : Reads hit) (s : List α) : spell (pieces hit s) = s := by
  induction s using pieces_induction hr with
  | nil => rfl
  | found tag u s _ h ih => rw [pieces_found_append hr h, spell_cons, ih]; rfl
  | other a s h ih => rw [pieces_other h, spell_cons, ih]; rfl

theorem found_ne_nil (hr : Reads hit) (h : .found tag u ∈ pieces hit s) : u ≠ [] := by
  induction s using pieces_induction hr with
  | nil => cases h
  | found tag' u' s hu hhit ih =>
      rw [pieces_found_append hr hhit] at h
      rcases List.mem_cons.mp h with heq | h
      · cases heq
        exact hu
      · exact ih h
  | other a s hhit ih =>
      rw [pieces_other hhit] at h
      rcases List.mem_cons.mp h with heq | h
      · cases heq
      · exact ih h

-- Two texts of which one goes on where the other ends are cut the same, up to where a match runs over that end.
theorem pieces_append (hr : Reads hit) (hsteady : Steady hit) (t w : List α) :
    ∃ common t', t = spell common ++ t' ∧ pieces hit t = common ++ pieces hit t' ∧
      pieces hit (t ++ w) = common ++ pieces hit (t' ++ w) ∧
      (t' = [] ∨ t' ≠ [] ∧ ∃ tag n, t'.length ≤ n ∧ hit (t' ++ w) = some (tag, n)) := by
  induction t using pieces_induction hr with
  | nil => exact ⟨[], [], rfl, rfl, rfl, .inl rfl⟩
  | found tag u s hu h ih =>
      rcases hsteady (u ++ s) w (by simp [hu]) with hsame | hover
      · obtain ⟨common, t', rfl, hs, hsw, hrest⟩ := ih
        refine ⟨.found tag u :: common, t', by simp [Piece.text], ?_, ?_, hrest⟩
        · rw [pieces_found_append hr h, hs]
          rfl
        · rw [h, List.append_assoc] at hsame
          rw [List.append_assoc, pieces_found_append hr hsame, hsw]
          rfl
      · exact ⟨[], u ++ s, rfl, rfl, rfl, .inr ⟨by simp [hu], hover⟩⟩
  | other a s h ih =>
      rcases hsteady (a :: s) w (List.cons_ne_nil _ _) with hsame | hover
      · obtain ⟨common, t', rfl, hs, hsw, hrest⟩ := ih
        refine ⟨.other a :: common, t', by simp [Piece.text], ?_, ?_, hrest⟩
        · rw [pieces_other h, hs]
          rfl
        · have hhere : hit (a :: (spell common ++ t' ++ w)) = none := hsame.trans h
          rw [List.cons_append, pieces_other hhere, hsw]
          rfl
      · exact ⟨[], a :: s, rfl, rfl, rfl, .inr ⟨List.cons_ne_nil _ _, hover⟩⟩

section Split

theorem splitBy_found (p : β → Bool) (tag : β) (u : List α) (ps : List (Piece α β)) : splitBy p (.found tag u :: ps) =
    if p tag then ([], (u, (splitBy p ps).1) :: (splitBy p ps).2) else (u ++ (splitBy p ps).1, (splitBy p ps).2) := rfl

theorem splitBy_other (p : β → Bool) (a : α) (ps : List (Piece α β)) :
    splitBy p (.other a :: ps) = (a :: (splitBy p ps).1, (splitBy p ps).2) := rfl

theorem spans_found (p : β → Bool) (start : Nat) (tag : β) (u : List α) (ps : List (Piece α β)) :
    spans p start (.found tag u :: ps) = if p tag then (start, start + u.length) :: spans p (start + u.length) ps
      else spans p (start + u.length) ps := rfl

-- The parts of a split, each match together with what stands behind it.
def chunks (p : β → Bool) (ps : List (Piece α β)) : List (List α) :=
  (splitBy p ps).1 :: (splitBy p ps).2.map fun part => part.1 ++ part.2

theorem splitBy_others (s : List α) : splitBy p (s.map fun a => (.other a : Piece α β)) = (s, []) := by
  induction s with
  | nil => rfl
  | cons a s ih => rw [List.map_cons, splitBy_other, ih]

theorem chunks_append (ps : List (Piece α β)) : ∃ init l, ∀ qs, chunks p (ps ++ qs) =
    init ++ (l ++ (splitBy p qs).1) :: (splitBy p qs).2.map fun part => part.1 ++ part.2 := by
  induction ps with
  | nil => exact ⟨[], [], fun qs => rfl⟩
  | cons x ps ih =>
      obtain ⟨init, l, h⟩ := ih
      simp only [chunks] at h
      cases x with
      | other a =>
          cases init with
          | nil =>
              refine ⟨[], a :: l, fun qs => ?_⟩
              obtain ⟨hhead, htail⟩ := List.cons.inj (h qs)
              simp [chunks, splitBy_other, hhead, htail]
          | cons i init =>
              refine ⟨(a :: i) :: init, l, fun qs => ?_⟩
              obtain ⟨hhead, htail⟩ := List.cons.inj (h qs)
              simp [chunks, splitBy_other, hhead, htail]
      | found tag u =>
          by_cases hp : p tag = true
          · cases init with
            | nil =>
                refine ⟨[[]], u ++ l, fun qs => ?_⟩
                obtain ⟨hhead, htail⟩ := List.cons.inj (h qs)
                simp [chunks, splitBy_found, hp, hhead, htail]
            | cons i init =>
                refine ⟨[] :: (u ++ i) :: init, l, fun qs => ?_⟩
                obtain ⟨hhead, htail⟩ := List.cons.inj (h qs)
                simp [chunks, splitBy_found, hp, hhead, htail]
          · cases init with
            | nil =>
                refine ⟨[], u ++ l, fun qs => ?_⟩
                obtain ⟨hhead, htail⟩ := List.cons.inj (h qs)
                simp [chunks, splitBy_found, hp, hhead, htail]
            | cons i init =>
                refine ⟨(u ++ i) :: init, l, fun qs => ?_⟩
                obtain ⟨hhead, htail⟩ := List.cons.inj (h qs)
                simp [chunks, splitBy_found, hp, hhead, htail]

theorem length_spans (ps : List (Piece α β)) (start : Nat) : (spans p start ps).length = (splitBy p ps).2.length := by
  induction ps generalizing start with
  | nil => rfl
  | cons x ps ih =>
      cases x with
      | other a => exact ih _
      | found tag u =>
          simp only [spans_found, splitBy_found]
          split
          · simp [ih]
          · exact ih _

theorem spans_append (ps qs : List (Piece α β)) (start : Nat) :
    spans p start (ps ++ qs) = spans p start ps ++ spans p (start + (spell ps).length) qs := by
  induction ps generalizing start with
  | nil => rfl
  | cons x ps ih =>
      cases x with
      | other a =>
          have hlen : start + 1 + (spell ps).length = start + (spell (.other a :: ps)).length := by
            simp only [spell_cons, Piece.text, List.length_append, List.length_singleton]
            omega
          rw [← hlen]
          exact ih (start + 1)
      | found tag u =>
          simp only [List.cons_append, spans_found, ih, spell_cons, Piece.text, List.length_append, Nat.add_assoc]
          split <;> rfl

theorem mem_spans (ps : List (Piece α β)) {start : Nat} {x : Nat × Nat} (hx : x ∈ spans p start ps) :
    start ≤ x.1 ∧ x.1 ≤ x.2 ∧ x.2 ≤ start + (spell ps).length := by
  induction ps generalizing start with
  | nil => cases hx
  | cons y ps ih =>
      cases y with
      | other a =>
          have h := ih hx
          simp only [spell_cons, Piece.text, List.length_append, List.length_singleton]
          omega
      | found tag u =>
          simp only [spell_cons, Piece.text, List.length_append]
          simp only [spans_found] at hx
          split at hx
          · rcases List.mem_cons.mp hx with rfl | hx
            · show start ≤ start ∧ start ≤ start + u.length ∧ start + u.length ≤ start + (u.length + (spell ps).length)
              omega
            · have h := ih hx
              omega
          · have h := ih hx
            omega

theorem first_span (hne : ∀ tag u, .found tag u ∈ ps → u ≠ []) (h : (splitBy p ps).2 ≠ []) (start : Nat) :
    ∃ x ∈ spans p start ps, x.1 = start + (splitBy p ps).1.length ∧ x.1 < start + (spell ps).length := by
  induction ps generalizing start with
  | nil => exact absurd rfl h
  | cons y ps ih =>
      have hrest : ∀ tag u, .found tag u ∈ ps → u ≠ [] := fun tag u hmem => hne tag u (List.mem_cons_of_mem _ hmem)
      cases y with
      | other a =>
          obtain ⟨x, hx, heq, hlt⟩ := ih hrest h (start + 1)
          refine ⟨x, hx, ?_, ?_⟩
          · rw [heq]
            simp only [splitBy_other, List.length_cons]
            omega
          · simp only [spell_cons, Piece.text, List.length_append, List.length_singleton]
            omega
      | found tag u =>
          have hpos := List.length_pos_iff.mpr (hne tag u List.mem_cons_self)
          simp only [splitBy_found, spans_found, spell_cons, Piece.text, List.length_append] at h ⊢
          by_cases hp : p tag = true
          · simp only [hp, if_true]
            exact ⟨_, List.mem_cons_self, rfl, by show start < _; omega⟩
          · simp only [hp] at h ⊢
            obtain ⟨x, hx, heq, hlt⟩ := ih hrest h (start + u.length)
            refine ⟨x, hx, ?_, by omega⟩
            rw [heq]
            simp only [Bool.false_eq_true, if_false, List.length_append]
            omega

theorem spans_apart (hpq : ∀ tag, p tag = true → q tag = true → False) (ps : List (Piece α β)) {start : Nat}
    {x y : Nat × Nat} (hx : x ∈ spans p start ps) (hy : y ∈ spans q start ps) : ¬(y.1 < x.1 ∧ x.1 < y.2) := by
  induction ps generalizing start with
  | nil => cases hx
  | cons z ps ih =>
      cases z with
      | other a => exact ih hx hy
      | found tag u =>
          simp only [spans_found] at hx hy
          rintro ⟨hlt, hlt'⟩
          by_cases hp : p tag = true
          · rw [if_neg fun hq => hpq tag hp hq] at hy
            rw [if_pos hp] at hx
            rcases List.mem_cons.mp hx with rfl | hx
            · have hbound := (mem_spans ps hy).1
              have hlt : y.1 < start := hlt
              omega
            · exact ih hx hy ⟨hlt, hlt'⟩
          · rw [if_neg hp] at hx
            by_cases hq : q tag = true
            · rw [if_pos hq] at hy
              rcases List.mem_cons.mp hy with rfl | hy
              · have hbound := (mem_spans ps hx).1
                have hlt' : x.1 < start + u.length := hlt'
                omega
              · exact ih hx hy ⟨hlt, hlt'⟩
            · rw [if_neg hq] at hy
              exact ih hx hy ⟨hlt, hlt'⟩

end Split

end Pieces

end Lib
