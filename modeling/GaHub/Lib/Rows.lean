import Mathlib.Data.List.Infix
import Mathlib.Tactic.Common

namespace Lib

-- A stream split at its ends: the rows that are complete, without them, and what no end has come behind yet.
section Rows

variable {α β : Type} (ends : α → Bool)

def rowsFrom (frag : List α) : List α → List (List α) × List α
  | [] => ([], frag)
  | c :: s =>
    if ends c then (frag :: (rowsFrom [] s).1, (rowsFrom [] s).2)
    else rowsFrom (frag ++ [c]) s

-- The rows with their ends, as `splitlines(keepends=True)` has them.
def keep : List α → List (List α)
  | [] => []
  | c :: s =>
    if ends c then [c] :: keep s
    else match keep s with
      | [] => [[c]]
      | l :: ls => (c :: l) :: ls

def body (l : List α) : List α := if l.getLast?.any ends then l.dropLast else l

variable {ends} {ends' : α → Bool} {frag s t f g : List α} {c : α} {ls ls' : List (List α)}

theorem rowsFrom_end (h : ends c = true) (frag s : List α) :
    rowsFrom ends frag (c :: s) = (frag :: (rowsFrom ends [] s).1, (rowsFrom ends [] s).2) := by
  rw [rowsFrom, if_pos h]

theorem rowsFrom_other (h : ends c = false) (frag s : List α) :
    rowsFrom ends frag (c :: s) = rowsFrom ends (frag ++ [c]) s := by
  rw [rowsFrom, if_neg (by simp [h])]

theorem rowsFrom_append (frag s t : List α) : rowsFrom ends frag (s ++ t) =
    ((rowsFrom ends frag s).1 ++ (rowsFrom ends (rowsFrom ends frag s).2 t).1,
      (rowsFrom ends (rowsFrom ends frag s).2 t).2) := by
  induction s generalizing frag with
  | nil => rfl
  | cons c s ih =>
      rw [List.cons_append]
      cases h : ends c with
      | true => rw [rowsFrom_end h, rowsFrom_end h, ih []]; rfl
      | false => rw [rowsFrom_other h, rowsFrom_other h, ih]

theorem rowsFrom_frag (hu : ∀ d ∈ s, ends d = false) (frag t : List α) :
    rowsFrom ends frag (s ++ t) = rowsFrom ends (frag ++ s) t := by
  induction s generalizing frag with
  | nil => rw [List.nil_append, List.append_nil]
  | cons c s ih =>
      rw [List.cons_append, rowsFrom_other (hu c List.mem_cons_self), ih fun d hd => hu d (List.mem_cons_of_mem _ hd),
        List.append_assoc, List.singleton_append]

theorem rowsFrom_inside (hfrag : ∀ d ∈ frag, ends d = false) (s : List α) :
    (∀ r ∈ (rowsFrom ends frag s).1, ∀ d ∈ r, ends d = false) ∧ ∀ d ∈ (rowsFrom ends frag s).2, ends d = false := by
  induction s generalizing frag with
  | nil => exact ⟨by rintro _ ⟨⟩, hfrag⟩
  | cons c s ih =>
      cases h : ends c with
      | true =>
          rw [rowsFrom_end h]
          obtain ⟨hrows, hlast⟩ := @ih [] (by rintro _ ⟨⟩)
          exact ⟨List.forall_mem_cons.mpr ⟨hfrag, hrows⟩, hlast⟩
      | false =>
          rw [rowsFrom_other h]
          refine ih fun d hd => ?_
          rcases List.mem_append.mp hd with hd | hd
          · exact hfrag d hd
          · exact List.mem_singleton.mp hd ▸ h

theorem rowsFrom_first (frag s : List α) :
    ∃ x, frag ++ x ∈ (rowsFrom ends frag s).1 ∨ frag ++ x = (rowsFrom ends frag s).2 := by
  induction s generalizing frag with
  | nil => exact ⟨[], .inr (List.append_nil frag)⟩
  | cons c s ih =>
      cases h : ends c with
      | true =>
          rw [rowsFrom_end h]
          exact ⟨[], .inl (by rw [List.append_nil]; exact List.mem_cons_self)⟩
      | false =>
          rw [rowsFrom_other h]
          obtain ⟨x, hx⟩ := ih (frag ++ [c])
          rw [List.append_assoc] at hx
          exact ⟨[c] ++ x, hx⟩

section Finer

def Left (ends' : α → Bool) (f g : List α) : Prop := g <:+ f ∧ ((∀ c ∈ f, ends' c = false) → g = f)

-- The rows with something to read in them are split by nothing more.
def Clean (ends' : α → Bool) (read : List α → Option β) (rows : List (List α) × List α) : Prop :=
  ∀ r, r ∈ rows.1 ∨ r = rows.2 → (∃ c ∈ r, ends' c = true) → ∀ g, g <:+: r → read g = none

variable {read : List α → Option β}

theorem Clean.append (h : Clean ends' read (rowsFrom ends frag (s ++ t))) :
    Clean ends' read (rowsFrom ends (rowsFrom ends frag s).2 t) := by
  intro r hr
  refine h r ?_
  rw [rowsFrom_append]
  exact hr.imp (List.mem_append_right _) id

theorem Clean.front (h : Clean ends' read (rowsFrom ends frag (s ++ t))) :
    Clean ends' read (rowsFrom ends frag s) := by
  intro r hr hbreak g hg
  rw [rowsFrom_append] at h
  rcases hr with hr | rfl
  · exact h r (.inl (List.mem_append_left _ hr)) hbreak g hg
  · obtain ⟨x, hx⟩ := @rowsFrom_first _ ends (rowsFrom ends frag s).2 t
    obtain ⟨c, hc, hend⟩ := hbreak
    refine h _ (hx.imp (List.mem_append_right _) id) ⟨c, List.mem_append_left x hc, hend⟩ g ?_
    exact hg.trans (List.prefix_append _ x).isInfix

theorem rowsFrom_finer (hsub : ∀ c, ends c = true → ends' c = true)
    (hleft : Left ends' f g) (hclean : Clean ends' read (rowsFrom ends f s)) :
    (rowsFrom ends' g s).1.filterMap read = (rowsFrom ends f s).1.filterMap read ∧
      Left ends' (rowsFrom ends f s).2 (rowsFrom ends' g s).2 := by
  induction s generalizing f g with
  | nil => exact ⟨rfl, hleft⟩
  | cons c s ih =>
      cases hend : ends c with
      | true =>
          rw [rowsFrom_end hend] at hclean ⊢
          rw [rowsFrom_end (hsub c hend)]
          have hsame : read g = read f := by
            by_cases hwhole : ∀ d ∈ f, ends' d = false
            · rw [hleft.2 hwhole]
            · simp only [not_forall, Bool.not_eq_false] at hwhole
              obtain ⟨d, hd, hbreak⟩ := hwhole
              have hdark := hclean f (.inl List.mem_cons_self) ⟨d, hd, hbreak⟩
              rw [hdark g hleft.1.isInfix, hdark f (List.infix_refl f)]
          have hrest : Clean ends' read (rowsFrom ends [] s) := fun r hr =>
            hclean r (hr.imp (List.mem_cons_of_mem _) id)
          obtain ⟨hrows, hfrag⟩ := ih ⟨List.suffix_refl [], fun _ => rfl⟩ hrest
          refine ⟨?_, hfrag⟩
          simp only [List.filterMap_cons, hsame, hrows]
      | false =>
          rw [rowsFrom_other hend] at hclean ⊢
          cases hbreak : ends' c with
          | true =>
              rw [rowsFrom_end hbreak]
              -- the row that comes of it has the end in it
              obtain ⟨x, hx⟩ := @rowsFrom_first _ ends (f ++ [c]) s
              have hdark := hclean _ hx ⟨c, by simp, hbreak⟩
              have hnone : read g = none := by
                refine hdark g (hleft.1.isInfix.trans ?_)
                rw [List.append_assoc]
                exact (List.prefix_append f _).isInfix
              obtain ⟨hrows, hfrag⟩ := ih ⟨List.nil_suffix, fun hall => by
                have := hall c (by simp)
                rw [hbreak] at this
                cases this⟩ hclean
              refine ⟨?_, hfrag⟩
              simp only [List.filterMap_cons, hnone, hrows]
          | false =>
              rw [rowsFrom_other hbreak]
              refine ih ⟨?_, fun hall => ?_⟩ hclean
              · obtain ⟨z, rfl⟩ := hleft.1
                exact ⟨z, by rw [List.append_assoc]⟩
              · rw [hleft.2 fun d hd => hall d (List.mem_append_left _ hd)]

end Finer

section Keep

theorem keep_step (c : α) (s : List α) : keep ends (c :: s) =
    if ends c then [c] :: keep ends s
    else match keep ends s with
      | [] => [[c]]
      | l :: ls => (c :: l) :: ls := rfl

theorem keep_end (h : ends c = true) (s : List α) : keep ends (c :: s) = [c] :: keep ends s := by
  rw [keep_step, if_pos h]

theorem flatten_keep (s : List α) : (keep ends s).flatten = s := by
  induction s with
  | nil => rfl
  | cons c s ih =>
      rw [keep_step]
      split
      · rw [List.flatten_cons, ih]
        rfl
      · split
        · rename_i hnil
          rw [hnil] at ih
          rw [← ih]
          rfl
        · rename_i l ls hcons
          rw [hcons] at ih
          rw [← ih]
          rfl

theorem keep_row (hfrag : ∀ d ∈ frag, ends d = false) (hc : ends c = true) (s : List α) :
    keep ends (frag ++ c :: s) = (frag ++ [c]) :: keep ends s := by
  induction frag with
  | nil => exact keep_end hc s
  | cons d frag ih =>
      have hd := hfrag d List.mem_cons_self
      rw [List.cons_append, keep_step, if_neg (by simp [hd]), ih fun e he => hfrag e (List.mem_cons_of_mem _ he)]
      rfl

theorem keep_frag (hfrag : ∀ d ∈ frag, ends d = false) : keep ends frag = if frag = [] then [] else [frag] := by
  induction frag with
  | nil => rfl
  | cons d frag ih =>
      have hd := hfrag d List.mem_cons_self
      rw [keep_step, if_neg (by simp [hd]), ih fun e he => hfrag e (List.mem_cons_of_mem _ he), if_neg (List.cons_ne_nil _ _)]
      cases frag <;> rfl

theorem body_end (hc : ends c = true) (r : List α) : body ends (r ++ [c]) = r := by
  rw [body, List.getLast?_concat, Option.any_some, if_pos hc, List.dropLast_concat]

theorem keep_rows (hfrag : ∀ d ∈ frag, ends d = false) (s : List α) :
    ∃ lines, keep ends (frag ++ s) = lines ++ (if (rowsFrom ends frag s).2 = [] then [] else [(rowsFrom ends frag s).2]) ∧
      lines.map (body ends) = (rowsFrom ends frag s).1 ∧ ∀ l ∈ lines, ∃ r c, ends c = true ∧ l = r ++ [c] := by
  induction s generalizing frag with
  | nil => exact ⟨[], by rw [List.append_nil, keep_frag hfrag]; rfl, rfl, by rintro _ ⟨⟩⟩
  | cons c s ih =>
      cases h : ends c with
      | true =>
          obtain ⟨lines, hkeep, hrows, hlines⟩ := @ih [] (by rintro _ ⟨⟩)
          rw [rowsFrom_end h]
          refine ⟨(frag ++ [c]) :: lines, ?_, by rw [List.map_cons, body_end h, hrows], ?_⟩
          · rw [keep_row hfrag h, ← List.nil_append s, hkeep]
            rfl
          · exact List.forall_mem_cons.mpr ⟨⟨frag, c, h, rfl⟩, hlines⟩
      | false =>
          have hnext : ∀ d ∈ frag ++ [c], ends d = false := by
            intro d hd
            rcases List.mem_append.mp hd with hd | hd
            · exact hfrag d hd
            · exact List.mem_singleton.mp hd ▸ h
          rw [rowsFrom_other h, List.append_cons]
          exact ih hnext

theorem keep_cons {l : List α} (h : keep ends s = l :: ls) : s = l ++ ls.flatten ∧ keep ends ls.flatten = ls ∧
    (ls ≠ [] → ∃ r c, l = r ++ [c] ∧ ends c = true ∧ ∀ d ∈ r, ends d = false) ∧ keep ends l = [l] := by
  induction s generalizing l with
  | nil => cases h
  | cons c s ih =>
      have hjoin := @flatten_keep _ ends (c :: s)
      rw [h, List.flatten_cons] at hjoin
      refine ⟨hjoin.symm, ?_⟩
      rw [keep_step] at h
      split at h
      · rename_i hc
        cases h
        exact ⟨by rw [flatten_keep], fun _ => ⟨[], c, rfl, hc, by rintro _ ⟨⟩⟩, keep_end hc []⟩
      · rename_i hc
        split at h
        · cases h
          exact ⟨rfl, fun hne => absurd rfl hne, by rw [keep_step, if_neg hc]; rfl⟩
        · rename_i l' ls' hcons
          cases h
          obtain ⟨-, hrest, hend, hself⟩ := ih hcons
          refine ⟨hrest, fun hne => ?_, by rw [keep_step, if_neg hc, hself]⟩
          obtain ⟨r, d, rfl, hd, hr⟩ := hend hne
          exact ⟨c :: r, d, rfl, hd, List.forall_mem_cons.mpr ⟨Bool.eq_false_iff.mpr hc, hr⟩⟩

theorem keep_suffix (h : keep ends s = ls' ++ ls) : keep ends ls.flatten = ls := by
  induction ls' generalizing s with
  | nil =>
      have hjoin := @flatten_keep _ ends s
      rw [h, List.nil_append] at hjoin
      rw [hjoin, h]
      rfl
  | cons l ls' ih => exact ih (keep_cons h).2.1

theorem keep_first (h : keep ends s = ls ++ ls') : keep ends ls.flatten = ls := by
  induction ls generalizing s with
  | nil => rfl
  | cons l ls ih =>
      obtain ⟨-, hrest, hend, hself⟩ := keep_cons h
      cases ls with
      | nil => rw [List.flatten_cons, List.flatten_nil, List.append_nil, hself]
      | cons l' ls =>
          obtain ⟨r, c, rfl, hc, hr⟩ := hend (by simp)
          rw [List.flatten_cons, List.append_assoc, List.singleton_append, keep_row hr hc, ih hrest]

theorem keep_append (hc : ends c = true) (s t : List α) : keep ends (s ++ c :: t) = keep ends (s ++ [c]) ++ keep ends t := by
  induction s with
  | nil => rw [List.nil_append, List.nil_append, keep_end hc, keep_end hc]; rfl
  | cons d s ih =>
      rw [List.cons_append, List.cons_append, keep_step, keep_step, ih]
      split
      · rfl
      · cases hkeep : keep ends (s ++ [c]) with
        | nil =>
            have hjoin := @flatten_keep _ ends (s ++ [c])
            rw [hkeep] at hjoin
            simp at hjoin
        | cons l ls => rfl

theorem keep_front (hfrag : ∀ d ∈ frag, ends d = false) {l : List α} (h : keep ends s = l :: ls) :
    keep ends (frag ++ s) = (frag ++ l) :: ls := by
  induction frag with
  | nil => exact h
  | cons d frag ih =>
      have hd := hfrag d List.mem_cons_self
      rw [List.cons_append, keep_step, if_neg (by simp [hd]), ih fun e he => hfrag e (List.mem_cons_of_mem _ he)]
      rfl

theorem count_le_keep [DecidableEq α] (hc : ends c = true) (s : List α) : s.count c ≤ (keep ends s).length := by
  induction s with
  | nil => exact Nat.le_refl _
  | cons d s ih =>
      rw [List.count_cons, keep_step]
      by_cases hd : ends d = true
      · rw [if_pos hd, List.length_cons]
        split <;> omega
      · have hne : ¬(d == c) = true := fun heq => hd ((beq_iff_eq.mp heq).symm ▸ hc)
        rw [if_neg hd, if_neg hne]
        split
        · rename_i hnil
          rw [hnil] at ih
          exact Nat.le_trans ih (Nat.zero_le _)
        · rename_i l ls hcons
          rw [hcons] at ih
          exact ih

end Keep

end Rows

end Lib
