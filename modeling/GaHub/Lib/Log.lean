import Mathlib.Data.List.Basic

namespace Lib

universe u

variable {α : Type u} {log more : List α} {a b c : α}

-- On an append-only log, `[a, b].Sublist log` reads "an `a`, and later a `b`".

private theorem ordered_of_append {xs : List α} (h : (xs ++ [a]).Sublist (log ++ more))
    (ha : a ∉ more) : (xs ++ [a]).Sublist log := by
  obtain ⟨front, back, heq, hfront, hback⟩ := List.sublist_append_iff.mp h
  rcases List.eq_nil_or_concat back with rfl | ⟨back, b, rfl⟩
  · rw [heq, List.append_nil]
    exact hfront
  · rw [List.concat_eq_append, ← List.append_assoc] at heq
    obtain ⟨_, hb⟩ := List.append_inj' heq rfl
    cases hb
    exact absurd (hback.subset (by simp)) ha

theorem ordered_of_concat {xs : List α} (h : (xs ++ [a]).Sublist (log ++ [b])) :
    (xs ++ [a]).Sublist log ∨ xs.Sublist log ∧ a = b := by
  obtain ⟨front, back, heq, hfront, hback⟩ := List.sublist_append_iff.mp h
  rcases List.sublist_singleton.mp hback with rfl | rfl
  · rw [List.append_nil] at heq
    exact Or.inl (heq ▸ hfront)
  · obtain ⟨rfl, hab⟩ := List.append_inj' heq rfl
    exact Or.inr ⟨hfront, List.singleton_inj.mp hab⟩

theorem pair_of_append (h : [a, b].Sublist (log ++ more)) (hb : b ∉ more) : [a, b].Sublist log :=
  @ordered_of_append _ log more b [a] h hb

theorem triple_of_append (h : [a, b, c].Sublist (log ++ more)) (hc : c ∉ more) : [a, b, c].Sublist log :=
  @ordered_of_append _ log more c [a, b] h hc

theorem pair_of_fresh (h : [a, b].Sublist (log ++ more)) (ha : a ∉ log) : [a, b].Sublist more := by
  obtain ⟨front, back, heq, hfront, hback⟩ := List.sublist_append_iff.mp h
  cases front with
  | nil =>
      rw [List.nil_append] at heq
      rw [heq]
      exact hback
  | cons c front =>
      obtain ⟨rfl, -⟩ := List.cons.inj heq
      exact absurd (hfront.subset List.mem_cons_self) ha

theorem pair_of_mem (ha : a ∈ log) (hb : b ∈ more) : [a, b].Sublist (log ++ more) :=
  (List.singleton_sublist.mpr ha).append (List.singleton_sublist.mpr hb)

theorem triple_of_mem (h : [a, b].Sublist log) (hc : c ∈ more) : [a, b, c].Sublist (log ++ more) :=
  h.append (List.singleton_sublist.mpr hc)

theorem ordered_grow {xs : List α} (h : xs.Sublist log) : xs.Sublist (log ++ more) :=
  h.trans (List.sublist_append_left log more)

-- On a log with its newest entry first, what each entry says of the older ones.
def Each (P : α → List α → Prop) : List α → Prop
  | [] => True
  | a :: older => P a older ∧ Each P older

theorem Each.split {P : α → List α → Prop} {newer older : List α} (h : Each P log)
    (heq : log = newer ++ a :: older) : P a older := by
  subst heq
  induction newer with
  | nil => exact h.1
  | cons b newer ih => exact ih h.2

-- After every marked entry there is a good one.
def Since (mark good : α → Prop) (log : List α) : Prop :=
  ∀ newer e older, log = newer ++ e :: older → mark e → ∃ n ∈ newer, good n

namespace Since

variable {mark good : α → Prop}

theorem of_none (h : ∀ n ∈ log, ¬mark n) : Since mark good log := by
  intro newer e older heq he
  exact absurd he (h e (by simp [heq]))

theorem cons (h : Since mark good log) (ha : ¬mark a) : Since mark good (a :: log) := by
  intro newer e older heq he
  cases newer with
  | nil =>
      cases heq
      exact absurd he ha
  | cons b newer =>
      obtain ⟨rfl, hrest⟩ := List.cons.inj heq
      obtain ⟨n, hn, hgood⟩ := h newer e older hrest he
      exact ⟨n, List.mem_cons_of_mem a hn, hgood⟩

theorem cons_good (hgood : good a) (ha : ¬mark a) : Since mark good (a :: log) := by
  intro newer e older heq he
  cases newer with
  | nil =>
      cases heq
      exact absurd he ha
  | cons b newer =>
      obtain ⟨rfl, _⟩ := List.cons.inj heq
      exact ⟨a, List.mem_cons_self, hgood⟩

end Since

end Lib
