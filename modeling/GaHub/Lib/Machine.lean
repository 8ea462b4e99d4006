import Mathlib.Data.List.Basic

namespace Lib

universe u v

-- A deterministic labelled machine. The label carries every choice of the
-- environment, so a run is a list of labels; `none` means the label is not enabled.
structure Machine (σ : Type u) (ι : Type v) where
  start : σ
  next : σ → ι → Option σ

namespace Machine

variable {σ : Type u} {ι : Type v}

def run (M : Machine σ ι) : σ → List ι → Option σ
  | s, [] => some s
  | s, a :: as => (M.next s a).bind fun t => M.run t as

theorem run_cons (M : Machine σ ι) (s : σ) (a : ι) (as : List ι) :
    M.run s (a :: as) = (M.next s a).bind fun t => M.run t as := rfl

def Reachable (M : Machine σ ι) (s : σ) : Prop := ∃ as, M.run M.start as = some s

-- The runs all of whose steps meet a condition on the label and the state before it.
def restrict (M : Machine σ ι) (ok : σ → ι → Prop) [∀ s a, Decidable (ok s a)] : Machine σ ι where
  start := M.start
  next s a := if ok s a then M.next s a else none

theorem restrict_next {M : Machine σ ι} {ok : σ → ι → Prop} [∀ s a, Decidable (ok s a)]
    {s t : σ} {a : ι} (h : (M.restrict ok).next s a = some t) : ok s a ∧ M.next s a = some t := by
  simp only [restrict] at h
  split at h
  · exact ⟨‹_›, h⟩
  · cases h

theorem run_append (M : Machine σ ι) (s : σ) (as bs : List ι) :
    M.run s (as ++ bs) = (M.run s as).bind fun t => M.run t bs := by
  induction as generalizing s with
  | nil => rfl
  | cons a as ih =>
      simp only [List.cons_append, run_cons]
      cases M.next s a with
      | none => rfl
      | some t => simpa using ih t

theorem run_trans {M : Machine σ ι} {s t u : σ} {as bs : List ι} (h : M.run s as = some t) (h' : M.run t bs = some u) :
    M.run s (as ++ bs) = some u := by
  rw [run_append, h, Option.bind_some, h']

theorem run_of_restrict {M : Machine σ ι} {ok : σ → ι → Prop} [∀ s a, Decidable (ok s a)] {s t : σ} {as : List ι}
    (h : (M.restrict ok).run s as = some t) : M.run s as = some t := by
  induction as generalizing s with
  | nil => exact h
  | cons a as ih =>
      simp only [run_cons] at h ⊢
      obtain ⟨u, hu, hrest⟩ := Option.bind_eq_some_iff.mp h
      rw [(restrict_next hu).2, Option.bind_some]
      exact ih hrest

theorem restrict_run {M : Machine σ ι} {ok : σ → ι → Prop} [∀ s a, Decidable (ok s a)] (P bad : σ → Prop)
    (hkeep : ∀ s a t, P s → M.next s a = some t → P t)
    (hbreak : ∀ s a t, P s → M.next s a = some t → ¬ok s a → bad t)
    (hstay : ∀ s a t, P s → M.next s a = some t → bad s → bad t) {as : List ι} {s t : σ} (hs : P s)
    (h : M.run s as = some t) (hgood : ¬bad t) : (M.restrict ok).run s as = some t := by
  have hlast : ∀ (as : List ι) {s : σ}, P s → bad s → M.run s as = some t → bad t := by
    intro as
    induction as with
    | nil =>
        intro s _ hbad h
        cases h
        exact hbad
    | cons a as ih =>
        intro s hs hbad h
        obtain ⟨u, hu, hrest⟩ := Option.bind_eq_some_iff.mp h
        exact ih (hkeep s a u hs hu) (hstay s a u hs hu hbad) hrest
  induction as generalizing s with
  | nil => exact h
  | cons a as ih =>
      obtain ⟨u, hu, hrest⟩ := Option.bind_eq_some_iff.mp h
      have hok : ok s a := by_contra fun hnot => hgood (hlast as (hkeep s a u hs hu) (hbreak s a u hs hu hnot) hrest)
      simp only [run_cons, restrict, if_pos hok, hu, Option.bind_some]
      exact ih (hkeep s a u hs hu) hrest

theorem run_invariant {M : Machine σ ι} {P : σ → Prop}
    (hstep : ∀ s a t, P s → M.next s a = some t → P t) :
    ∀ (as : List ι) {s t : σ}, P s → M.run s as = some t → P t := by
  intro as
  induction as with
  | nil =>
      intro s t hs h
      cases h
      exact hs
  | cons a as ih =>
      intro s t hs h
      simp only [run_cons] at h
      cases ha : M.next s a with
      | none => simp [ha] at h
      | some m =>
          rw [ha] at h
          exact ih (hstep s a m hs ha) h

theorem reachable_start (M : Machine σ ι) : M.Reachable M.start := ⟨[], rfl⟩

theorem Reachable.next {M : Machine σ ι} {s t : σ} {a : ι} (hs : M.Reachable s)
    (h : M.next s a = some t) : M.Reachable t := by
  obtain ⟨as, has⟩ := hs
  refine ⟨as ++ [a], ?_⟩
  rw [run_append, has, Option.bind_some, run_cons, h]
  rfl

theorem Reachable.run {M : Machine σ ι} {s t : σ} (hs : M.Reachable s) {as : List ι} (h : M.run s as = some t) :
    M.Reachable t := by
  obtain ⟨bs, hbs⟩ := hs
  exact ⟨bs ++ as, run_trans hbs h⟩

theorem Reachable.invariant {M : Machine σ ι} {P : σ → Prop} {s : σ} (hs : M.Reachable s)
    (h₀ : P M.start) (hstep : ∀ s a t, P s → M.next s a = some t → P t) : P s := by
  obtain ⟨as, has⟩ := hs
  exact run_invariant hstep as h₀ has

theorem Reachable.invariant_with {M : Machine σ ι} {P Q : σ → Prop} {s : σ} (hs : M.Reachable s)
    (hQ : ∀ {s}, M.Reachable s → Q s) (h₀ : P M.start)
    (hstep : ∀ s a t, P s → Q s → M.next s a = some t → P t) : P s := by
  have hboth := hs.invariant (P := fun s => P s ∧ M.Reachable s) ⟨h₀, M.reachable_start⟩
    fun s a t h ha => ⟨hstep s a t h.1 (hQ h.2) ha, h.2.next ha⟩
  exact hboth.1

theorem Reachable.of_restrict {M : Machine σ ι} {ok : σ → ι → Prop} [∀ s a, Decidable (ok s a)]
    {s : σ} (hs : (M.restrict ok).Reachable s) : M.Reachable s :=
  Reachable.invariant hs M.reachable_start fun _ _ _ ht h => ht.next (restrict_next h).2

end Machine

end Lib
