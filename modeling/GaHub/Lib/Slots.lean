import Mathlib.Data.List.Basic

namespace Lib

universe u v

variable {α : Type u} {β : Type v}

-- A table of slots in which one entry is rewritten and at most one is added.
def replaceSlot (xs : List α) (i : Nat) (a : α) (added : Option α) : List α :=
  xs.set i a ++ added.toList

theorem replaceSlot_cases {xs : List α} {i j : Nat} {a b : α} {added : Option α}
    (h : (replaceSlot xs i a added)[j]? = some b) :
    (j = i ∧ b = a) ∨ (j ≠ i ∧ xs[j]? = some b) ∨ (j = xs.length ∧ added = some b) := by
  unfold replaceSlot at h
  by_cases hj : j < xs.length
  · rw [List.getElem?_append_left (by simpa using hj), List.getElem?_set] at h
    split at h
    · rename_i hij
      split at h <;> cases h
      exact Or.inl ⟨hij.symm, rfl⟩
    · exact Or.inr (Or.inl ⟨Ne.symm ‹_›, h⟩)
  · rw [List.getElem?_append_right (by simpa using hj), List.length_set] at h
    cases added with
    | none => simp at h
    | some c =>
        simp only [Option.toList_some, List.getElem?_singleton] at h
        split at h <;> cases h
        exact Or.inr (Or.inr ⟨by omega, rfl⟩)

theorem mem_replaceSlot {xs : List α} {i : Nat} {a b : α} {added : Option α}
    (h : b ∈ replaceSlot xs i a added) : b = a ∨ b ∈ xs ∨ added = some b := by
  rcases List.mem_append.mp h with h | h
  · rcases List.mem_or_eq_of_mem_set h with h | h
    · exact Or.inr (Or.inl h)
    · exact Or.inl h
  · exact Or.inr (Or.inr (by simpa using h))

theorem replaceSlot_self {xs : List α} {i : Nat} {a b : α} {added : Option α} (h : xs[i]? = some b) :
    (replaceSlot xs i a added)[i]? = some a := by
  obtain ⟨hi, _⟩ := List.getElem?_eq_some_iff.mp h
  unfold replaceSlot
  rw [List.getElem?_append_left (by simpa using hi), List.getElem?_set_self hi]

theorem replaceSlot_ne {xs : List α} {i j : Nat} {a b : α} {added : Option α} (hne : j ≠ i)
    (h : xs[j]? = some b) : (replaceSlot xs i a added)[j]? = some b := by
  obtain ⟨hj, _⟩ := List.getElem?_eq_some_iff.mp h
  unfold replaceSlot
  rw [List.getElem?_append_left (by simpa using hj), List.getElem?_set_ne (Ne.symm hne)]
  exact h

theorem replaceSlot_added (xs : List α) (i : Nat) (a b : α) : (replaceSlot xs i a (some b))[xs.length]? = some b := by
  unfold replaceSlot
  rw [List.getElem?_append_right (by simp), List.length_set, Nat.sub_self]
  rfl

theorem countP_replaceSlot {xs : List α} {i : Nat} (a : α) {b : α} (added : Option α) (p : α → Bool)
    (h : xs[i]? = some b) (hadded : ∀ c, added = some c → p c = false) :
    (replaceSlot xs i a added).countP p + (if p b then 1 else 0) =
      xs.countP p + (if p a then 1 else 0) := by
  obtain ⟨hi, hb⟩ := List.getElem?_eq_some_iff.mp h
  have hzero : added.toList.countP p = 0 := by
    cases added with
    | none => rfl
    | some c => simp [hadded c rfl]
  have hle : (if p b then 1 else 0) ≤ xs.countP p := by
    split
    · exact List.countP_pos_iff.mpr ⟨b, hb ▸ List.getElem_mem hi, ‹_›⟩
    · exact Nat.zero_le _
  unfold replaceSlot
  rw [List.countP_append, hzero, List.countP_set hi, hb]
  omega

theorem countP_unique {xs : List α} {p : α → Bool} (h : xs.countP p ≤ 1) {i j : Nat} {a b : α} (hi : xs[i]? = some a)
    (hj : xs[j]? = some b) (ha : p a = true) (hb : p b = true) : i = j := by
  induction xs generalizing i j with
  | nil => simp at hi
  | cons x xs ih =>
      have hrest : p x = true → xs.countP p = 0 := by
        intro hx
        rw [List.countP_cons_of_pos hx] at h
        omega
      have habsent : ∀ {k : Nat} {c : α}, p x = true → xs[k]? = some c → p c = true → False := by
        intro k c hx hk hc
        exact List.countP_eq_zero.mp (hrest hx) c (List.mem_of_getElem? hk) hc
      cases i with
      | zero =>
          cases j with
          | zero => rfl
          | succ j =>
              cases hi
              exact (habsent ha hj hb).elim
      | succ i =>
          cases j with
          | zero =>
              cases hj
              exact (habsent hb hi ha).elim
          | succ j =>
              have hle : xs.countP p ≤ 1 := by
                rw [List.countP_cons] at h
                omega
              exact congrArg (· + 1) (ih hle hi hj)

def Exclusive (f : α → Option β) (xs : List α) : Prop :=
  ∀ (i j : Nat) a b t, xs[i]? = some a → xs[j]? = some b → f a = some t → f b = some t → i = j

theorem Exclusive.nil (f : α → Option β) : Exclusive f [] := by
  intro i j a b t hi
  simp at hi

theorem getElem?_concat_cases {xs : List α} {a b : α} {i : Nat} (h : (xs ++ [a])[i]? = some b) :
    xs[i]? = some b ∨ (i = xs.length ∧ b = a) := by
  rcases Nat.lt_or_ge i xs.length with hlt | hge
  · rw [List.getElem?_append_left hlt] at h
    exact Or.inl h
  · rw [List.getElem?_append_right hge, List.getElem?_singleton] at h
    split at h <;> cases h
    exact Or.inr ⟨by omega, rfl⟩

theorem Exclusive.append {f : α → Option β} {xs : List α} (h : Exclusive f xs) {a : α}
    (hnew : ∀ t, f a = some t → ∀ b ∈ xs, f b ≠ some t) : Exclusive f (xs ++ [a]) := by
  intro i j b c t hi hj hb hc
  rcases getElem?_concat_cases hi with hi' | ⟨rfl, rfl⟩ <;>
    rcases getElem?_concat_cases hj with hj' | ⟨rfl, rfl⟩
  · exact h i j b c t hi' hj' hb hc
  · exact absurd hb (hnew t hc b (List.mem_of_getElem? hi'))
  · exact absurd hc (hnew t hb c (List.mem_of_getElem? hj'))
  · rfl

theorem Exclusive.replaceSlot {f : α → Option β} {xs : List α} (h : Exclusive f xs) {i : Nat}
    {a b : α} {added : Option α} (hb : xs[i]? = some b)
    (hkeep : ∀ t, f a = some t → f b = some t)
    (hadded : ∀ c t, added = some c → f c = some t → f b = some t ∧ f a ≠ some t) :
    Exclusive f (replaceSlot xs i a added) := by
  intro j k c d t hj hk hc hd
  rcases replaceSlot_cases hj with ⟨rfl, rfl⟩ | ⟨hji, hj'⟩ | ⟨rfl, hj'⟩ <;>
    rcases replaceSlot_cases hk with ⟨rfl, rfl⟩ | ⟨hki, hk'⟩ | ⟨rfl, hk'⟩
  · rfl
  · exact h _ _ _ _ t hb hk' (hkeep t hc) hd
  · exact absurd hc (hadded d t hk' hd).2
  · exact h _ _ _ _ t hj' hb hc (hkeep t hd)
  · exact h _ _ _ _ t hj' hk' hc hd
  · exact absurd (h _ _ _ _ t hj' hb hc (hadded d t hk' hd).1) hji
  · exact absurd hd (hadded c t hj' hc).2
  · exact absurd (h _ _ _ _ t hk' hb hd (hadded c t hj' hc).1) hki
  · rfl

end Lib
