import Mathlib.Data.List.Basic

namespace Lib

universe u

variable {α : Type u}

theorem exists_of_findIdx? {p : α → Bool} {l : List α} {i : Nat} (h : l.findIdx? p = some i) :
    ∃ front x back, l = front ++ x :: back ∧ front.length = i ∧ p x = true ∧ (∀ y ∈ front, p y = false) ∧
      ∀ f : α → α, l.modify i f = front ++ f x :: back := by
  induction l generalizing i with
  | nil => simp at h
  | cons y l ih =>
      rw [List.findIdx?_cons] at h
      cases hy : p y with
      | true =>
          simp only [hy, if_true, Option.some.injEq] at h
          subst h
          exact ⟨[], y, l, rfl, rfl, hy, by simp, fun f => rfl⟩
      | false =>
          simp only [hy, Bool.false_eq_true, if_false, Option.map_eq_some_iff] at h
          obtain ⟨j, hj, rfl⟩ := h
          obtain ⟨front, x, back, rfl, hlength, hx, hfront, hmodify⟩ := ih hj
          refine ⟨y :: front, x, back, rfl, by simp [hlength], hx, ?_, fun f => ?_⟩
          · intro z hz
            rcases List.mem_cons.mp hz with rfl | hz
            · exact hy
            · exact hfront z hz
          · rw [List.modify_succ_cons, hmodify]
            rfl

theorem findIdx?_split {p : α → Bool} {front : List α} {x : α} (hfront : ∀ y ∈ front, p y = false) (hx : p x = true)
    (back : List α) : (front ++ x :: back).findIdx? p = some front.length := by
  rw [List.findIdx?_append, List.findIdx?_eq_none_iff.mpr hfront, List.findIdx?_cons, if_pos hx]
  simp

theorem exists_split_at {l : List α} {i : Nat} (h : i < l.length) :
    ∃ front x back, l = front ++ x :: back ∧ front.length = i := by
  refine ⟨l.take i, l[i], l.drop (i + 1), ?_, ?_⟩
  · rw [← List.drop_eq_getElem_cons h, List.take_append_drop]
  · rw [List.length_take]
    omega

theorem modify_length (front : List α) (x : α) (back : List α) (f : α → α) :
    (front ++ x :: back).modify front.length f = front ++ f x :: back := by
  induction front with
  | nil => rfl
  | cons y front ih => rw [List.cons_append, List.length_cons, List.modify_succ_cons, ih, List.cons_append]

variable {l : List α} {i j : Nat} {x y : α}

theorem getElem?_grow (h : l[i]? = some x) (more : List α) : (l ++ more)[i]? = some x := by
  rw [List.getElem?_append_left (List.getElem?_eq_some_iff.mp h).1]
  exact h

theorem getElem?_concat (h : (l ++ [y])[i]? = some x) : l[i]? = some x ∨ i = l.length ∧ x = y := by
  rcases Nat.lt_or_ge i l.length with hlt | hge
  · rw [List.getElem?_append_left hlt] at h
    exact Or.inl h
  · rw [List.getElem?_append_right hge, List.getElem?_singleton] at h
    split at h
    · rename_i hzero
      exact Or.inr ⟨by omega, (Option.some.inj h).symm⟩
    · cases h

theorem getElem?_modify_cases {f : α → α} (h : (l.modify i f)[j]? = some y) :
    (j = i ∧ ∃ x, l[i]? = some x ∧ y = f x) ∨ (j ≠ i ∧ l[j]? = some y) := by
  rw [List.getElem?_modify] at h
  obtain ⟨x, hx, hy⟩ := Option.map_eq_some_iff.mp h
  by_cases hij : i = j
  · subst hij
    exact Or.inl ⟨rfl, x, hx, by simpa using hy.symm⟩
  · rw [if_neg hij] at hy
    exact Or.inr ⟨Ne.symm hij, hx.trans (congrArg some hy)⟩

theorem place_unique {β : Type*} {g : α → β} (h : (l.map g).Nodup) (hi : l[i]? = some x) (hj : l[j]? = some y)
    (heq : g x = g y) : i = j := by
  have hlt : i < (l.map g).length := by
    rw [List.length_map]
    exact (List.getElem?_eq_some_iff.mp hi).1
  refine (List.getElem?_inj hlt h).mp ?_
  rw [List.getElem?_map, List.getElem?_map, hi, hj, Option.map_some, Option.map_some, heq]

theorem map_modify_eq {β : Type*} {f : α → α} {g : α → β} (h : ∀ x, g (f x) = g x) (l : List α) (i : Nat) :
    (l.modify i f).map g = l.map g := by
  apply List.ext_getElem?
  intro j
  rw [List.getElem?_map, List.getElem?_map, List.getElem?_modify]
  cases l[j]? with
  | none => rfl
  | some x =>
      by_cases hij : i = j
      · simp [hij, h]
      · simp [hij]

theorem mem_modify_cases {f : α → α} (h : y ∈ l.modify i f) : (∃ x, l[i]? = some x ∧ y = f x) ∨ y ∈ l := by
  obtain ⟨j, hj⟩ := List.getElem?_of_mem h
  rcases getElem?_modify_cases hj with ⟨-, hx⟩ | ⟨-, hy⟩
  · exact Or.inl hx
  · exact Or.inr (List.mem_of_getElem? hy)

end Lib
