import Mathlib.Data.List.Forall2
import Mathlib.Data.List.Perm.Basic

namespace Lib

universe u

variable {α : Type u}

-- Every element of the first list has its own successor in the second one, in any order and among others.
def Carries (R : α → α → Prop) (l l' : List α) : Prop :=
  ∃ kept extra, List.Forall₂ R l kept ∧ l'.Perm (kept ++ extra)

namespace Carries

variable {R : α → α → Prop} {l l' l'' : List α}

theorem of_forall₂ (h : List.Forall₂ R l l') : Carries R l l' := ⟨l', [], h, by simp⟩

theorem map {f : α → α} (h : ∀ x ∈ l, R x (f x)) : Carries R l (l.map f) := by
  refine of_forall₂ ?_
  rw [List.forall₂_map_right_iff]
  exact List.forall₂_same.mpr h

theorem append_right (hrefl : ∀ x, R x x) (l extra : List α) : Carries R l (l ++ extra) :=
  ⟨l, extra, List.forall₂_same.mpr fun x _ => hrefl x, .refl _⟩

theorem refl (hrefl : ∀ x, R x x) (l : List α) : Carries R l l := ⟨l, [], List.forall₂_same.mpr fun x _ => hrefl x, by simp⟩

theorem perm (hrefl : ∀ x, R x x) (h : l'.Perm l) : Carries R l l' :=
  ⟨l, [], List.forall₂_same.mpr fun x _ => hrefl x, by simpa using h⟩

theorem modify (hrefl : ∀ x, R x x) {f : α → α} {i : Nat} (h : ∀ x, l[i]? = some x → R x (f x)) :
    Carries R l (l.modify i f) := by
  refine of_forall₂ ?_
  induction l generalizing i with
  | nil => simp
  | cons x l ih =>
      cases i with
      | zero =>
          rw [List.modify_zero_cons]
          exact .cons (h x rfl) (List.forall₂_same.mpr fun y _ => hrefl y)
      | succ i =>
          rw [List.modify_succ_cons]
          exact .cons (hrefl x) (ih fun y hy => h y (by simpa using hy))

theorem set (hrefl : ∀ x, R x x) {y : α} {i : Nat} (h : ∀ x, l[i]? = some x → R x y) : Carries R l (l.set i y) := by
  refine of_forall₂ ?_
  induction l generalizing i with
  | nil => simp
  | cons x l ih =>
      cases i with
      | zero => exact .cons (h x rfl) (List.forall₂_same.mpr fun y _ => hrefl y)
      | succ i => exact .cons (hrefl x) (ih fun y hy => h y (by simpa using hy))

theorem trans (htrans : ∀ x y z, R x y → R y z → R x z) (h : Carries R l l') (h' : Carries R l' l'') :
    Carries R l l'' := by
  obtain ⟨kept, extra, hkept, hperm⟩ := h
  obtain ⟨kept', extra', hkept', hperm'⟩ := h'
  -- the successors of the second step, in the order of the first
  obtain ⟨moved, hmoved, hsame⟩ := List.perm_comp_forall₂ hperm.symm hkept'
  obtain ⟨front, back, hfront, _, rfl⟩ : ∃ front back, List.Forall₂ R kept front ∧ List.Forall₂ R extra back ∧
      moved = front ++ back := by
    refine ⟨moved.take kept.length, moved.drop kept.length, ?_, ?_, (List.take_append_drop _ _).symm⟩
    · have h := List.forall₂_take kept.length hmoved
      rwa [List.take_left] at h
    · have h := List.forall₂_drop kept.length hmoved
      rwa [List.drop_left] at h
  refine ⟨front, back ++ extra', ?_, ?_⟩
  · have hlength : kept.length = l.length := hkept.length_eq.symm
    clear hperm hperm' hsame hmoved
    induction hkept generalizing front with
    | nil =>
        cases hfront
        exact .nil
    | cons hxy _ ih =>
        cases hfront with
        | cons hyz hrest => exact .cons (htrans _ _ _ hxy hyz) (ih _ hrest (by simpa using hlength))
  · refine hperm'.trans ?_
    rw [← List.append_assoc]
    exact (hsame.symm.append_right extra')

theorem exists_of_mem (h : Carries R l l') {x : α} (hx : x ∈ l) : ∃ y ∈ l', R x y := by
  obtain ⟨kept, extra, hkept, hperm⟩ := h
  suffices hsome : ∃ y ∈ kept, R x y by
    obtain ⟨y, hy, hxy⟩ := hsome
    exact ⟨y, hperm.mem_iff.mpr (List.mem_append_left _ hy), hxy⟩
  clear hperm
  induction hkept with
  | nil => cases hx
  | cons hab _ ih =>
      rcases List.mem_cons.mp hx with rfl | hx
      · exact ⟨_, List.mem_cons_self, hab⟩
      · obtain ⟨y, hy, hxy⟩ := ih hx
        exact ⟨y, List.mem_cons_of_mem _ hy, hxy⟩

end Carries

end Lib
