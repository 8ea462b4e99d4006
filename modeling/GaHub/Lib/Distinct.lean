import Mathlib.Data.List.Basic
import Mathlib.Data.List.Nodup

namespace Lib

universe u v

variable {α : Type u} {β : Type v} [DecidableEq β]

-- The first element of each key that was not seen; elements without a key all stay.
def distinctOn (f : α → Option β) (seen : List β) : List α → List α
  | [] => []
  | x :: rest =>
      match f x with
      | none => x :: distinctOn f seen rest
      | some k => if k ∈ seen then distinctOn f seen rest else x :: distinctOn f (k :: seen) rest

section Distinct

variable {f : α → Option β}

theorem distinctOn_nil (seen : List β) : distinctOn f seen [] = [] := rfl

theorem distinctOn_cons (seen : List β) (x : α) (rest : List α) : distinctOn f seen (x :: rest) =
    match f x with
    | none => x :: distinctOn f seen rest
    | some k => if k ∈ seen then distinctOn f seen rest else x :: distinctOn f (k :: seen) rest := rfl

theorem mem_of_mem_distinctOn {seen : List β} {l : List α} {x : α} (h : x ∈ distinctOn f seen l) : x ∈ l := by
  induction l generalizing seen with
  | nil => exact h
  | cons y rest ih =>
      cases hy : f y with
      | none =>
          simp only [distinctOn_cons, hy] at h
          exact (List.mem_cons.mp h).elim (fun h => h ▸ List.mem_cons_self) fun h => List.mem_cons_of_mem _ (ih h)
      | some k =>
          simp only [distinctOn_cons, hy] at h
          split at h
          · exact List.mem_cons_of_mem _ (ih h)
          · exact (List.mem_cons.mp h).elim (fun h => h ▸ List.mem_cons_self) fun h => List.mem_cons_of_mem _ (ih h)

theorem distinctOn_congr (l : List α) {seen seen' : List β} (h : ∀ k, k ∈ seen ↔ k ∈ seen') :
    distinctOn f seen l = distinctOn f seen' l := by
  induction l generalizing seen seen' with
  | nil => rfl
  | cons x rest ih =>
      cases hx : f x with
      | none => simp only [distinctOn_cons, hx, ih h]
      | some k =>
          have hmore : ∀ j, j ∈ k :: seen ↔ j ∈ k :: seen' := fun j => by simp only [List.mem_cons, h]
          simp only [distinctOn_cons, hx, h k, ih h, ih hmore]

theorem distinctOn_append (seen : List β) (l l' : List α) :
    distinctOn f seen (l ++ l') = distinctOn f seen l ++ distinctOn f (l.filterMap f ++ seen) l' := by
  induction l generalizing seen with
  | nil => rfl
  | cons x rest ih =>
      cases hx : f x with
      | none => simp only [List.cons_append, distinctOn_cons, hx, ih, List.filterMap_cons]
      | some k =>
          simp only [List.cons_append, distinctOn_cons, hx, ih, List.filterMap_cons]
          by_cases hk : k ∈ seen
          · rw [if_pos hk, if_pos hk]
            refine congrArg _ (distinctOn_congr l' fun j => ?_)
            simp only [List.mem_append, List.mem_cons]
            constructor
            · tauto
            · rintro (rfl | h)
              · exact Or.inr hk
              · exact h
          · rw [if_neg hk, if_neg hk, List.cons_append]
            refine congrArg _ (congrArg _ (distinctOn_congr l' fun j => ?_))
            simp only [List.mem_append, List.mem_cons]
            tauto

theorem distinctOn_concat (l : List α) (x : α) :
    distinctOn f [] (l ++ [x]) =
      if (f x).any fun k => decide (k ∈ l.filterMap f) then distinctOn f [] l else distinctOn f [] l ++ [x] := by
  rw [distinctOn_append, List.append_nil]
  cases hx : f x with
  | none => simp [distinctOn_cons, distinctOn_nil, hx]
  | some k =>
      by_cases hk : k ∈ l.filterMap f
      · simp only [distinctOn_cons, distinctOn_nil, hx, hk, if_true, Option.any_some, decide_true, List.append_nil]
      · simp only [distinctOn_cons, distinctOn_nil, hx, hk, if_false, Option.any_some, decide_false, Bool.false_eq_true]

theorem distinctOn_map {γ : Type*} {f' : γ → Option β} {g : α → γ} (hg : ∀ x, f' (g x) = f x) (seen : List β)
    (l : List α) : distinctOn f' seen (l.map g) = (distinctOn f seen l).map g := by
  induction l generalizing seen with
  | nil => rfl
  | cons x rest ih =>
      cases hx : f x with
      | none => simp only [List.map_cons, distinctOn_cons, hg, hx, ih]
      | some k =>
          simp only [List.map_cons, distinctOn_cons, hg, hx, ih]
          split <;> rfl

theorem distinctOn_of_seen {seen : List β} (l : List α) (h : ∀ x ∈ l, ∃ k ∈ seen, f x = some k) :
    distinctOn f seen l = [] := by
  induction l with
  | nil => rfl
  | cons x rest ih =>
      obtain ⟨k, hk, hx⟩ := h x (by simp)
      simp only [distinctOn_cons, hx, hk, if_true]
      exact ih fun y hy => h y (List.mem_cons_of_mem _ hy)

theorem distinctOn_of_nodup {seen : List β} (l : List α) (hnodup : (l.filterMap f).Nodup)
    (hseen : ∀ k ∈ l.filterMap f, k ∉ seen) : distinctOn f seen l = l := by
  induction l generalizing seen with
  | nil => rfl
  | cons x rest ih =>
      cases hx : f x with
      | none =>
          simp only [List.filterMap_cons, hx] at hnodup hseen
          simp only [distinctOn_cons, hx, ih hnodup hseen]
      | some k =>
          simp only [List.filterMap_cons, hx, List.nodup_cons] at hnodup hseen
          simp only [distinctOn_cons, hx, if_neg (hseen k (by simp))]
          rw [ih hnodup.2]
          intro j hj
          simp only [List.mem_cons, not_or]
          refine ⟨fun h => ?_, hseen j (List.mem_cons_of_mem _ hj)⟩
          rw [h] at hj
          exact hnodup.1 hj

theorem mem_keys_distinctOn (seen : List β) (l : List α) (k : β) :
    k ∈ (distinctOn f seen l).filterMap f ∨ k ∈ seen ↔ k ∈ l.filterMap f ∨ k ∈ seen := by
  induction l generalizing seen with
  | nil => rfl
  | cons x rest ih =>
      cases hx : f x with
      | none =>
          simp only [distinctOn_cons, hx, List.filterMap_cons]
          exact ih seen
      | some j =>
          simp only [distinctOn_cons, hx, List.filterMap_cons, List.mem_cons]
          by_cases hj : j ∈ seen
          · rw [if_pos hj, ih seen]
            constructor
            · tauto
            · rintro ((rfl | h) | h)
              · exact Or.inr hj
              · exact Or.inl h
              · exact Or.inr h
          · rw [if_neg hj, List.filterMap_cons, hx]
            have hrest := ih (j :: seen)
            simp only [List.mem_cons] at hrest ⊢
            tauto

theorem nodup_keys_distinctOn (seen : List β) (l : List α) :
    ((distinctOn f seen l).filterMap f).Nodup ∧ ∀ k ∈ (distinctOn f seen l).filterMap f, k ∉ seen := by
  induction l generalizing seen with
  | nil => simp [distinctOn_nil]
  | cons x rest ih =>
      cases hx : f x with
      | none =>
          simp only [distinctOn_cons, hx, List.filterMap_cons]
          exact ih seen
      | some k =>
          simp only [distinctOn_cons, hx]
          by_cases hk : k ∈ seen
          · rw [if_pos hk]
            exact ih seen
          · obtain ⟨hnodup, hseen⟩ := ih (k :: seen)
            rw [if_neg hk, List.filterMap_cons, hx]
            refine ⟨List.nodup_cons.mpr ⟨fun h => hseen k h (by simp), hnodup⟩, fun j hj => ?_⟩
            rcases List.mem_cons.mp hj with rfl | hj
            · exact hk
            · exact fun h => hseen j hj (List.mem_cons_of_mem _ h)

theorem filter_distinctOn (seen : List β) (l : List α) (k : β) (hk : k ∉ seen) :
    (distinctOn f seen l).filter (fun x => decide (f x = some k)) =
      (l.filter fun x => decide (f x = some k)).take 1 := by
  induction l generalizing seen with
  | nil => rfl
  | cons x rest ih =>
      cases hx : f x with
      | none => simp [distinctOn_cons, hx, ih seen hk]
      | some j =>
          simp only [distinctOn_cons, hx]
          by_cases hj : j = k
          · subst hj
            have hnone : (distinctOn f (j :: seen) rest).filter (fun x => decide (f x = some j)) = [] := by
              refine List.filter_eq_nil_iff.mpr fun y hy => ?_
              have hseen := (nodup_keys_distinctOn (f := f) (j :: seen) rest).2
              intro h
              exact hseen j (List.mem_filterMap.mpr ⟨y, hy, of_decide_eq_true h⟩) (by simp)
            simp [hk, hx, hnone]
          · have hother : k ∉ j :: seen := by
              simp only [List.mem_cons, not_or]
              exact ⟨fun h => hj h.symm, hk⟩
            split
            · simp [hx, hj, ih seen hk]
            · simp [hx, hj, ih _ hother]

theorem distinctOn_distinctOn {seen seen' : List β} (h : ∀ k ∈ seen', k ∈ seen) (l : List α) :
    distinctOn f seen (distinctOn f seen' l) = distinctOn f seen l := by
  induction l generalizing seen seen' with
  | nil => rfl
  | cons x rest ih =>
      cases hx : f x with
      | none => simp only [distinctOn_cons, hx, ih h]
      | some k =>
          by_cases hk' : k ∈ seen'
          · simp only [distinctOn_cons, hx, hk', if_true, h k hk', ih h]
          · have hkeep : ∀ j ∈ k :: seen', j ∈ k :: seen := by
              intro j hj
              rcases List.mem_cons.mp hj with rfl | hj
              · exact List.mem_cons_self
              · exact List.mem_cons_of_mem _ (h j hj)
            by_cases hk : k ∈ seen
            · have hsame : distinctOn f seen (distinctOn f (k :: seen') rest) = distinctOn f seen rest := by
                refine ih fun j hj => ?_
                rcases List.mem_cons.mp hj with rfl | hj
                · exact hk
                · exact h j hj
              simp only [distinctOn_cons, hx, hk', if_false, hk, if_true, hsame]
            · simp only [distinctOn_cons, hx, hk', hk, if_false, ih hkeep]

theorem distinctOn_idem_append (l l' : List α) :
    distinctOn f [] (distinctOn f [] l ++ distinctOn f [] l') = distinctOn f [] (l ++ l') := by
  rw [distinctOn_append, distinctOn_append, distinctOn_distinctOn (by simp), distinctOn_distinctOn (by simp)]
  refine congrArg _ (distinctOn_congr l' fun k => ?_)
  have h := mem_keys_distinctOn (f := f) [] l k
  simpa using h

theorem distinctOn_twice (l l' l'' : List α) (h : ∀ x ∈ l', (f x).isSome = true) :
    distinctOn f [] (l ++ l' ++ (l' ++ l'')) = distinctOn f [] (l ++ l' ++ l'') := by
  rw [distinctOn_append [] (l ++ l') (l' ++ l''), distinctOn_append _ l' l'', distinctOn_append [] (l ++ l') l'']
  have hgone : distinctOn f ((l ++ l').filterMap f ++ []) l' = [] := by
    refine distinctOn_of_seen l' fun x hx => ?_
    obtain ⟨k, hk⟩ := Option.isSome_iff_exists.mp (h x hx)
    refine ⟨k, ?_, hk⟩
    simp only [List.append_nil, List.mem_filterMap, List.mem_append]
    exact ⟨x, Or.inr hx, hk⟩
  rw [hgone, List.nil_append]
  refine congrArg _ (distinctOn_congr l'' fun k => ?_)
  simp only [List.filterMap_append, List.mem_append]
  tauto

end Distinct

end Lib
