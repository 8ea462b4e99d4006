import Mathlib.Data.List.Nodup
import Mathlib.Tactic.Common

namespace Lib

-- A search of a forest from several roots, each to the same depth, that takes what is pending one by one.
section Forest

variable {α : Type} (child : α → α → Prop) (limit : Nat)

inductive Reach (r : α) : α → Nat → Prop where
  | root : Reach r r 0
  | step {p q : α} {d : Nat} : Reach r p d → d < limit → child p q → Reach r q (d + 1)

def Origin (roots : List α) (vis : List (α × Nat)) (x : α × Nat) : Prop :=
  x.2 = 0 ∧ x.1 ∈ roots ∨ ∃ u d, (u, d) ∈ vis ∧ d < limit ∧ child u x.1 ∧ x.2 = d + 1

structure Explored (roots : List α) (vis pending : List (α × Nat)) : Prop where
  nodup : (vis.map Prod.fst).Nodup
  visited : ∀ x ∈ vis, Origin child limit roots vis x
  queued : ∀ x ∈ pending, Origin child limit roots vis x
  rooted : ∀ r ∈ roots, r ∈ vis.map Prod.fst ∨ (r, 0) ∈ pending
  closed : ∀ u d q, (u, d) ∈ vis → d < limit → child u q → q ∈ vis.map Prod.fst ∨ (q, d + 1) ∈ pending

variable {child limit} {roots : List α} {vis pending new : List (α × Nat)} {p q r : α} {d k : Nat}

theorem Reach.le (h : Reach child limit r p d) : d ≤ limit := by
  cases h with
  | root => exact Nat.zero_le _
  | step _ hd _ => exact hd

theorem Reach.rank (rank : α → Nat) (hrank : ∀ p q, child p q → rank q = rank p + 1) (h : Reach child limit r p d) :
    rank p = rank r + d := by
  induction h with
  | root => rfl
  | step _ _ hchild ih =>
      rw [hrank _ _ hchild, ih]
      omega

theorem Origin.mono {vis' : List (α × Nat)} {x : α × Nat} (hsub : vis ⊆ vis') (h : Origin child limit roots vis x) :
    Origin child limit roots vis' x := by
  rcases h with hroot | ⟨u, d, hu, hd, hchild, heq⟩
  · exact .inl hroot
  · exact .inr ⟨u, d, hsub hu, hd, hchild, heq⟩

theorem Explored.start (roots : List α) : Explored child limit roots [] (roots.map fun r => (r, 0)) where
  nodup := List.nodup_nil
  visited := by rintro _ ⟨⟩
  queued x hx := by
    obtain ⟨r, hr, rfl⟩ := List.mem_map.mp hx
    exact .inl ⟨rfl, hr⟩
  rooted r hr := .inr (List.mem_map_of_mem hr)
  closed := by rintro _ _ _ ⟨⟩

theorem Explored.skip (h : Explored child limit roots vis ((p, d) :: pending)) (hp : p ∈ vis.map Prod.fst) :
    Explored child limit roots vis pending where
  nodup := h.nodup
  visited := h.visited
  queued x hx := h.queued x (List.mem_cons_of_mem _ hx)
  rooted r hr := by
    rcases h.rooted r hr with hvis | hpend
    · exact .inl hvis
    · rcases List.mem_cons.mp hpend with heq | hpend
      · cases heq
        exact .inl hp
      · exact .inr hpend
  closed u k q hu hk hchild := by
    rcases h.closed u k q hu hk hchild with hvis | hpend
    · exact .inl hvis
    · rcases List.mem_cons.mp hpend with heq | hpend
      · cases heq
        exact .inl hp
      · exact .inr hpend

theorem Explored.visit (h : Explored child limit roots vis ((p, d) :: pending)) (hp : p ∉ vis.map Prod.fst)
    (hnew : ∀ x ∈ new, d < limit ∧ child p x.1 ∧ x.2 = d + 1)
    (hall : ∀ q, d < limit → child p q → (q, d + 1) ∈ new) :
    Explored child limit roots ((p, d) :: vis) (new ++ pending) where
  nodup := List.nodup_cons.mpr ⟨hp, h.nodup⟩
  visited x hx := by
    rcases List.mem_cons.mp hx with rfl | hx
    · exact (h.queued _ List.mem_cons_self).mono (List.subset_cons_self _ _)
    · exact (h.visited x hx).mono (List.subset_cons_self _ _)
  queued x hx := by
    rcases List.mem_append.mp hx with hx | hx
    · obtain ⟨hd, hchild, heq⟩ := hnew x hx
      exact .inr ⟨p, d, List.mem_cons_self, hd, hchild, heq⟩
    · exact (h.queued x (List.mem_cons_of_mem _ hx)).mono (List.subset_cons_self _ _)
  rooted r hr := by
    rcases h.rooted r hr with hvis | hpend
    · exact .inl (List.mem_cons_of_mem _ hvis)
    · rcases List.mem_cons.mp hpend with heq | hpend
      · cases heq
        exact .inl List.mem_cons_self
      · exact .inr (List.mem_append_right _ hpend)
  closed u k q hu hk hchild := by
    rcases List.mem_cons.mp hu with heq | hu
    · cases heq
      exact .inr (List.mem_append_left _ (hall q hk hchild))
    · rcases h.closed u k q hu hk hchild with hvis | hpend
      · exact .inl (List.mem_cons_of_mem _ hvis)
      · rcases List.mem_cons.mp hpend with heq | hpend
        · cases heq
          exact .inl List.mem_cons_self
        · exact .inr (List.mem_append_right _ hpend)

theorem Explored.sound (h : Explored child limit roots vis pending) :
    ∀ d p, (p, d) ∈ vis → ∃ r ∈ roots, Reach child limit r p d := by
  intro d
  induction d with
  | zero =>
      intro p hp
      rcases h.visited _ hp with ⟨-, hroot⟩ | ⟨_, _, _, _, _, heq⟩
      · exact ⟨p, hroot, .root⟩
      · cases heq
  | succ d ih =>
      intro p hp
      rcases h.visited _ hp with ⟨heq, -⟩ | ⟨u, k, hu, hk, hchild, heq⟩
      · cases heq
      · obtain rfl : d = k := Nat.succ.inj heq
        obtain ⟨r, hr, hreach⟩ := ih u hu
        exact ⟨r, hr, hreach.step hk hchild⟩

theorem Explored.sound_queued (h : Explored child limit roots vis pending) (hp : (p, d) ∈ pending) :
    ∃ r ∈ roots, Reach child limit r p d := by
  rcases h.queued _ hp with ⟨heq, hroot⟩ | ⟨u, k, hu, hk, hchild, heq⟩
  · obtain rfl : d = 0 := heq
    exact ⟨p, hroot, .root⟩
  · obtain rfl : d = k + 1 := heq
    obtain ⟨r, hr, hreach⟩ := h.sound k u hu
    exact ⟨r, hr, hreach.step hk hchild⟩

theorem Explored.complete (hparent : ∀ p p' q, child p q → child p' q → p = p')
    (h : Explored child limit roots vis []) (hr : (r, 0) ∈ vis) (hreach : Reach child limit r p k) :
    ∃ d ≤ k, (p, d) ∈ vis := by
  induction hreach with
  | root => exact ⟨0, Nat.le_refl _, hr⟩
  | @step p q k _ hk hchild ih =>
      obtain ⟨d, hd, hp⟩ := ih
      have hmem : q ∈ vis.map Prod.fst :=
        (h.closed p d q hp (Nat.lt_of_le_of_lt hd hk) hchild).resolve_right (by rintro ⟨⟩)
      obtain ⟨⟨q', d'⟩, hq, hsame⟩ := List.mem_map.mp hmem
      obtain rfl : q' = q := hsame
      refine ⟨d', ?_, hq⟩
      rcases h.visited _ hq with ⟨hzero, -⟩ | ⟨u, j, hu, -, hchild', hsucc⟩
      · have hdepth : d' = 0 := hzero
        omega
      · obtain rfl := hparent _ _ _ hchild hchild'
        have hj : d = j := congrArg Prod.snd (List.inj_on_of_nodup_map h.nodup hp hu rfl)
        have hdepth : d' = j + 1 := hsucc
        omega

end Forest

end Lib
