import GaHub.Archive

namespace GaHub.Archive

open Lib

section Starts

variable {items : List Item} {stop limit turns : Nat} {maxChars : Option Int}

theorem limitStart_le (start selected : Nat) : limitStart items stop limit maxChars start selected ≤ start := by
  induction start generalizing selected with
  | zero => exact Nat.le_refl _
  | succ start ih =>
      simp only [limitStart]
      split
      · exact Nat.le_refl _
      · split
        · exact Nat.le_refl _
        · exact Nat.le_succ_of_le (ih _)

theorem limitStart_lt (hstop : 0 < stop) (hlimit : 1 ≤ limit) : limitStart items stop limit maxChars stop 0 < stop := by
  obtain ⟨last, rfl⟩ := Nat.exists_eq_succ_of_ne_zero (Nat.ne_of_gt hstop)
  simp only [limitStart]
  rw [if_neg (by omega), if_neg (by omega)]
  exact Nat.lt_succ_of_le (limitStart_le last _)

theorem mem_turnStarts {i : Nat} (h : i ∈ turnStarts items stop turns) : i < stop ∧ items[i]?.any isRealUserItem = true := by
  have hmem := List.mem_filter.mp (List.mem_of_mem_take h)
  exact ⟨List.mem_range.mp (List.mem_reverse.mp hmem.1), hmem.2⟩

theorem cuts_le {exact count k : Nat} (hexact : 1 ≤ exact) (hcount : exact ≤ count) (h : k ∈ cuts exact count) :
    1 ≤ k ∧ k ≤ count := by
  unfold cuts at h
  rcases List.mem_cons.mp h with rfl | h
  · exact ⟨hexact, hcount⟩
  · obtain ⟨delta, -, hdelta⟩ := List.mem_flatMap.mp h
    rcases List.mem_append.mp hdelta with hlong | hshort
    · split at hlong
      · rw [List.mem_singleton.mp hlong]
        omega
      · cases hlong
    · split at hshort
      · rw [List.mem_singleton.mp hshort]
        omega
      · cases hshort

theorem turnWindowStart_mem (hturns : 1 ≤ turns) : turnWindowStart items stop turns maxChars ∈ turnStarts items stop turns ∨
    turnWindowStart items stop turns maxChars = 0 ∧ turnStarts items stop turns = [] := by
  unfold turnWindowStart
  have hmem : ∀ k, 1 ≤ k → k ≤ (turnStarts items stop turns).length →
      (turnStarts items stop turns).getD (k - 1) 0 ∈ turnStarts items stop turns := by
    intro k hpos hk
    have hlt : k - 1 < (turnStarts items stop turns).length := by omega
    rw [List.getD_eq_getElem?_getD, List.getElem?_eq_getElem hlt]
    exact List.getElem_mem hlt
  by_cases hzero : min turns (turnStarts items stop turns).length = 0
  · refine Or.inr ⟨if_pos hzero, List.eq_nil_of_length_eq_zero ?_⟩
    omega
  · refine Or.inl ?_
    simp only [if_neg hzero]
    split
    · rename_i k hk
      have hcut := cuts_le (by omega) (by omega) (List.mem_of_find?_eq_some hk)
      exact hmem k hcut.1 hcut.2
    · split
      · exact hmem _ (by omega) (by omega)
      · split
        · rename_i k hk
          have hin := List.mem_of_find?_eq_some hk
          obtain ⟨j, hj, rfl⟩ := List.mem_map.mp hin
          have hlt := List.mem_range.mp (List.mem_reverse.mp hj)
          exact hmem _ (by omega) (by omega)
        · exact hmem 1 (Nat.le_refl _) (by omega)

theorem turnWindowStart_lt (hstop : 0 < stop) (hturns : 1 ≤ turns) : turnWindowStart items stop turns maxChars < stop := by
  rcases turnWindowStart_mem hturns with h | ⟨h, -⟩
  · exact (mem_turnStarts h).1
  · rw [h]
    exact hstop

theorem pairedStart_le (start : Nat) : pairedStart items start ≤ start := by
  unfold pairedStart
  split <;> omega

end Starts

-- Where a page of some mode starts.
def windowStart (items : List Item) (stop : Nat) (mode : Mode) (maxChars : Option Int) : Nat :=
  match mode with
  | .turns turns => pairedStart items (turnWindowStart items stop turns maxChars)
  | .limit limit => pairedStart items (limitStart items stop limit maxChars stop 0)
  | .whole => 0

section Pages

variable {items : List Item} {mode : Mode} {maxChars : Option Int}

theorem windowItems_eq (hmode : mode.Bounded) (before : Option Int) :
    windowItems items before mode maxChars =
      slicePage items (windowStart items (bound before items.length) mode maxChars) (bound before items.length) := by
  cases mode with
  | limit limit => rfl
  | turns turns => rfl
  | whole => exact absurd hmode id

theorem windowStart_lt (items : List Item) (maxChars : Option Int) {stop : Nat} (hmode : mode.Bounded) (hstop : 0 < stop) :
    windowStart items stop mode maxChars < stop := by
  cases mode with
  | limit limit => exact Nat.lt_of_le_of_lt (pairedStart_le _) (limitStart_lt hstop hmode)
  | turns turns => exact Nat.lt_of_le_of_lt (pairedStart_le _) (turnWindowStart_lt hstop hmode)
  | whole => exact hstop

theorem windowStart_zero : windowStart items 0 mode maxChars = 0 := by
  cases mode with
  | limit limit =>
      simp [windowStart, limitStart, pairedStart]
  | turns turns =>
      simp [windowStart, turnWindowStart, turnStarts, pairedStart]
  | whole => rfl

def Numbered (items : List Item) : Prop := ∀ (i : Nat) (item : Item), items[i]? = some item → item.ordinal = i

theorem spanPage_eq (maxChars : Option Int) (hmode : mode.Bounded) (hnumbered : Numbered items) {first stop : Nat} (hfirst : first ≤ stop)
    (hstop : stop ≤ items.length) :
    spanPage ((items.take stop).drop first) mode maxChars = if first < stop then
      slicePage items (first + windowStart ((items.take stop).drop first) (stop - first) mode maxChars) stop
    else ⟨[], false, none⟩ := by
  have hlength : ((items.take stop).drop first).length = stop - first := by
    rw [List.length_drop, List.length_take, Nat.min_eq_left hstop]
  have hbound : bound none ((items.take stop).drop first).length = stop - first := hlength
  unfold spanPage
  rw [windowItems_eq hmode, hbound]
  by_cases hlt : first < stop
  · have hstart := windowStart_lt ((items.take stop).drop first) maxChars hmode
      (show 0 < stop - first by omega)
    generalize windowStart ((items.take stop).drop first) (stop - first) mode maxChars = start at hstart ⊢
    have hslice : (slicePage ((items.take stop).drop first) start (stop - first)).items =
        (items.take stop).drop (first + start) := by
      simp only [slicePage]
      rw [List.take_of_length_le (by omega), List.drop_drop]
    have hget : (items.take stop)[first + start]? = items[first + start]? := List.getElem?_take_of_lt (by omega)
    obtain ⟨item, hitem⟩ : ∃ item, items[first + start]? = some item :=
      ⟨_, List.getElem?_eq_getElem (by omega)⟩
    have hhead : ((items.take stop).drop (first + start)).head? = some item := by
      rw [List.head?_drop, hget, hitem]
    rw [hslice, if_pos hlt]
    dsimp only
    rw [hhead]
    dsimp only
    rw [hnumbered _ item hitem]
    rfl
  · have hempty : (items.take stop).drop first = [] := List.eq_nil_of_length_eq_zero (by omega)
    rw [if_neg hlt, hempty]
    simp [slicePage]

theorem candidateStart_lt {stop : Nat} (hmode : mode.Bounded) (hstop : 0 < stop) : candidateStart stop mode < stop := by
  cases mode with
  | limit limit =>
      simp only [candidateStart]
      omega
  | turns turns =>
      simp only [candidateStart]
      omega
  | whole => exact absurd hmode id

end Pages

-- One page of a chain of them: read from the index where that was possible, else from all the items.
structure Ask where
  mode : Mode
  bounded : mode.Bounded
  maxChars : Option Int
  indexed : Bool

def askPage (items : List Item) (ask : Ask) (before : Option Int) : Page Item :=
  let stop := bound before items.length
  if ask.indexed then
    if stop = 0 then ⟨[], false, none⟩
    else spanPage ((items.take stop).drop (candidateStart stop ask.mode)) ask.mode ask.maxChars
  else windowItems items before ask.mode ask.maxChars

theorem askPage_backward {items : List Item} (hnumbered : Numbered items) : Backward items (askPage items) := by
  intro ask before
  rcases Nat.eq_zero_or_pos (bound before items.length) with hzero | hpos
  · refine ⟨0, Or.inr ⟨rfl, hzero⟩, ?_⟩
    unfold askPage
    rw [windowItems_eq ask.bounded, hzero, windowStart_zero]
    split
    · simp [slicePage]
    · rfl
  · have hle := bound_le before items.length
    by_cases hindexed : ask.indexed = true
    · have hfirst := candidateStart_lt ask.bounded hpos
      have hstart := windowStart_lt ((items.take (bound before items.length)).drop
        (candidateStart (bound before items.length) ask.mode)) ask.maxChars ask.bounded (Nat.sub_pos_of_lt hfirst)
      have hpage := spanPage_eq ask.maxChars ask.bounded hnumbered (Nat.le_of_lt hfirst) hle
      rw [if_pos hfirst] at hpage
      refine ⟨candidateStart (bound before items.length) ask.mode + windowStart
        ((items.take (bound before items.length)).drop (candidateStart (bound before items.length) ask.mode))
        (bound before items.length - candidateStart (bound before items.length) ask.mode) ask.mode ask.maxChars,
        Or.inl ?_, ?_⟩
      · omega
      · unfold askPage
        rw [if_pos hindexed, if_neg (Nat.ne_of_gt hpos)]
        exact hpage
    · refine ⟨_, Or.inl (windowStart_lt items ask.maxChars ask.bounded hpos), ?_⟩
      unfold askPage
      rw [if_neg hindexed, windowItems_eq ask.bounded]

-- Asking for page after page, in either mode and with any budget, shows every item once.
theorem pages_visit {items : List Item} (hnumbered : Numbered items) (asks : List Ask) :
    (items ≠ [] → ∀ p ∈ chain (askPage items) asks none, p.items ≠ []) ∧
      (items.length :: (chain (askPage items) asks none).filterMap Page.nextBefore).Pairwise (· > ·) ∧
      (asks ≠ [] → items.length ≤ asks.length →
        (∃ p, (chain (askPage items) asks none).getLast? = some p ∧ p.hasMore = false) ∧
        joined (chain (askPage items) asks none) = items) :=
  (askPage_backward hnumbered).visits asks

def twoTurns : List Item :=
  [⟨text "0", .user, text "hi", none, 0, none⟩, ⟨text "1", .assistant, text "hello", none, 1, none⟩,
    ⟨text "2", .user, text "more", none, 2, none⟩, ⟨text "3", .assistant, text "done", none, 3, none⟩]

def mixedAsks : List Ask :=
  [⟨.limit 1, by decide, some 0, false⟩, ⟨.turns 1, by decide, none, true⟩, ⟨.limit 2, by decide, none, true⟩,
    ⟨.turns 2, by decide, none, false⟩]

theorem numbered_twoTurns : Numbered twoTurns := by
  intro i item hitem
  have hlt : i < 4 := (List.getElem?_eq_some_iff.mp hitem).1
  have hcases : i = 0 ∨ i = 1 ∨ i = 2 ∨ i = 3 := by omega
  rcases hcases with rfl | rfl | rfl | rfl <;> cases hitem <;> rfl

theorem pages_visit_twoTurns :
    ((chain (askPage twoTurns) mixedAsks none).map fun p => (p.items.map Item.ordinal, p.nextBefore)) =
        [([2, 3], some 2), ([0, 1], none)] ∧
      joined (chain (askPage twoTurns) mixedAsks none) = twoTurns :=
  ⟨by decide, ((pages_visit numbered_twoTurns mixedAsks).2.2 (by decide) (by decide)).2⟩

end GaHub.Archive
