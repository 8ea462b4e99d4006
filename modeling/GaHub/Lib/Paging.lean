import Mathlib.Data.List.Basic
import Mathlib.Data.List.Nodup

namespace Lib

variable {α ρ : Type}

-- One page of a list that is read backwards, and the bound to ask for the one before it.
structure Page (α : Type) where
  items : List α
  hasMore : Bool
  nextBefore : Option Nat

-- `max(0, min(before, n))`, and all of the list without a bound.
def bound (before : Option Int) (n : Nat) : Nat :=
  match before with
  | none => n
  | some b => (max 0 (min b n)).toNat

def slicePage (items : List α) (start stop : Nat) : Page α where
  items := (items.take stop).drop start
  hasMore := decide (0 < start)
  nextBefore := if 0 < start then some start else none

-- Every page ends where it was asked to, and moves on where there is anything to show.
def Backward (items : List α) (page : ρ → Option Int → Page α) : Prop :=
  ∀ r before, ∃ start, (start < bound before items.length ∨ start = 0 ∧ bound before items.length = 0) ∧
    page r before = slicePage items start (bound before items.length)

-- Each request asks for what its predecessor left, until nothing is left.
def chain (page : ρ → Option Int → Page α) : List ρ → Option Int → List (Page α)
  | [], _ => []
  | r :: rs, before =>
      let p := page r before
      p :: if p.hasMore then chain page rs (p.nextBefore.map Int.ofNat) else []

-- The pages from the oldest to the newest.
def joined (pages : List (Page α)) : List α := pages.reverse.flatMap Page.items

theorem bound_some (b n : Nat) : bound (some (b : Int)) n = min b n := by
  simp only [bound]
  omega

theorem bound_le (before : Option Int) (n : Nat) : bound before n ≤ n := by
  unfold bound
  split <;> omega

theorem joined_cons (p : Page α) (pages : List (Page α)) : joined (p :: pages) = joined pages ++ p.items := by
  simp [joined]

-- What a chain has shown so far: the end of the list, from where its last page starts.
structure Shown (items : List α) (stop : Nat) (pages : List (Page α)) : Prop where
  filled : 0 < stop → ∀ p ∈ pages, p.items ≠ []
  descends : (stop :: pages.filterMap Page.nextBefore).Pairwise (· > ·)
  suffix : ∃ start ≤ stop, joined pages = (items.take stop).drop start ∧
    ∀ p, pages.getLast? = some p → p.hasMore = decide (0 < start)

namespace Backward

variable {items : List α} {page : ρ → Option Int → Page α}

theorem slice_ne_nil {start stop : Nat} (hstart : start < stop) (hstop : stop ≤ items.length) :
    (slicePage items start stop).items ≠ [] := by
  have hlength : ((items.take stop).drop start).length = stop - start := by
    rw [List.length_drop, List.length_take, Nat.min_eq_left hstop]
  intro hnil
  change (items.take stop).drop start = [] at hnil
  rw [hnil, List.length_nil] at hlength
  omega

theorem shown (h : Backward items page) (rs : List ρ) (before : Option Int)
    (hpos : 0 < bound before items.length) : Shown items (bound before items.length) (chain page rs before) := by
  induction rs generalizing before with
  | nil =>
      exact ⟨by simp [chain], by simp [chain], bound before items.length, Nat.le_refl _, by simp [joined, chain], by simp [chain]⟩
  | cons r rs ih =>
      obtain ⟨start, hstart, hpage⟩ := h r before
      have hlt : start < bound before items.length := by omega
      have hle := bound_le before items.length
      simp only [chain, hpage]
      by_cases hmore : 0 < start
      · have hnext : bound (some (start : Int)) items.length = start := by
          rw [bound_some]
          omega
        have hrest := ih (some (start : Int)) (by omega)
        rw [hnext] at hrest
        have hpages : (if (slicePage items start (bound before items.length)).hasMore = true then
            chain page rs ((slicePage items start (bound before items.length)).nextBefore.map Int.ofNat) else []) =
            chain page rs (some (start : Int)) := by
          simp [slicePage, hmore]
        rw [hpages]
        obtain ⟨from', hfrom, hjoined, hlast⟩ := hrest.suffix
        refine ⟨fun _ p hp => ?_, ?_, from', by omega, ?_, ?_⟩
        · rcases List.mem_cons.mp hp with rfl | hp
          · exact slice_ne_nil hlt hle
          · exact hrest.filled hmore p hp
        · have hdown := hrest.descends
          have heq : (slicePage items start (bound before items.length)).nextBefore = some start := by
            simp [slicePage, hmore]
          rw [List.filterMap_cons_some heq]
          refine List.pairwise_cons.mpr ⟨fun b hb => ?_, hdown⟩
          rcases List.mem_cons.mp hb with rfl | hb
          · exact hlt
          · exact Nat.lt_trans ((List.pairwise_cons.mp hdown).1 b hb) hlt
        · rw [joined_cons, hjoined, slicePage]
          have hsplit : items.take (bound before items.length) =
              items.take start ++ (items.take (bound before items.length)).drop start := by
            have htake : (items.take (bound before items.length)).take start = items.take start := by
              rw [List.take_take, Nat.min_eq_left (by omega)]
            rw [← htake, List.take_append_drop]
          have hlength : from' ≤ (items.take start).length := by
            rw [List.length_take]
            omega
          conv_rhs => rw [hsplit]
          rw [List.drop_append_of_le_length hlength]
        · intro p hp
          cases hchain : chain page rs (some (start : Int)) with
          | nil =>
              rw [hchain, joined] at hjoined
              rw [hchain] at hp
              cases hp
              have hempty : from' = start := by
                have hlen := congrArg List.length hjoined
                simp only [List.reverse_nil, List.flatMap_nil, List.length_nil, List.length_drop, List.length_take] at hlen
                omega
              simp [slicePage, hmore, hempty]
          | cons q qs =>
              rw [hchain] at hp hlast
              rw [List.getLast?_cons_cons] at hp
              exact hlast p hp
      · have hzero : start = 0 := by omega
        subst hzero
        refine ⟨fun _ p hp => ?_, by simp [slicePage], 0, Nat.zero_le _, ?_, ?_⟩
        · have hp : p = slicePage items 0 (bound before items.length) := by simpa [slicePage] using hp
          rw [hp]
          exact slice_ne_nil hlt hle
        · simp [joined, slicePage]
        · intro p hp
          have hp : slicePage items 0 (bound before items.length) = p := by simpa [slicePage] using hp
          rw [← hp]
          simp [slicePage]

theorem ends (h : Backward items page) (rs : List ρ) (before : Option Int) (hne : rs ≠ [])
    (hlength : bound before items.length ≤ rs.length) :
    ∃ p, (chain page rs before).getLast? = some p ∧ p.hasMore = false := by
  induction rs generalizing before with
  | nil => exact absurd rfl hne
  | cons r rs ih =>
      obtain ⟨start, hstart, hpage⟩ := h r before
      rw [List.length_cons] at hlength
      simp only [chain, hpage]
      by_cases hmore : 0 < start
      · have hle := bound_le before items.length
        have hnext : bound (some (start : Int)) items.length = start := by
          rw [bound_some]
          omega
        obtain ⟨p, hp, hlast⟩ := ih (some (start : Int)) (List.ne_nil_of_length_pos (by omega)) (by omega)
        have hpages : (slicePage items start (bound before items.length)).hasMore = true := by simp [slicePage, hmore]
        have hbefore : (slicePage items start (bound before items.length)).nextBefore.map Int.ofNat = some (start : Int) := by
          simp [slicePage, hmore]
        rw [if_pos hpages, hbefore]
        cases hchain : chain page rs (some (start : Int)) with
        | nil =>
            rw [hchain] at hp
            cases hp
        | cons q qs =>
            rw [hchain] at hp
            rw [List.getLast?_cons_cons]
            exact ⟨p, hp, hlast⟩
      · have hlast : (slicePage items start (bound before items.length)).hasMore = false := by simp [slicePage, hmore]
        rw [if_neg (by rw [hlast]; exact Bool.false_ne_true)]
        exact ⟨_, rfl, hlast⟩

theorem visits (h : Backward items page) (rs : List ρ) :
    (items ≠ [] → ∀ p ∈ chain page rs none, p.items ≠ []) ∧
      (items.length :: (chain page rs none).filterMap Page.nextBefore).Pairwise (· > ·) ∧
      (rs ≠ [] → items.length ≤ rs.length →
        (∃ p, (chain page rs none).getLast? = some p ∧ p.hasMore = false) ∧ joined (chain page rs none) = items) := by
  rcases Nat.eq_zero_or_pos items.length with hzero | hpos
  · have hnil := List.eq_nil_of_length_eq_zero hzero
    subst hnil
    cases rs with
    | nil => simp [chain]
    | cons r rs =>
        obtain ⟨start, hstart, hpage⟩ := h r none
        have hstart : start = 0 := by
          rw [show bound none ([] : List α).length = 0 from rfl] at hstart
          omega
        subst hstart
        simp [chain, hpage, slicePage, joined]
  · have hshown := h.shown rs none hpos
    have hall : bound none items.length = items.length := rfl
    rw [hall] at hshown
    refine ⟨fun _ => hshown.filled hpos, hshown.descends, fun hne hlength => ?_⟩
    obtain ⟨p, hp, hlast⟩ := h.ends rs none hne hlength
    obtain ⟨start, hstart, hjoined, hmore⟩ := hshown.suffix
    refine ⟨⟨p, hp, hlast⟩, ?_⟩
    have hzero : start = 0 := by
      have hfalse := hmore p hp
      rw [hlast] at hfalse
      have hnot := of_decide_eq_false hfalse.symm
      omega
    rw [hjoined, hzero, List.take_length, List.drop_zero]

end Backward

end Lib
