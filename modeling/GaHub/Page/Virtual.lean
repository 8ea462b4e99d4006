import GaHub.Lib.Bisect
import Mathlib.Algebra.BigOperators.Intervals
import Mathlib.Algebra.Order.BigOperators.Group.Finset
import Mathlib.Algebra.Order.Ring.Rat
import Mathlib.Tactic.Linarith

namespace GaHub.Page.Virtual

open Lib

structure VirtualRange where
  start : Nat
  stop : Nat
  top : ℚ
  bottom : ℚ
  deriving DecidableEq

-- A size that is no finite number is `none`; neither it nor one that is not positive is taken.
def itemSize (size : Option ℚ) : ℚ :=
  match size with
  | some size => if 0 < size then size else 1
  | none => 1

def buildVirtualOffsets (count : Int) (sizeForIndex : Nat → Option ℚ) : List ℚ :=
  (List.range count.toNat).scanl (fun offset index => offset + itemSize (sizeForIndex index)) 0

-- `offsets[middle + 1] <= target`, false where there is no such offset.
def endsBefore (offsets : List ℚ) (target : ℚ) (middle : Nat) : Bool :=
  offsets[middle + 1]?.any (· ≤ target)

def virtualIndexAtOffset (offsets : List ℚ) (position : ℚ) : Nat :=
  if offsets.length ≤ 1 then 0
  else min (bisect (endsBefore offsets (max 0 position)) 0 (offsets.length - 1)) (offsets.length - 2)

def computeVirtualRange (offsets : List ℚ) (scrollTop viewportHeight overscanPx : ℚ) : VirtualRange :=
  let count := offsets.length - 1
  if count = 0 then ⟨0, 0, 0, 0⟩
  else
    let topPosition := max 0 (scrollTop - max 0 overscanPx)
    let bottomPosition := max topPosition (scrollTop + max 0 viewportHeight + max 0 overscanPx)
    let start := virtualIndexAtOffset offsets topPosition
    let stop := min count (virtualIndexAtOffset offsets bottomPosition + 1)
    { start
      stop := max start stop
      top := offsets[start]?.getD 0
      bottom := max 0 (offsets[count]?.getD 0 - offsets[stop]?.getD (offsets[count]?.getD 0)) }

section Extents

variable (sizeForIndex : Nat → Option ℚ)

-- Where an item begins: behind all before it.
def extent (i : Nat) : ℚ := ∑ j ∈ Finset.range i, itemSize (sizeForIndex j)

-- The item at a position between the two ends of the list; the end itself is the last item's.
def Holds (count : Nat) (position : ℚ) (i : Nat) : Prop :=
  i < count ∧ extent sizeForIndex i ≤ position ∧
    (position < extent sizeForIndex (i + 1) ∨ i + 1 = count ∧ position = extent sizeForIndex count)

def Meets (scrollTop viewportHeight : ℚ) (i : Nat) : Prop :=
  ∃ y, scrollTop ≤ y ∧ y ≤ scrollTop + viewportHeight ∧ extent sizeForIndex i ≤ y ∧ y < extent sizeForIndex (i + 1)

variable {sizeForIndex}

theorem itemSize_pos (size : Option ℚ) : 0 < itemSize size := by
  cases size with
  | none => exact one_pos
  | some size =>
      rw [itemSize]
      split
      · assumption
      · exact one_pos

theorem extent_succ (i : Nat) : extent sizeForIndex (i + 1) = extent sizeForIndex i + itemSize (sizeForIndex i) :=
  Finset.sum_range_succ _ i

theorem extent_strictMono : StrictMono (extent sizeForIndex) := by
  refine strictMono_nat_of_lt_succ fun i => ?_
  have hpos := itemSize_pos (sizeForIndex i)
  rw [extent_succ]
  linarith

theorem extent_nonneg (i : Nat) : 0 ≤ extent sizeForIndex i := extent_strictMono.monotone (Nat.zero_le i)

theorem getElem?_buildVirtualOffsets (count : Int) (i : Nat) : (buildVirtualOffsets count sizeForIndex)[i]? =
    if i ≤ count.toNat then some (extent sizeForIndex i) else none := by
  have hlength : (buildVirtualOffsets count sizeForIndex).length = count.toNat + 1 := by
    rw [buildVirtualOffsets, List.length_scanl, List.length_range]
  induction i with
  | zero =>
      rw [if_pos (Nat.zero_le _), buildVirtualOffsets, List.getElem?_scanl_zero]
      rfl
  | succ i ih =>
      by_cases hi : i + 1 ≤ count.toNat
      · rw [if_pos (by omega)] at ih
        rw [if_pos hi, buildVirtualOffsets, List.getElem?_succ_scanl, ← buildVirtualOffsets, ih,
          List.getElem?_range (by omega), extent_succ]
        rfl
      · rw [if_neg hi, List.getElem?_eq_none (by omega)]

theorem length_buildVirtualOffsets (count : Int) :
    (buildVirtualOffsets count sizeForIndex).length = count.toNat + 1 := by
  rw [buildVirtualOffsets, List.length_scanl, List.length_range]

end Extents

section Window

variable {sizeForIndex : Nat → Option ℚ} {count : Int} {target position : ℚ}

theorem endsBefore_iff (middle : Nat) : endsBefore (buildVirtualOffsets count sizeForIndex) target middle = true ↔
    middle < count.toNat ∧ extent sizeForIndex (middle + 1) ≤ target := by
  rw [endsBefore, getElem?_buildVirtualOffsets]
  by_cases h : middle + 1 ≤ count.toNat
  · rw [if_pos h, Option.any_some, decide_eq_true_iff]
    exact ⟨fun hle => ⟨h, hle⟩, And.right⟩
  · rw [if_neg h]
    exact iff_of_false Bool.false_ne_true fun hlt => h hlt.1

theorem virtualIndex_spec (sizeForIndex : Nat → Option ℚ) (hcount : 0 < count.toNat) (position : ℚ) :
    let index := virtualIndexAtOffset (buildVirtualOffsets count sizeForIndex) position
    index < count.toNat ∧ extent sizeForIndex index ≤ max 0 position ∧
      (index + 1 < count.toNat → max 0 position < extent sizeForIndex (index + 1)) := by
  intro index
  have hmono : ∀ i j, i ≤ j → endsBefore (buildVirtualOffsets count sizeForIndex) (max 0 position) j = true →
      endsBefore (buildVirtualOffsets count sizeForIndex) (max 0 position) i = true := by
    intro i j hij hj
    obtain ⟨hlt, hle⟩ := (endsBefore_iff j).mp hj
    exact (endsBefore_iff i).mpr ⟨by omega, le_trans (extent_strictMono.monotone (by omega)) hle⟩
  obtain ⟨hbelow, habove⟩ := bisect_spec hmono 0 count.toNat
  have hbound : bisect (endsBefore (buildVirtualOffsets count sizeForIndex) (max 0 position)) 0 count.toNat ≤ count.toNat :=
    (bisect_bounds (Nat.zero_le count.toNat)).2
  have hindex : index = min (bisect (endsBefore (buildVirtualOffsets count sizeForIndex) (max 0 position)) 0 count.toNat)
      (count.toNat - 1) := by
    show virtualIndexAtOffset _ _ = _
    rw [virtualIndexAtOffset, length_buildVirtualOffsets, if_neg (by omega)]
    rfl
  generalize bisect (endsBefore (buildVirtualOffsets count sizeForIndex) (max 0 position)) 0 count.toNat = found at *
  refine ⟨by omega, ?_, fun hnext => ?_⟩
  · cases hzero : index with
    | zero => exact le_max_left 0 position
    | succ i => exact ((endsBefore_iff i).mp (hbelow i (Nat.zero_le i) (by omega))).2
  · have hends := habove index (by omega) (by omega)
    rw [Bool.eq_false_iff, Ne, endsBefore_iff, not_and, not_le] at hends
    exact hends (by omega)

theorem virtualIndex_holds (hcount : 0 < count.toNat) (position : ℚ) :
    Holds sizeForIndex count.toNat (min (max 0 position) (extent sizeForIndex count.toNat))
      (virtualIndexAtOffset (buildVirtualOffsets count sizeForIndex) position) := by
  obtain ⟨hlt, hbegin, hend⟩ := virtualIndex_spec sizeForIndex hcount position
  generalize virtualIndexAtOffset (buildVirtualOffsets count sizeForIndex) position = index at *
  refine ⟨hlt, le_min hbegin (extent_strictMono.monotone (Nat.le_of_lt hlt)), ?_⟩
  by_cases hnext : index + 1 < count.toNat
  · exact .inl (lt_of_le_of_lt (min_le_left _ _) (hend hnext))
  · have hlast : index + 1 = count.toNat := by omega
    rw [hlast]
    rcases lt_or_ge (max 0 position) (extent sizeForIndex count.toNat) with hinside | hpast
    · exact .inl (lt_of_le_of_lt (min_le_left _ _) hinside)
    · exact .inr ⟨rfl, min_eq_right hpast⟩

theorem virtualIndex_mono (hcount : 0 < count.toNat) {lower upper : ℚ} (h : lower ≤ upper) :
    virtualIndexAtOffset (buildVirtualOffsets count sizeForIndex) lower ≤
      virtualIndexAtOffset (buildVirtualOffsets count sizeForIndex) upper := by
  obtain ⟨-, hbegin, -⟩ := virtualIndex_spec sizeForIndex hcount lower
  obtain ⟨-, -, hend⟩ := virtualIndex_spec sizeForIndex hcount upper
  have hlt := (virtualIndex_spec sizeForIndex hcount lower).1
  by_contra hnot
  have hpast := hend (by omega)
  have hbefore := extent_strictMono.monotone (f := extent sizeForIndex) (Nat.succ_le_of_lt (Nat.lt_of_not_le hnot))
  linarith [max_le_max (le_refl (0 : ℚ)) h]

theorem computeVirtualRange_eq (sizeForIndex : Nat → Option ℚ) (hcount : 0 < count.toNat) (scrollTop viewportHeight overscanPx : ℚ) :
    let offsets := buildVirtualOffsets count sizeForIndex
    let topPosition := max 0 (scrollTop - max 0 overscanPx)
    let bottomPosition := max topPosition (scrollTop + max 0 viewportHeight + max 0 overscanPx)
    let start := virtualIndexAtOffset offsets topPosition
    let stop := virtualIndexAtOffset offsets bottomPosition + 1
    start < stop ∧ stop ≤ count.toNat ∧ computeVirtualRange offsets scrollTop viewportHeight overscanPx =
      ⟨start, stop, extent sizeForIndex start, extent sizeForIndex count.toNat - extent sizeForIndex stop⟩ := by
  intro offsets topPosition bottomPosition start stop
  have hstop : stop ≤ count.toNat := (virtualIndex_spec sizeForIndex hcount bottomPosition).1
  have hstart : start < stop := Nat.lt_succ_of_le (virtualIndex_mono hcount (le_max_left _ _))
  have hget : ∀ i ≤ count.toNat, offsets[i]? = some (extent sizeForIndex i) := fun i hi =>
    (getElem?_buildVirtualOffsets count i).trans (if_pos hi)
  have hlength : offsets.length - 1 = count.toNat := by
    rw [length_buildVirtualOffsets]
    rfl
  have hspace : 0 ≤ extent sizeForIndex count.toNat - extent sizeForIndex stop :=
    sub_nonneg.mpr (extent_strictMono.monotone hstop)
  refine ⟨hstart, hstop, ?_⟩
  show computeVirtualRange offsets scrollTop viewportHeight overscanPx = _
  unfold computeVirtualRange
  rw [hlength, if_neg (Nat.ne_of_gt hcount)]
  show VirtualRange.mk start (max start (min count.toNat stop)) (offsets[start]?.getD 0)
    (max 0 (offsets[count.toNat]?.getD 0 - offsets[min count.toNat stop]?.getD (offsets[count.toNat]?.getD 0))) = _
  rw [Nat.min_eq_right hstop, Nat.max_eq_right (Nat.le_of_lt hstart), hget start (by omega), hget stop hstop,
    hget count.toNat (Nat.le_refl _)]
  simp only [Option.getD_some]
  rw [max_eq_right hspace]

-- An item that is seen is neither before the item at the upper end of the window nor behind the one at the lower end.
theorem window_of_meets (hcount : 0 < count.toNat) {scrollTop viewportHeight : ℚ} (overscanPx : ℚ) {i : Nat}
    (hi : i < count.toNat) (h : Meets sizeForIndex scrollTop viewportHeight i) :
    let topPosition := max 0 (scrollTop - max 0 overscanPx)
    let bottomPosition := max topPosition (scrollTop + max 0 viewportHeight + max 0 overscanPx)
    virtualIndexAtOffset (buildVirtualOffsets count sizeForIndex) topPosition ≤ i ∧
      i ≤ virtualIndexAtOffset (buildVirtualOffsets count sizeForIndex) bottomPosition := by
  intro topPosition bottomPosition
  obtain ⟨y, htop, hbottom, hbegin, hend⟩ := h
  have hover := le_max_left 0 overscanPx
  have hheight := le_max_right 0 viewportHeight
  have hy : 0 ≤ y := le_trans (extent_nonneg i) hbegin
  have hupper : topPosition ≤ y := max_le hy (by linarith)
  have hlower : y ≤ bottomPosition := le_trans (by linarith) (le_max_right _ _)
  constructor
  · by_contra hnot
    have hfirst := (virtualIndex_spec sizeForIndex hcount topPosition).2.1
    rw [max_eq_right (show 0 ≤ topPosition from le_max_left _ _)] at hfirst
    have hbefore := extent_strictMono.monotone (f := extent sizeForIndex) (Nat.succ_le_of_lt (Nat.lt_of_not_le hnot))
    linarith
  · by_contra hnot
    have hlast := (virtualIndex_spec sizeForIndex hcount bottomPosition).2.2 (by omega)
    rw [max_eq_right (show 0 ≤ bottomPosition from le_trans hy hlower)] at hlast
    have hbehind := extent_strictMono.monotone (f := extent sizeForIndex) (Nat.succ_le_of_lt (Nat.lt_of_not_le hnot))
    linarith

theorem extent_add_window {start stop : Nat} (h : start ≤ stop) : extent sizeForIndex start +
    ∑ i ∈ Finset.Ico start stop, itemSize (sizeForIndex i) = extent sizeForIndex stop := by
  rw [extent, Finset.range_eq_Ico, Finset.sum_Ico_consecutive _ (Nat.zero_le start) h, ← Finset.range_eq_Ico, extent]

-- Whatever the sizes are and wherever the list is scrolled to, the item found at a position is the one there, and the
-- window has every item that is seen, between spacers that make up for the items left out.
theorem window_covers_viewport (count : Int) (sizeForIndex : Nat → Option ℚ)
    (position scrollTop viewportHeight overscanPx : ℚ) :
    let offsets := buildVirtualOffsets count sizeForIndex
    let range := computeVirtualRange offsets scrollTop viewportHeight overscanPx
    let total := extent sizeForIndex count.toNat
    (0 < count → Holds sizeForIndex count.toNat (min (max 0 position) total) (virtualIndexAtOffset offsets position)) ∧
      range.start ≤ range.stop ∧ range.stop ≤ count.toNat ∧
      (∀ i < count.toNat, Meets sizeForIndex scrollTop viewportHeight i → range.start ≤ i ∧ i < range.stop) ∧
      range.top + ∑ i ∈ Finset.Ico range.start range.stop, itemSize (sizeForIndex i) + range.bottom = total := by
  intro offsets range total
  refine ⟨fun hcount => virtualIndex_holds (by omega) position, ?_⟩
  rcases Nat.eq_zero_or_pos count.toNat with hzero | hcount
  · have hrange : range = ⟨0, 0, 0, 0⟩ := by
      show computeVirtualRange offsets scrollTop viewportHeight overscanPx = _
      unfold computeVirtualRange
      rw [length_buildVirtualOffsets, hzero]
      rfl
    have htotal : total = 0 := by
      show extent sizeForIndex count.toNat = 0
      rw [hzero]
      rfl
    rw [hrange, htotal]
    exact ⟨Nat.le_refl 0, Nat.zero_le _, fun i hi => absurd hi (by omega), by simp⟩
  · obtain ⟨hstart, hstop, hrange⟩ := computeVirtualRange_eq sizeForIndex hcount scrollTop
      viewportHeight overscanPx
    rw [show range = _ from hrange]
    refine ⟨Nat.le_of_lt hstart, hstop, fun i hi hmeets => ?_, ?_⟩
    · obtain ⟨hupper, hlower⟩ := window_of_meets hcount overscanPx hi hmeets
      exact ⟨hupper, Nat.lt_succ_of_le hlower⟩
    · rw [extent_add_window (Nat.le_of_lt hstart)]
      exact add_sub_cancel _ _

end Window

end GaHub.Page.Virtual
