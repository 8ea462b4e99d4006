import GaHub.Archive.Rounds

namespace GaHub.Archive

-- A group of rounds in the bytes of a file, and the items it stands for.
structure Group where
  start : Nat
  stop : Nat
  itemStart : Nat
  itemCount : Nat
  deriving DecidableEq

structure Index where
  groups : List Group
  total : Nat
  deriving DecidableEq

-- A completed pair as the index keeps it: its bytes, and whether its prompt is a user's.
structure Pair where
  start : Nat
  stop : Nat
  isUser : Bool
  deriving DecidableEq

-- A group before it is placed: its bytes and how many items it has.
structure RawGroup where
  start : Nat
  stop : Nat
  count : Nat
  deriving DecidableEq

-- The grouping loop: a user's prompt closes the current group and opens the next one.
def rawGroups : Option RawGroup → List Pair → List RawGroup
  | none, [] => []
  | some current, [] => [current]
  | none, pair :: rest => rawGroups (some ⟨pair.start, pair.stop, if pair.isUser then 2 else 1⟩) rest
  | some current, pair :: rest =>
      if pair.isUser then
        ⟨current.start, pair.start, current.count⟩ :: rawGroups (some ⟨pair.start, pair.stop, 2⟩) rest
      else rawGroups (some ⟨current.start, pair.stop, current.count⟩) rest

-- The groups with the number of items in front of each, and the number of all.
def place (itemStart : Nat) : List RawGroup → List Group × Nat
  | [] => ([], itemStart)
  | raw :: rest =>
      let placed := place (itemStart + raw.count) rest
      (⟨raw.start, raw.stop, itemStart, raw.count⟩ :: placed.1, placed.2)

def byteSlice (data : Bytes) (start stop : Nat) : Bytes := (data.take stop).drop start

section Index

variable (isUser : Bytes → Bool)

-- The body of a completed prompt ends where its response starts.
def indexPairs (data : Bytes) : List Pair :=
  (bytePairs data).map fun round =>
    ⟨round.prompt.start, round.stop, isUser (byteSlice data round.prompt.stop round.response.start)⟩

-- `_build_archive_index`; `isUser` tells of a prompt's body whether GA shows a user message for it.
def buildArchiveIndex (data : Bytes) : Index :=
  let placed := place 0 (rawGroups none (indexPairs isUser data))
  ⟨placed.1, placed.2⟩

end Index

-- The groups lie one behind the other, and every place is the sum of the counts before it.
structure Grouped (size : Nat) (index : Index) : Prop where
  ordered : index.groups.Pairwise fun g h => g.stop ≤ h.start
  spans : ∀ g ∈ index.groups, g.start < g.stop ∧ g.stop ≤ size
  starts : ∀ before g after, index.groups = before ++ g :: after →
    g.itemStart = (before.map Group.itemCount).sum
  total : index.total = (index.groups.map Group.itemCount).sum

-- Places in increasing order, all from `lo` on and before `size`.
def Rising (size : Nat) : Nat → List Nat → Prop
  | lo, [] => lo ≤ size
  | lo, at' :: rest => lo ≤ at' ∧ at' < size ∧ Rising size (at' + 1) rest

-- Ranges one behind the other, none of them empty, all from `lo` on and up to `size`.
def Spread (size : Nat) : Nat → List (Nat × Nat) → Prop
  | lo, [] => lo ≤ size
  | lo, range :: rest => lo ≤ range.1 ∧ range.1 < range.2 ∧ Spread size range.2 rest

section Orders

variable {size lo : Nat}

theorem marks_rising (accept : Text → Option Label) (at' : Nat) (fresh : Bool) (content : Text) :
    Rising (at' + content.length) at' ((marks accept at' fresh content).map Prod.fst) := by
  induction content generalizing at' fresh with
  | nil => exact le_refl at'
  | cons c rest ih =>
      have hrest := ih (at' + 1) (c == 10)
      rw [show at' + 1 + rest.length = at' + (c :: rest).length by simp only [List.length_cons]; omega] at hrest
      have hlater : ∀ {size lo : Nat} {places : List Nat}, Rising size (lo + 1) places → Rising size lo places := by
        intro size lo places h
        cases places with
        | nil => exact Nat.le_of_succ_le h
        | cons place places => exact ⟨Nat.le_of_succ_le h.1, h.2⟩
      unfold marks
      cases (if fresh then accept (c :: rest) else none) with
      | none => exact hlater hrest
      | some label => exact ⟨le_refl at', by simp, hrest⟩

theorem Rising.le_next {places : List Nat} (h : Rising size lo places) : lo ≤ places.head?.getD size := by
  cases places with
  | nil => exact h
  | cons place places => exact h.1

theorem Rising.from_next {places : List Nat} (h : Rising size lo places) :
    Rising size (places.head?.getD size) places := by
  cases places with
  | nil => exact le_refl size
  | cons place places => exact ⟨le_refl place, h.2⟩

theorem pairMarks_spread {first : Nat} (pending : Option Nat) (ms : List (Nat × Label))
    (hms : Rising size lo (ms.map Prod.fst)) (hpending : ∀ p ∈ pending, first ≤ p ∧ p < lo) (hlo : first ≤ lo) :
    Spread size first (pairMarks size pending ms) := by
  induction ms generalizing pending lo first with
  | nil => exact hlo.trans hms
  | cons m ms ih =>
      obtain ⟨start, label⟩ := m
      obtain ⟨hstart, _, hrest⟩ := hms
      cases label with
      | prompt =>
          refine ih (some start) hrest (fun p hp => ?_) (hlo.trans (Nat.le_succ_of_le hstart))
          cases hp
          exact ⟨hlo.trans hstart, Nat.lt_succ_self start⟩
      | response =>
          cases pending with
          | none => exact ih none hrest (by simp) (hlo.trans (Nat.le_succ_of_le hstart))
          | some prompt =>
              obtain ⟨hfirst, hlt⟩ := hpending prompt rfl
              have hend := hrest.le_next
              rw [List.head?_map] at hend
              refine ⟨hfirst, by simp only; omega, ?_⟩
              refine ih none ?_ (by simp) (le_refl _)
              rw [← List.head?_map]
              exact hrest.from_next

theorem rawGroups_spread {first : Nat} (current : Option RawGroup) (pairs : List Pair)
    (hpairs : Spread size lo (pairs.map fun pair => (pair.start, pair.stop)))
    (hcurrent : ∀ raw ∈ current, first ≤ raw.start ∧ raw.start < raw.stop ∧ raw.stop ≤ lo) (hlo : first ≤ lo) :
    Spread size first ((rawGroups current pairs).map fun raw => (raw.start, raw.stop)) := by
  induction pairs generalizing current lo first with
  | nil =>
      cases current with
      | none => exact hlo.trans hpairs
      | some raw =>
          obtain ⟨hfirst, hlt, hstop⟩ := hcurrent raw rfl
          exact ⟨hfirst, hlt, hstop.trans hpairs⟩
  | cons pair pairs ih =>
      obtain ⟨hstart, hspan, hrest⟩ := hpairs
      have hopen : ∀ {first' : Nat} (count : Nat), first' ≤ pair.start →
          Spread size first' ((rawGroups (some ⟨pair.start, pair.stop, count⟩) pairs).map
            fun raw => (raw.start, raw.stop)) := by
        intro first' count hle
        refine ih _ hrest (fun raw hraw => ?_) (hle.trans hspan.le)
        cases hraw
        exact ⟨hle, hspan, le_refl _⟩
      cases current with
      | none => exact hopen _ (hlo.trans hstart)
      | some raw =>
          obtain ⟨hfirst, hlt, hstop⟩ := hcurrent raw rfl
          unfold rawGroups
          split
          · exact ⟨hfirst, lt_of_lt_of_le hlt (hstop.trans hstart), hopen 2 (le_refl _)⟩
          · refine ih _ hrest (fun raw' hraw => ?_) (hlo.trans (hstart.trans hspan.le))
            cases hraw
            exact ⟨hfirst, hlt.trans_le (hstop.trans (hstart.trans hspan.le)), le_refl _⟩

theorem Spread.pairwise {ranges : List (Nat × Nat)} (h : Spread size lo ranges) :
    (∀ r ∈ ranges, lo ≤ r.1 ∧ r.1 < r.2 ∧ r.2 ≤ size) ∧ ranges.Pairwise fun r s => r.2 ≤ s.1 := by
  induction ranges generalizing lo with
  | nil => exact ⟨by simp, .nil⟩
  | cons range rest ih =>
      obtain ⟨hlo, hspan, hrest⟩ := h
      obtain ⟨hall, hpairwise⟩ := ih hrest
      have hstop : range.2 ≤ size := by
        cases rest with
        | nil => exact hrest
        | cons next rest =>
            obtain ⟨hle, hlt, hsize⟩ := hall next List.mem_cons_self
            omega
      refine ⟨fun r hr => ?_, .cons (fun r hr => (hall r hr).1) hpairwise⟩
      rcases List.mem_cons.mp hr with rfl | hr
      · exact ⟨hlo, hspan, hstop⟩
      · obtain ⟨hle, hlt, hsize⟩ := hall r hr
        exact ⟨by omega, hlt, hsize⟩

theorem place_ranges (itemStart : Nat) (raws : List RawGroup) :
    (place itemStart raws).1.map (fun g => (g.start, g.stop)) = raws.map fun raw => (raw.start, raw.stop) := by
  induction raws generalizing itemStart with
  | nil => rfl
  | cons raw raws ih => exact congrArg _ (ih _)

theorem place_sums (itemStart : Nat) (raws : List RawGroup) :
    (place itemStart raws).2 = itemStart + ((place itemStart raws).1.map Group.itemCount).sum ∧
      ∀ before g after, (place itemStart raws).1 = before ++ g :: after →
        g.itemStart = itemStart + (before.map Group.itemCount).sum := by
  induction raws generalizing itemStart with
  | nil => exact ⟨rfl, fun before g after h => absurd h (by simp [place])⟩
  | cons raw raws ih =>
      obtain ⟨htotal, hstarts⟩ := ih (itemStart + raw.count)
      refine ⟨?_, fun before g after h => ?_⟩
      · simp only [place, List.map_cons, List.sum_cons]
        rw [htotal]
        omega
      · cases before with
        | nil =>
            cases h
            rfl
        | cons first before =>
            obtain ⟨hfirst, hrest⟩ := List.cons.inj h
            have hstart := hstarts before g after hrest
            rw [← hfirst, List.map_cons, List.sum_cons]
            simp only at hstart ⊢
            omega

end Orders

section Agreement

variable (isUser : Bytes → Bool)

theorem bytePairs_spread (data : Bytes) : Spread data.length 0 ((bytePairs data).map Round.range) := by
  have hrising := marks_rising (fun rest => if hasLineEnd rest then labelAt rest else none) 0 true data
  rw [Nat.zero_add, ← byteHeaders_marks] at hrising
  have hranges := pairUp_ranges data.length none (byteHeaders data)
  exact hranges ▸ pairMarks_spread none _ hrising (by simp) (le_refl 0)

theorem index_grouped (data : Bytes) : Grouped data.length (buildArchiveIndex isUser data) := by
  have hpairs : Spread data.length 0 ((indexPairs isUser data).map fun pair => (pair.start, pair.stop)) := by
    rw [indexPairs, List.map_map]
    exact bytePairs_spread data
  have hraws := rawGroups_spread none _ hpairs (by simp) (le_refl 0)
  rw [← place_ranges 0] at hraws
  obtain ⟨hall, hpairwise⟩ := hraws.pairwise
  obtain ⟨htotal, hstarts⟩ := place_sums 0 (rawGroups none (indexPairs isUser data))
  refine ⟨List.pairwise_map.mp hpairwise, fun g hg => ?_, fun before g after h => ?_, ?_⟩
  · exact (hall _ (List.mem_map_of_mem hg)).2
  · rw [hstarts before g after h, Nat.zero_add]
  · exact htotal.trans (Nat.zero_add _)

-- The index sees the rounds of the text unless the file stops on a header line,
-- and its groups are in order in any case.
theorem index_rounds_iff (data : Bytes) :
    (textRanges data = (bytePairs data).map Round.range ∧
      Grouped data.length (buildArchiveIndex isUser data)) ↔ ¬ CutShort (decode data) := by
  rw [← ranges_agree_iff]
  exact and_iff_left (index_grouped isUser data)

end Agreement

-- A round whose response header is the last line of the file, without a line end.
theorem index_misses_round :
    ¬ (textRanges (text "=== Prompt ===\nq\n=== Response ===") =
        (bytePairs (text "=== Prompt ===\nq\n=== Response ===")).map Round.range ∧
      Grouped 33 (buildArchiveIndex (fun _ => true) (text "=== Prompt ===\nq\n=== Response ==="))) := by
  have hranges : textRanges (text "=== Prompt ===\nq\n=== Response ===") ≠
      (bytePairs (text "=== Prompt ===\nq\n=== Response ===")).map Round.range := by decide
  exact fun h => hranges h.1

end GaHub.Archive
