import GaHub.Page.Activity

namespace GaHub.Page

open Lib

section Walk

variable {t : ActivityTable} {requestId : String} {h : Timeline} {i : Nat}

-- Reading back has come to the row in this place; there is more unless it is the oldest.
structure At (t : ActivityTable) (requestId : String) (h : Timeline) (i : Nat) : Prop where
  cursor : ∃ row, (t.history requestId)[i]? = some row ∧ h.cursor = some row.atMs
  more : h.hasMore = decide (0 < i)

structure Covers (t : ActivityTable) (requestId : String) (held : List ActivityEvent) (h : Timeline) (i : Nat) : Prop where
  stocked : Stocked (t.history requestId) held h.store.activity
  shown : ∀ row ∈ (t.history requestId).drop i, row.id ∈ h.store.activity.map ActivityEvent.id

theorem mem_history {row : ActivityEvent} (hrow : row ∈ t.history requestId) :
    row ∈ t.history requestId ∧ row.requestId = requestId := by
  have hin := (List.mem_filter.mp (history_perm.mem_iff.mp hrow)).2
  exact ⟨hrow, by simpa using hin⟩

theorem opened_at (held : ConductorState Unit) (hne : t.history requestId ≠ []) :
    At t requestId (Timeline.opened t requestId held) ((t.history requestId).length - ACTIVITY_PAGE_SIZE) := by
  have hlt : (t.history requestId).length - ACTIVITY_PAGE_SIZE < (t.history requestId).length := by
    have hpos := List.length_pos_iff.mpr hne
    simp only [ACTIVITY_PAGE_SIZE]
    omega
  constructor
  · refine ⟨_, List.getElem?_eq_getElem hlt, ?_⟩
    simp only [Timeline.opened, Timeline.read, getActivity_newest, List.head?_drop, List.getElem?_eq_getElem hlt,
      Option.elim_none]
  · simp only [Timeline.opened, Timeline.read, getActivity_newest]
    exact decide_eq_decide.mpr (by omega)

theorem opened_covers {held : ConductorState Unit} (hroom : Roomy (t.history requestId) held.activity) :
    Covers t requestId held.activity (Timeline.opened t requestId held)
      ((t.history requestId).length - ACTIVITY_PAGE_SIZE) := by
  have hstart : Stocked (t.history requestId) held.activity held.activity :=
    { nodup_ids := hroom.nodup_ids, keeps := fun _ hx => hx, known := fun _ hx => Or.inl hx }
  obtain ⟨hstocked, hids, -⟩ := hydrate_stocked hstart hroom
    fun row (hrow : row ∈ (t.history requestId).drop ((t.history requestId).length - ACTIVITY_PAGE_SIZE)) =>
      mem_history (List.mem_of_mem_drop hrow)
  simp only [Timeline.opened, Timeline.read, getActivity_newest]
  exact ⟨hstocked, hids⟩

-- The page before a row ends with the last row of its millisecond.
def older (t : ActivityTable) (requestId : String) (row : ActivityEvent) : Nat :=
  upTo stamp (stamp row) (t.history requestId) - ACTIVITY_PAGE_SIZE

theorem loadOlder_at {row : ActivityEvent} (hrow : (t.history requestId)[i]? = some row)
    (hcursor : h.cursor = some row.atMs) : At t requestId (h.loadOlder t requestId) (older t requestId row) := by
  have hi : i < upTo stamp (row.atMs : Int) (t.history requestId) :=
    (lt_upTo_iff history_sorted hrow _).mpr (Int.le_refl _)
  have hle : upTo stamp (row.atMs : Int) (t.history requestId) ≤ (t.history requestId).length := upTo_le _
  have hfirst : upTo stamp (row.atMs : Int) (t.history requestId) - ACTIVITY_PAGE_SIZE <
      upTo stamp (row.atMs : Int) (t.history requestId) := by
    simp only [ACTIVITY_PAGE_SIZE]
    omega
  have hlt := Nat.lt_of_lt_of_le hfirst hle
  constructor
  · refine ⟨_, List.getElem?_eq_getElem hlt, ?_⟩
    have hearly := (lt_upTo_iff history_sorted (List.getElem?_eq_getElem hlt) (row.atMs : Int)).mp hfirst
    simp only [Timeline.loadOlder, hcursor, Option.map_some, Timeline.read, getActivity_before, List.head?_drop,
      List.getElem?_take_of_lt hfirst, List.getElem?_eq_getElem hlt, Option.elim_some]
    exact congrArg some (Nat.min_eq_right (Nat.le_succ_of_le (Int.ofNat_le.mp hearly)))
  · simp only [Timeline.loadOlder, hcursor, Option.map_some, Timeline.read, getActivity_before, older, stamp]
    exact decide_eq_decide.mpr (by omega)

theorem loadOlder_covers {held : List ActivityEvent} {row : ActivityEvent} (hroom : Roomy (t.history requestId) held)
    (hrow : (t.history requestId)[i]? = some row) (hcursor : h.cursor = some row.atMs)
    (hcovers : Covers t requestId held h i) :
    Covers t requestId held (h.loadOlder t requestId) (older t requestId row) := by
  have hi : i < upTo stamp (row.atMs : Int) (t.history requestId) :=
    (lt_upTo_iff history_sorted hrow _).mpr (Int.le_refl _)
  obtain ⟨hstocked, hids, hkept⟩ := hydrate_stocked hcovers.stocked hroom
    fun x (hx : x ∈ ((t.history requestId).take (upTo stamp (row.atMs : Int) (t.history requestId))).drop
      (upTo stamp (row.atMs : Int) (t.history requestId) - ACTIVITY_PAGE_SIZE)) =>
      mem_history (List.mem_of_mem_take (List.mem_of_mem_drop hx))
  simp only [Timeline.loadOlder, hcursor, Option.map_some, Timeline.read, getActivity_before]
  refine ⟨hstocked, fun x hx => ?_⟩
  have hstart : older t requestId row = upTo stamp (row.atMs : Int) (t.history requestId) - ACTIVITY_PAGE_SIZE := rfl
  generalize older t requestId row = start at hx hstart
  obtain ⟨j, hj, rfl⟩ := List.mem_drop_iff_getElem.mp hx
  by_cases hlate : i ≤ start + j
  · refine hkept (hcovers.shown _ (List.mem_drop_iff_getElem.mpr ⟨start + j - i, ?_, ?_⟩))
    · omega
    · congr 1
      omega
  · refine hids _ (List.mem_drop_iff_getElem.mpr ⟨j, ?_, ?_⟩)
    · rw [List.length_take]
      omega
    · simp only [List.getElem_take, hstart]

theorem spread_history (hspread : Spread (t.rowsOf requestId)) {row : ActivityEvent} (hrow : row ∈ t.history requestId)
    (hfull : ACTIVITY_PAGE_SIZE ≤ (t.history requestId).countP fun x => decide (stamp x = stamp row)) :
    upTo stamp (stamp row) (t.history requestId) ≤ ACTIVITY_PAGE_SIZE := by
  simp only [stamp, Int.ofNat_inj] at hfull
  rw [history_perm.countP_eq] at hfull
  have hle := hspread row (history_perm.mem_iff.mp hrow) hfull
  rw [upTo_perm history_perm]
  simpa only [upTo, stamp, Int.ofNat_le] using hle

theorem scrolled_reaches {held : List ActivityEvent} (hspread : Spread (t.rowsOf requestId))
    (hroom : Roomy (t.history requestId) held) (hat : At t requestId h i) (hcovers : Covers t requestId held h i) :
    ∃ n, (h.scrolled t requestId n).hasMore = false ∧ ∀ row ∈ t.rowsOf requestId,
      row.id ∈ (h.scrolled t requestId n).store.activity.map ActivityEvent.id := by
  induction i using Nat.strongRecOn generalizing h with
  | ind i ih =>
      by_cases hi : 0 < i
      · obtain ⟨row, hrow, hcursor⟩ := hat.cursor
        have hmore : h.hasMore = true := hat.more.trans (decide_eq_true hi)
        have hlt : older t requestId row < i :=
          page_start_lt history_sorted hrow hi (spread_history hspread (List.mem_of_getElem? hrow))
        obtain ⟨n, hends, hheld⟩ := ih _ hlt (loadOlder_at hrow hcursor) (loadOlder_covers hroom hrow hcursor hcovers)
        refine ⟨n + 1, ?_, ?_⟩
        · rw [Timeline.scrolled, if_pos hmore]
          exact hends
        · rw [Timeline.scrolled, if_pos hmore]
          exact hheld
      · refine ⟨0, hat.more.trans (decide_eq_false hi), fun row hrow => ?_⟩
        have hstart : i = 0 := by omega
        exact hcovers.shown row (by rw [hstart, List.drop_zero]; exact history_perm.mem_iff.mpr hrow)

theorem scrolled_stuck {m : Int} (hfull : ACTIVITY_PAGE_SIZE ≤ (t.history requestId).countP fun x => decide (stamp x = m))
    (hmore : ACTIVITY_PAGE_SIZE < upTo stamp m (t.history requestId)) (n : Nat) (hat : At t requestId h i)
    (hi : upTo stamp (m - 1) (t.history requestId) ≤ i) (hpos : 0 < i) : (h.scrolled t requestId n).hasMore = true := by
  have hmore' : h.hasMore = true := hat.more.trans (decide_eq_true hpos)
  induction n generalizing h i with
  | zero => exact hmore'
  | succ n ih =>
      obtain ⟨row, hrow, hcursor⟩ := hat.cursor
      obtain ⟨hbehind, hstart⟩ := page_start_stuck hfull hmore (key_of_upTo_le history_sorted hrow hi)
      have hnext := loadOlder_at hrow hcursor
      rw [Timeline.scrolled, if_pos hmore']
      exact ih hnext hbehind hstart (hnext.more.trans (decide_eq_true hstart))

theorem spread_of_reached {held : ConductorState Unit} (hreached : FullyReached t requestId held) :
    Spread (t.rowsOf requestId) := by
  intro row hrow hfull
  by_contra hmore
  have hin := history_perm.mem_iff.mpr hrow
  have hfull' : ACTIVITY_PAGE_SIZE ≤ (t.history requestId).countP fun x => decide (stamp x = stamp row) := by
    rw [history_perm.countP_eq]
    simpa only [stamp, Int.ofNat_inj] using hfull
  have hmore' : ACTIVITY_PAGE_SIZE < upTo stamp (stamp row) (t.history requestId) := by
    rw [upTo_perm history_perm]
    simpa only [upTo, stamp, Int.ofNat_le] using Nat.lt_of_not_le hmore
  have hsplit := upTo_pred stamp (stamp row) (t.history requestId)
  have hall : upTo stamp (stamp row) (t.history requestId) ≤ (t.history requestId).length := upTo_le _
  obtain ⟨n, hends, -⟩ := hreached
  have hstays := scrolled_stuck hfull' hmore' n (opened_at held (List.ne_nil_of_mem hin)) (by omega) (by omega)
  rw [hends] at hstays
  cases hstays

theorem roomy_history {held : List ActivityEvent} (hroom : Roomy (t.rowsOf requestId) held) :
    Roomy (t.history requestId) held where
  nodup_ids := hroom.nodup_ids
  fits := by
    rw [(history_perm.filter _).length_eq]
    exact hroom.fits

end Walk

-- Over a timeline with room for the stored rows, reading back reaches all of them exactly when
-- no millisecond fills a page with something before it. Over an empty one there is always room.
theorem fullyReached_iff (t : ActivityTable) (requestId : String) :
    (∀ held : ConductorState Unit, Roomy (t.rowsOf requestId) held.activity →
      (FullyReached t requestId held ↔ Spread (t.rowsOf requestId))) ∧
    (FullyReached t requestId {} ↔ Spread (t.rowsOf requestId)) := by
  have hall : ∀ held : ConductorState Unit, Roomy (t.rowsOf requestId) held.activity →
      (FullyReached t requestId held ↔ Spread (t.rowsOf requestId)) := by
    intro held hroom
    refine ⟨spread_of_reached, fun hspread => ?_⟩
    by_cases hne : t.history requestId = []
    · refine ⟨0, ?_, fun row hrow => ?_⟩
      · simp only [Timeline.scrolled, Timeline.opened, Timeline.read, getActivity_newest, hne]
        rfl
      · have hin := history_perm.mem_iff.mpr hrow
        rw [hne] at hin
        cases hin
    · exact scrolled_reaches hspread (roomy_history hroom) (opened_at held hne) (opened_covers (roomy_history hroom))
  refine ⟨hall, hall {} ⟨List.nodup_nil, ?_⟩⟩
  have hrows : (t.rowsOf requestId).length ≤ t.rows.length := List.length_filter_le _ _
  have hfilter := List.length_filter_le (fun row : ActivityEvent => decide (row.id ∉ [].map ActivityEvent.id)) (t.rowsOf requestId)
  have hcap := t.capped
  simp only [ACTIVITY_CAP, ACTIVITY_LIMIT, List.length_nil] at *
  omega

-- Two rows of one request around a row of another, over a store that holds the latter already.
def smallTable : ActivityTable where
  rows := [⟨"a", "r", 5⟩, ⟨"b", "q", 5⟩, ⟨"c", "r", 5⟩]
  nodup_ids := by decide
  capped := by decide

theorem fullyReached_iff_small :
    FullyReached smallTable "r" { activity := [⟨"b", "q", 5⟩] } ∧ FullyReached smallTable "r" {} := by
  have hrows : smallTable.rowsOf "r" = [⟨"a", "r", 5⟩, ⟨"c", "r", 5⟩] := by decide
  have hspread : Spread (smallTable.rowsOf "r") := by
    rw [hrows]
    exact fun _ _ hfull => absurd (hfull.trans List.countP_le_length) (by decide)
  have hroom : Roomy (smallTable.rowsOf "r") [⟨"b", "q", 5⟩] := by
    rw [hrows]
    exact ⟨by decide, by decide⟩
  obtain ⟨hall, hempty⟩ := fullyReached_iff smallTable "r"
  exact ⟨(hall { activity := [⟨"b", "q", 5⟩] } hroom).mpr hspread, hempty.mpr hspread⟩

-- One row more than a page in a single millisecond.
def crowdedTable : ActivityTable where
  rows := (List.range (ACTIVITY_PAGE_SIZE + 1)).map fun i => ⟨String.ofList (List.replicate i 'e'), "r", 0⟩
  nodup_ids := by
    rw [List.map_map]
    refine List.nodup_range.map fun i j hij => ?_
    have hlength := congrArg List.length (String.ofList_injective hij)
    simpa using hlength
  capped := by simp [ACTIVITY_PAGE_SIZE, ACTIVITY_CAP]

theorem crowdedTable_never_read : ¬FullyReached crowdedTable "r" {} := by
  intro hreached
  have hrow : ∀ row ∈ crowdedTable.rows, row.requestId = "r" ∧ row.atMs = 0 := by
    intro row hrow
    obtain ⟨i, -, rfl⟩ := List.mem_map.mp hrow
    exact ⟨rfl, rfl⟩
  have hrows : crowdedTable.rowsOf "r" = crowdedTable.rows :=
    List.filter_eq_self.mpr fun row h => decide_eq_true (hrow row h).1
  have hlength : crowdedTable.rows.length = ACTIVITY_PAGE_SIZE + 1 := by simp [crowdedTable]
  have hcount : ∀ p : ActivityEvent → Bool, (∀ row ∈ crowdedTable.rows, p row = true) →
      crowdedTable.rows.countP p = ACTIVITY_PAGE_SIZE + 1 := by
    intro p hp
    rw [List.countP_eq_length.mpr hp, hlength]
  obtain ⟨first, hfirst⟩ : ∃ row, row ∈ crowdedTable.rows := List.exists_mem_of_length_pos (by omega)
  have hspread := spread_of_reached hreached first (hrows ▸ hfirst)
  rw [hrows, (hrow first hfirst).2, hcount _ fun row h => decide_eq_true (hrow row h).2,
    hcount _ fun row h => decide_eq_true (Nat.le_of_eq (hrow row h).2)] at hspread
  have hle := hspread (by omega)
  omega

end GaHub.Page
