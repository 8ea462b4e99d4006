import GaHub.Page
import GaHub.Lib.Dict
import GaHub.Lib.Sorted
import Mathlib.Data.List.DropRight

namespace GaHub.Page

open Lib

def ACTIVITY_CAP : Nat := 4000

-- The hub's table of rows in the order of their rowids. An event id is its key, and
-- every insertion ends by deleting all but the newest rows.
structure ActivityTable where
  rows : List ActivityEvent
  nodup_ids : (rows.map ActivityEvent.id).Nodup
  capped : rows.length ≤ ACTIVITY_CAP

-- `ORDER BY at_ms DESC, rowid DESC`.
def newestFirst (rows : List ActivityEvent) : List ActivityEvent :=
  rows.reverse.insertionSort fun x y => y.atMs ≤ x.atMs

def ActivityTable.activityForRequest (t : ActivityTable) (requestId : String) (limit : Nat) (beforeMs : Option Nat) :
    List ActivityEvent :=
  let rows := t.rows.filter fun row => decide (row.requestId = requestId) && beforeMs.all fun b => decide (row.atMs < b)
  ((newestFirst rows).take (max 1 limit)).reverse

structure ActivityPage where
  items : List ActivityEvent
  hasMore : Bool

def ActivityTable.getActivity (t : ActivityTable) (requestId : String) (limit : Nat) (beforeMs : Option Nat) :
    ActivityPage :=
  let rows := t.activityForRequest requestId (limit + 1) beforeMs
  let hasMore := decide (limit < rows.length)
  { items := if hasMore then rows.rtake limit else rows, hasMore }

def ACTIVITY_PAGE_SIZE : Nat := 200

section Store

variable {Subagent : Type}

def byId (rows : List ActivityEvent) : Dict String ActivityEvent := Dict.ofList (rows.map fun row => (row.id, row))

-- One turn of the loop over a fetched page: a row that is held stays as it is held.
def keepRow (requestId : String) (held : Dict String ActivityEvent × Bool) (row : ActivityEvent) :
    Dict String ActivityEvent × Bool :=
  if row.requestId ≠ requestId ∨ row.id ∈ held.1.keys then held else (held.1.set row.id row, true)

def ConductorState.hydrateActivity (s : ConductorState Subagent) (rows : List ActivityEvent) (requestId : String) :
    ConductorState Subagent :=
  if rows.isEmpty then s
  else
    let held := rows.foldl (keepRow requestId) (byId s.activity, false)
    if held.2 then
      { s with activity := (held.1.values.insertionSort fun a b => a.atMs ≤ b.atMs).rtake ACTIVITY_LIMIT }
    else s

end Store

-- `useConductorActivity` while one request stays selected, with the store it fills.
structure Timeline where
  store : ConductorState Unit := {}
  cursor : Option Nat := none
  hasMore : Bool := false

namespace Timeline

variable (t : ActivityTable) (requestId : String) (h : Timeline)

def read (beforeMs : Option Nat) : Timeline :=
  let page := t.getActivity requestId ACTIVITY_PAGE_SIZE beforeMs
  { store := h.store.hydrateActivity page.items requestId
    cursor :=
      match page.items.head? with
      | none => h.cursor
      | some oldest => some (beforeMs.elim oldest.atMs fun b => min b oldest.atMs)
    hasMore := page.hasMore }

def loadOlder : Timeline := h.read t requestId (h.cursor.map (· + 1))

-- The timeline is opened over what the store holds, and read back as long as there is more.
def opened (held : ConductorState Unit) : Timeline := ({ store := held : Timeline }).read t requestId none

def scrolled : Nat → Timeline → Timeline
  | 0, h => h
  | n + 1, h => if h.hasMore then scrolled n (h.loadOlder t requestId) else h

end Timeline

def ActivityTable.rowsOf (t : ActivityTable) (requestId : String) : List ActivityEvent :=
  t.rows.filter fun row => decide (row.requestId = requestId)

-- Reading back ends, and every stored row of the request is then held under its id.
def FullyReached (t : ActivityTable) (requestId : String) (held : ConductorState Unit) : Prop :=
  ∃ n, ((Timeline.opened t requestId held).scrolled t requestId n).hasMore = false ∧
    ∀ row ∈ t.rowsOf requestId,
      row.id ∈ ((Timeline.opened t requestId held).scrolled t requestId n).store.activity.map ActivityEvent.id

-- A millisecond that fills a page has nothing before it.
def Spread (rows : List ActivityEvent) : Prop :=
  ∀ row ∈ rows, ACTIVITY_PAGE_SIZE ≤ rows.countP (fun x => decide (x.atMs = row.atMs)) →
    rows.countP (fun x => decide (x.atMs ≤ row.atMs)) ≤ ACTIVITY_PAGE_SIZE

-- What the store holds and the stored rows it does not hold fit the page's own bound.
structure Roomy (rows held : List ActivityEvent) : Prop where
  nodup_ids : (held.map ActivityEvent.id).Nodup
  fits : held.length + (rows.filter fun row => decide (row.id ∉ held.map ActivityEvent.id)).length ≤ ACTIVITY_LIMIT

-- The rows of the request from the oldest to the newest: every answer is a piece of this list.
def ActivityTable.history (t : ActivityTable) (requestId : String) : List ActivityEvent :=
  (newestFirst (t.rowsOf requestId)).reverse

def stamp (row : ActivityEvent) : Int := row.atMs

section Answers

variable {t : ActivityTable} {requestId : String}

theorem newestFirst_filter (p : ActivityEvent → Bool) (rows : List ActivityEvent) :
    newestFirst (rows.filter p) = (newestFirst rows).filter p := by
  have : IsTrans ActivityEvent fun x y => y.atMs ≤ x.atMs := ⟨fun _ _ _ hxy hyz => Nat.le_trans hyz hxy⟩
  have : Std.Total fun x y : ActivityEvent => y.atMs ≤ x.atMs := ⟨fun x y => Nat.le_total y.atMs x.atMs⟩
  rw [newestFirst, newestFirst, filter_insertionSort, List.filter_reverse]

theorem history_perm : (t.history requestId).Perm (t.rowsOf requestId) :=
  (List.reverse_perm _).trans ((List.perm_insertionSort _ _).trans (List.reverse_perm _))

theorem history_sorted : (t.history requestId).Pairwise fun x y => stamp x ≤ stamp y := by
  have : IsTrans ActivityEvent fun x y => y.atMs ≤ x.atMs := ⟨fun _ _ _ hxy hyz => Nat.le_trans hyz hxy⟩
  have : Std.Total fun x y : ActivityEvent => y.atMs ≤ x.atMs := ⟨fun x y => Nat.le_total y.atMs x.atMs⟩
  have hsorted := List.pairwise_insertionSort (fun x y : ActivityEvent => y.atMs ≤ x.atMs) (t.rowsOf requestId).reverse
  exact List.pairwise_reverse.mpr (hsorted.imp fun h => by
    simp only [stamp]
    omega)

theorem activityForRequest_eq (limit : Nat) (beforeMs : Option Nat) :
    t.activityForRequest requestId limit beforeMs =
      ((t.history requestId).filter fun row => beforeMs.all fun b => decide (row.atMs < b)).rtake (max 1 limit) := by
  have hsplit : (t.rows.filter fun row => decide (row.requestId = requestId) && beforeMs.all fun b => decide (row.atMs < b)) =
      (t.rowsOf requestId).filter fun row => beforeMs.all fun b => decide (row.atMs < b) := by
    rw [ActivityTable.rowsOf, List.filter_filter]
    exact List.filter_congr fun row _ => Bool.and_comm _ _
  simp only [ActivityTable.activityForRequest, hsplit, newestFirst_filter, List.rtake_eq_reverse_take_reverse,
    ActivityTable.history, List.filter_reverse, List.reverse_reverse]

theorem getActivity_eq (limit : Nat) (beforeMs : Option Nat) {rows : List ActivityEvent}
    (hrows : (t.history requestId).filter (fun row => beforeMs.all fun b => decide (row.atMs < b)) = rows) :
    t.getActivity requestId limit beforeMs = { items := rows.rtake limit, hasMore := decide (limit < rows.length) } := by
  have hanswer : t.activityForRequest requestId (limit + 1) beforeMs = rows.rtake (limit + 1) := by
    rw [activityForRequest_eq, hrows, Nat.max_eq_right (by omega)]
  have hmore : (limit < (rows.rtake (limit + 1)).length) ↔ limit < rows.length := by
    rw [List.rtake, List.length_drop]
    omega
  simp only [ActivityTable.getActivity, hanswer, hmore, decide_eq_true_eq]
  split
  · rename_i hlong
    congr 1
    simp only [List.rtake, List.length_drop, List.drop_drop]
    congr 1
    omega
  · rename_i hshort
    have hall : rows.length - limit = 0 := by omega
    have hall' : rows.length - (limit + 1) = 0 := by omega
    rw [List.rtake, List.rtake, hall, hall']

theorem getActivity_newest (limit : Nat) : t.getActivity requestId limit none =
    { items := (t.history requestId).drop ((t.history requestId).length - limit)
      hasMore := decide (limit < (t.history requestId).length) } :=
  getActivity_eq limit none (List.filter_eq_self.mpr fun _ _ => rfl)

theorem getActivity_before (limit k : Nat) : t.getActivity requestId limit (some (k + 1)) =
    { items := ((t.history requestId).take (upTo stamp k (t.history requestId))).drop
        (upTo stamp k (t.history requestId) - limit)
      hasMore := decide (limit < upTo stamp k (t.history requestId)) } := by
  have hlength : ((t.history requestId).take (upTo stamp k (t.history requestId))).length =
      upTo stamp k (t.history requestId) := by
    rw [List.length_take, Nat.min_eq_left (upTo_le _)]
  have htake : (t.history requestId).filter (fun row => (some (k + 1)).all fun b => decide (row.atMs < b)) =
      (t.history requestId).take (upTo stamp k (t.history requestId)) := by
    rw [← filter_eq_take history_sorted]
    refine List.filter_congr fun row _ => ?_
    have hsame : row.atMs < k + 1 ↔ stamp row ≤ k := by
      unfold stamp
      omega
    simp only [Option.all_some, hsame]
  rw [getActivity_eq limit _ htake, List.rtake, hlength]

end Answers

section Client

variable {rows held activity : List ActivityEvent} {requestId : String}

-- The timeline of the store: what it held and stored rows, every id once.
structure Stocked (rows held activity : List ActivityEvent) : Prop where
  nodup_ids : (activity.map ActivityEvent.id).Nodup
  keeps : ∀ x ∈ held, x ∈ activity
  known : ∀ x ∈ activity, x ∈ held ∨ x ∈ rows

structure Merged (rows held : List ActivityEvent) (d : Dict String ActivityEvent) : Prop where
  keyed : d.keys = d.values.map ActivityEvent.id
  keeps : ∀ x ∈ held, x ∈ d.values
  known : ∀ x ∈ d.values, x ∈ held ∨ x ∈ rows

theorem Stocked.length_le (h : Stocked rows held activity) (hroom : Roomy rows held) : activity.length ≤ ACTIVITY_LIMIT := by
  have hsub : activity ⊆ held ++ rows.filter fun row => decide (row.id ∉ held.map ActivityEvent.id) := by
    intro x hx
    by_cases hin : x.id ∈ held.map ActivityEvent.id
    · obtain ⟨y, hy, hid⟩ := List.mem_map.mp hin
      obtain rfl := List.inj_on_of_nodup_map h.nodup_ids (h.keeps y hy) hx hid
      exact List.mem_append_left _ hy
    · rcases h.known x hx with hheld | hrow
      · exact absurd (List.mem_map_of_mem hheld) hin
      · exact List.mem_append_right _ (List.mem_filter.mpr ⟨hrow, decide_eq_true hin⟩)
  have hle := (List.subperm_of_subset (List.Nodup.of_map _ h.nodup_ids) hsub).length_le
  rw [List.length_append] at hle
  exact hle.trans hroom.fits

theorem byId_entries (h : (activity.map ActivityEvent.id).Nodup) :
    (byId activity).entries = activity.map fun row => (row.id, row) := by
  have hkeys : ((activity.map fun row => (row.id, row)).map Prod.fst).Nodup := by
    rw [List.map_map]
    exact h
  exact congrArg Dict.entries (Dict.ofList_entries ⟨_, hkeys⟩)

theorem byId_values (h : (activity.map ActivityEvent.id).Nodup) : (byId activity).values = activity := by
  rw [Dict.values, byId_entries h, List.map_map]
  exact List.map_id' activity

theorem byId_keys (h : (activity.map ActivityEvent.id).Nodup) : (byId activity).keys = activity.map ActivityEvent.id := by
  rw [Dict.keys, byId_entries h, List.map_map]
  rfl

theorem merged_byId (h : Stocked rows held activity) : Merged rows held (byId activity) where
  keyed := by rw [byId_keys h.nodup_ids, byId_values h.nodup_ids]
  keeps := by
    rw [byId_values h.nodup_ids]
    exact h.keeps
  known := by
    rw [byId_values h.nodup_ids]
    exact h.known

theorem keepRow_merged {d : Dict String ActivityEvent} (changed : Bool) {row : ActivityEvent} (h : Merged rows held d)
    (hrow : row ∈ rows) (hrequest : row.requestId = requestId) :
    Merged rows held (keepRow requestId (d, changed) row).1 ∧ row.id ∈ (keepRow requestId (d, changed) row).1.keys ∧
      d.keys ⊆ (keepRow requestId (d, changed) row).1.keys ∧
      (keepRow requestId (d, changed) row = (d, changed) ∨ (keepRow requestId (d, changed) row).2 = true) := by
  by_cases hin : row.id ∈ d.keys
  · have hsame : keepRow requestId (d, changed) row = (d, changed) := if_pos (Or.inr hin)
    rw [hsame]
    exact ⟨h, hin, List.Subset.refl _, Or.inl rfl⟩
  · have hnew : keepRow requestId (d, changed) row = (d.set row.id row, true) :=
      if_neg (by simp [hrequest, hin])
    have hvalues : (d.set row.id row).values = d.values ++ [row] := by
      rw [Dict.values, Dict.entries_set_of_not_mem row hin, List.map_append]
      rfl
    rw [hnew]
    refine ⟨⟨?_, ?_, ?_⟩, ?_, ?_, Or.inr rfl⟩
    · rw [Dict.keys_set_of_not_mem row hin, hvalues, List.map_append, h.keyed]
      rfl
    · intro x hx
      rw [hvalues]
      exact List.mem_append_left _ (h.keeps x hx)
    · intro x hx
      rw [hvalues] at hx
      rcases List.mem_append.mp hx with hold | hlast
      · exact h.known x hold
      · exact Or.inr (List.mem_singleton.mp hlast ▸ hrow)
    · rw [Dict.keys_set_of_not_mem row hin]
      exact List.mem_append_right _ (List.mem_singleton.mpr rfl)
    · rw [Dict.keys_set_of_not_mem row hin]
      exact List.subset_append_left _ _

theorem foldl_keepRow_merged {page : List ActivityEvent} {d : Dict String ActivityEvent} (changed : Bool)
    (h : Merged rows held d) (hpage : ∀ row ∈ page, row ∈ rows ∧ row.requestId = requestId) :
    Merged rows held (page.foldl (keepRow requestId) (d, changed)).1 ∧
      (∀ row ∈ page, row.id ∈ (page.foldl (keepRow requestId) (d, changed)).1.keys) ∧
      d.keys ⊆ (page.foldl (keepRow requestId) (d, changed)).1.keys ∧
      ((page.foldl (keepRow requestId) (d, changed)).2 = false → page.foldl (keepRow requestId) (d, changed) = (d, changed)) := by
  induction page generalizing d changed with
  | nil => exact ⟨h, by simp, List.Subset.refl _, fun _ => rfl⟩
  | cons row page ih =>
      obtain ⟨hrow, hrequest⟩ := hpage row List.mem_cons_self
      obtain ⟨hmerged, hid, hkeys, hsame⟩ := keepRow_merged changed h hrow hrequest
      obtain ⟨hmerged', hids, hkeys', hsame'⟩ :=
        ih (keepRow requestId (d, changed) row).2 hmerged fun r hr => hpage r (List.mem_cons_of_mem _ hr)
      refine ⟨hmerged', ?_, fun k hk => hkeys' (hkeys hk), fun hno => ?_⟩
      · intro r hr
        rcases List.mem_cons.mp hr with rfl | hin
        · exact hkeys' hid
        · exact hids r hin
      · have hrest := hsame' hno
        rcases hsame with hstep | hchanged
        · exact hrest.trans hstep
        · have hlast := congrArg Prod.snd hrest
          rw [List.foldl_cons] at hno
          rw [hno, hchanged] at hlast
          cases hlast

theorem hydrate_stocked {s : ConductorState Unit} {page : List ActivityEvent} (h : Stocked rows held s.activity)
    (hroom : Roomy rows held) (hpage : ∀ row ∈ page, row ∈ rows ∧ row.requestId = requestId) :
    Stocked rows held (s.hydrateActivity page requestId).activity ∧
      (∀ row ∈ page, row.id ∈ (s.hydrateActivity page requestId).activity.map ActivityEvent.id) ∧
      s.activity.map ActivityEvent.id ⊆ (s.hydrateActivity page requestId).activity.map ActivityEvent.id := by
  obtain ⟨hmerged, hids, hkeys, hsame⟩ := foldl_keepRow_merged false (merged_byId h) hpage
  rw [byId_keys h.nodup_ids] at hkeys
  unfold ConductorState.hydrateActivity
  split
  · rename_i hnone
    have hnil : page = [] := List.isEmpty_iff.mp hnone
    subst hnil
    exact ⟨h, by simp, List.Subset.refl _⟩
  · generalize page.foldl (keepRow requestId) (byId s.activity, false) = merged at *
    dsimp only
    split
    · have hperm := List.perm_insertionSort (fun a b : ActivityEvent => a.atMs ≤ b.atMs) merged.1.values
      have hvalues : Stocked rows held merged.1.values :=
        { nodup_ids := hmerged.keyed ▸ merged.1.keys_nodup, keeps := hmerged.keeps, known := hmerged.known }
      have hall : (merged.1.values.insertionSort fun a b => a.atMs ≤ b.atMs).rtake ACTIVITY_LIMIT =
          merged.1.values.insertionSort fun a b => a.atMs ≤ b.atMs := by
        have hle := hvalues.length_le hroom
        have hzero : (merged.1.values.insertionSort fun a b : ActivityEvent => a.atMs ≤ b.atMs).length -
            ACTIVITY_LIMIT = 0 := by
          rw [hperm.length_eq]
          omega
        rw [List.rtake, hzero, List.drop_zero]
      simp only [hall]
      have hsub : ∀ k, k ∈ merged.1.keys ↔
          k ∈ (merged.1.values.insertionSort fun a b : ActivityEvent => a.atMs ≤ b.atMs).map ActivityEvent.id := by
        intro k
        rw [hmerged.keyed, (hperm.map ActivityEvent.id).mem_iff]
      refine ⟨⟨?_, ?_, ?_⟩, fun row hrow => (hsub _).mp (hids row hrow), fun k hk => (hsub k).mp (hkeys hk)⟩
      · exact (hperm.map ActivityEvent.id).nodup_iff.mpr hvalues.nodup_ids
      · exact fun x hx => hperm.mem_iff.mpr (hvalues.keeps x hx)
      · exact fun x hx => hvalues.known x (hperm.mem_iff.mp hx)
    · rename_i hno
      have hkept := hsame (by simpa using hno)
      refine ⟨h, fun row hrow => ?_, List.Subset.refl _⟩
      have hin := hids row hrow
      rw [hkept] at hin
      rwa [byId_keys h.nodup_ids] at hin

end Client

end GaHub.Page
