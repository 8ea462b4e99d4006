import GaHub.EventBus
import Mathlib.Data.Nat.Basic

namespace GaHub.EventBus

open Lib

variable {P : Type}

theorem startsWith_iff (topic pre : String) :
    startsWith topic pre = true ↔ pre.toList <+: topic.toList := List.isPrefixOf_iff_prefix

instance (filter : PrefixFilter) (topic : String) : Decidable (filter.Accepts topic) :=
  match filter with
  | .one value => inferInstanceAs (Decidable (value.toList <+: topic.toList))
  | .many values =>
      inferInstanceAs (Decidable (values = [] ∨ ∃ value ∈ values, value.toList <+: topic.toList))

theorem matchesTopic_normalize (filter : PrefixFilter) (topic : String) :
    matchesTopic topic (normalizePrefixes filter) = true ↔ filter.Accepts topic := by
  cases filter with
  | one value =>
      by_cases hv : value = ""
      · simp [normalizePrefixes, matchesTopic, PrefixFilter.Accepts, hv]
      · simp [normalizePrefixes, matchesTopic, PrefixFilter.Accepts, hv, startsWith_iff]
  | many values =>
      simp only [normalizePrefixes, PrefixFilter.Accepts]
      by_cases hv : values = [] ∨ "" ∈ values
      · rw [if_pos hv]
        refine ⟨fun _ => hv.imp_right fun h => ⟨"", h, ?_⟩, fun _ => by simp [matchesTopic]⟩
        exact List.nil_prefix
      · rw [if_neg hv]
        rw [not_or] at hv
        have hne : values.eraseDups ≠ [] := by
          intro he
          obtain ⟨value, rest, rfl⟩ := List.exists_cons_of_ne_nil hv.1
          rw [List.eraseDups_cons] at he
          cases he
        simp [matchesTopic, hne, hv.1, startsWith_iff]

-- The bus against the full list of what was published on it: the history is
-- a suffix, and the eviction table folds the part that was dropped.
structure Recorded (bus : Bus P) (published : List (Event P)) : Prop where
  split : ∃ dropped, published = dropped ++ bus.history ∧
    bus.evictedTopicIds = Dict.ofList (dropped.map fun e => (e.topic, e.eventId))
  ids : published.map Event.eventId = List.range' 1 published.length
  next : bus.nextEventId = published.length + 1
  bounded : ∀ n, bus.maxlen = some n → bus.history.length ≤ n

section Append

variable {bus : Bus P} {published : List (Event P)}

theorem Recorded.ids_concat (h : Recorded bus published) (call : Publication P) :
    (published ++ [call.toEvent bus.nextEventId]).map Event.eventId =
      List.range' 1 (published ++ [call.toEvent bus.nextEventId]).length := by
  rw [List.map_append, h.ids, List.length_append, List.length_singleton, List.range'_concat]
  simp [Publication.toEvent, h.next, Nat.add_comm]

-- The append and the eviction note agree on what leaves the window, at
-- capacity zero (the new event itself), on a full window and below it.
theorem append_split (h : Recorded bus published) (evt : Event P) :
    ∃ dropped, published ++ [evt] = dropped ++ dequeAppend bus.maxlen bus.history evt ∧
      noteEviction bus evt = Dict.ofList (dropped.map fun e => (e.topic, e.eventId)) := by
  obtain ⟨dropped, hp, he⟩ := h.split
  cases hm : bus.maxlen with
  | none => exact ⟨dropped, by simp [hp, dequeAppend], by simp [noteEviction, hm, he]⟩
  | some n =>
      have hb := h.bounded n hm
      by_cases hfull : bus.history.length = n
      · cases hh : bus.history with
        | nil =>
            have hn : n = 0 := by simpa [hh] using hfull.symm
            subst hn
            refine ⟨dropped ++ [evt], by simp [hp, hh, dequeAppend], ?_⟩
            rw [List.map_append, List.map_singleton, Dict.ofList_concat]
            simp [noteEviction, hm, he]
        | cons oldest rest =>
            have hn : n = rest.length + 1 := by simpa [hh] using hfull.symm
            subst hn
            refine ⟨dropped ++ [oldest], ?_, ?_⟩
            · have hl : (oldest :: rest ++ [evt]).length - (rest.length + 1) = 1 := by simp
              simp only [dequeAppend, hl]
              simp [hp, hh]
            · rw [List.map_append, List.map_singleton, Dict.ofList_concat]
              simp [noteEviction, hm, hh, he]
      · have hl : (bus.history ++ [evt]).length - n = 0 := by
          rw [List.length_append, List.length_singleton]
          omega
        refine ⟨dropped, by simp only [dequeAppend, hl]; simp [hp], ?_⟩
        have h0 : n ≠ 0 := by omega
        simp [noteEviction, hm, h0, Ne.symm hfull, he]

theorem length_dequeAppend_le (maxlen : Option Nat) (items : List (Event P)) (evt : Event P)
    (n : Nat) (hn : maxlen = some n) : (dequeAppend maxlen items evt).length ≤ n := by
  subst hn
  simp only [dequeAppend, List.length_drop]
  omega

theorem publish_recorded (h : Recorded bus published) (call : Publication P) :
    Recorded (publish bus call).1 (published ++ [call.toEvent bus.nextEventId]) := by
  have hnext : bus.nextEventId + 1 =
      (published ++ [call.toEvent bus.nextEventId]).length + 1 := by simp [h.next]
  have hbound := length_dequeAppend_le bus.maxlen bus.history (call.toEvent bus.nextEventId)
  unfold publish
  cases bus.loop with
  | none => exact ⟨append_split h _, h.ids_concat call, hnext, hbound⟩
  | some loop =>
      by_cases hs : bus.dispatchScheduled = true <;>
        simp only [hs] <;>
        exact ⟨append_split h _, h.ids_concat call, hnext, hbound⟩

end Append

-- The events a sequence of publishes creates, the first one numbered `n`.
def numbered : Nat → List (Publication P) → List (Event P)
  | _, [] => []
  | n, call :: calls => call.toEvent n :: numbered (n + 1) calls

def publishAll (bus : Bus P) (calls : List (Publication P)) : Bus P :=
  calls.foldl (fun b call => (publish b call).1) bus

theorem publishAll_recorded {bus : Bus P} {published : List (Event P)}
    (h : Recorded bus published) (calls : List (Publication P)) :
    Recorded (publishAll bus calls) (published ++ numbered (published.length + 1) calls) := by
  induction calls generalizing bus published with
  | nil => simpa [publishAll, numbered] using h
  | cons call calls ih =>
      have hstep := ih (publish_recorded h call)
      rw [h.next] at hstep
      simpa [publishAll, numbered] using hstep

theorem recorded_init {bus : Bus P} (hh : bus.history = []) (hn : bus.nextEventId = 1)
    (he : bus.evictedTopicIds = .empty) : Recorded bus [] :=
  ⟨⟨[], by simp [hh], by simp [he, Dict.ofList]⟩, rfl, hn, fun n _ => by simp [hh]⟩

section Window

variable {bus : Bus P} {published : List (Event P)}

theorem Recorded.ids_lt (h : Recorded bus published) :
    published.Pairwise fun x y => x.eventId < y.eventId := by
  have hr : (published.map Event.eventId).Pairwise (· < ·) := by
    rw [h.ids]
    exact List.pairwise_lt_range'
  exact List.pairwise_map.mp hr

theorem Recorded.le_boundary (h : Recorded bus published) {e : Event P} (he : e ∈ published) :
    e.eventId ≤ bus.nextEventId - 1 := by
  have hm : e.eventId ∈ published.map Event.eventId := List.mem_map_of_mem he
  rw [h.ids, List.mem_range'_1] at hm
  have := h.next
  omega

theorem evicted_above_iff (h : Recorded bus published) (prefixes : List String) (cursor : Int) :
    (bus.evictedTopicIds.entries.any fun e =>
        decide ((e.2 : Int) > cursor) && matchesTopic e.1 prefixes) = true ↔
      ∃ e ∈ published, cursor < e.eventId ∧ matchesTopic e.topic prefixes = true ∧
        e ∉ bus.history := by
  obtain ⟨dropped, hp, he⟩ := h.split
  have hlt := h.ids_lt
  rw [hp, List.pairwise_append] at hlt
  have hmono : (dropped.map fun e => (e.topic, e.eventId)).Pairwise fun x y => x.2 ≤ y.2 :=
    List.pairwise_map.mpr (hlt.1.imp Nat.le_of_lt)
  have htable := Dict.exists_get?_ofList_iff hmono
    (fun topic => matchesTopic topic prefixes = true) (fun i : Nat => (i : Int) > cursor)
    (fun x y hxy hx => by omega)
  rw [← he] at htable
  have hany : (bus.evictedTopicIds.entries.any fun e =>
      decide ((e.2 : Int) > cursor) && matchesTopic e.1 prefixes) = true ↔
      ∃ topic i, bus.evictedTopicIds.get? topic = some i ∧ (i : Int) > cursor ∧
        matchesTopic topic prefixes = true := by
    simp only [List.any_eq_true, Prod.exists, Dict.mem_entries_iff, Bool.and_eq_true,
      decide_eq_true_eq]
  rw [hany, htable]
  constructor
  · rintro ⟨_, hm, hc, ht⟩
    obtain ⟨e, hd, rfl⟩ := List.mem_map.mp hm
    refine ⟨e, by simp [hp, hd], hc, ht, fun hh => ?_⟩
    exact Nat.lt_irrefl _ (hlt.2.2 e hd e hh)
  · rintro ⟨e, hm, hc, ht, hh⟩
    rw [hp, List.mem_append] at hm
    exact ⟨(e.topic, e.eventId), List.mem_map.mpr ⟨e, hm.resolve_right hh, rfl⟩, hc, ht⟩

theorem filter_history_eq (h : Recorded bus published) (p : Event P → Bool)
    (hkept : ∀ e ∈ published, p e = true → e ∈ bus.history) :
    bus.history.filter p = published.filter p := by
  obtain ⟨dropped, hp, _⟩ := h.split
  have hlt := h.ids_lt
  rw [hp, List.pairwise_append] at hlt
  have hnone : dropped.filter p = [] := by
    rw [List.filter_eq_nil_iff]
    intro e hd hpe
    have hh := hkept e (by simp [hp, hd]) hpe
    exact Nat.lt_irrefl _ (hlt.2.2 e hd e hh)
  rw [hp, List.filter_append, hnone, List.nil_append]

end Window

def init (maxlen : Option Nat) (queueSize : Int) (epoch : String) : Bus P :=
  { maxlen, queueSize, epoch }

theorem resyncReasonFor_current (bus : Bus P) (prefixes : List String) (cursor : Int) :
    resyncReasonFor bus prefixes cursor (some bus.epoch) =
      if cursor > ((bus.nextEventId - 1 : Nat) : Int) then some .cursorAhead
      else if bus.evictedTopicIds.entries.any fun e =>
          decide ((e.2 : Int) > cursor) && matchesTopic e.1 prefixes then
        some .historyWindowExceeded
      else none := by
  simp [resyncReasonFor]

-- For every sequence of publishes, a resumption with the current epoch either
-- replays exactly the matching events after the cursor, in id order, or says
-- why it cannot; and it blames the window exactly when a wanted event left it.
theorem subscribeAfter_replay (maxlen : Option Nat) (queueSize : Int) (epoch : String)
    (loop : Option LoopId) (calls : List (Publication P)) (filter : PrefixFilter)
    (cursor replay : Int) (queue : QueueId) (owner : LoopId) :
    let bus : Bus P := publishAll { init maxlen queueSize epoch with loop } calls
    let published := numbered 1 calls
    let sub := (subscribeAfter bus filter (some cursor) (some bus.epoch) replay queue owner).1
    (sub.resyncReason = none ∧
        sub.replay = published.filter (fun e => decide (cursor < (e.eventId : Int) ∧
          e.eventId ≤ sub.boundaryId ∧ filter.Accepts e.topic)) ∧
        sub.replay.Pairwise (fun x y => x.eventId < y.eventId) ∨
      sub.resyncReason.isSome = true) ∧
    (cursor ≤ (sub.boundaryId : Int) →
      (sub.resyncReason = some .historyWindowExceeded ↔
        ∃ e ∈ published, cursor < (e.eventId : Int) ∧ filter.Accepts e.topic ∧
          e ∉ bus.history)) := by
  intro bus published sub
  have hr : Recorded bus published := by
    have hempty : Recorded { init maxlen queueSize epoch with loop } ([] : List (Event P)) :=
      recorded_init rfl rfl rfl
    simpa using publishAll_recorded hempty calls
  have hreason : sub.resyncReason =
      resyncReasonFor bus (normalizePrefixes filter) cursor (some bus.epoch) := rfl
  have hboundary : sub.boundaryId = bus.nextEventId - 1 := rfl
  rw [resyncReasonFor_current] at hreason
  have hevicted := evicted_above_iff hr (normalizePrefixes filter) cursor
  simp only [matchesTopic_normalize] at hevicted
  constructor
  · by_cases hnone : sub.resyncReason = none
    · refine Or.inl ⟨hnone, ?_⟩
      have hwindow : ¬∃ e ∈ published, cursor < (e.eventId : Int) ∧ filter.Accepts e.topic ∧
          e ∉ bus.history := by
        rw [← hevicted]
        intro hany
        rw [hnone, if_pos hany] at hreason
        split at hreason <;> cases hreason
      have hreplay : sub.replay = bus.history.filter fun e =>
          decide (cursor < (e.eventId : Int) ∧ e.eventId ≤ sub.boundaryId ∧
            filter.Accepts e.topic) := by
        change (if sub.resyncReason.isSome = true then [] else bus.history.filter _) = _
        rw [hnone]
        refine List.filter_congr fun e _ => ?_
        rw [Bool.eq_iff_iff]
        simp only [hboundary, Bool.and_eq_true, decide_eq_true_eq, matchesTopic_normalize, and_assoc,
          gt_iff_lt]
      have hfull := filter_history_eq hr (fun e => decide (cursor < (e.eventId : Int) ∧
        e.eventId ≤ sub.boundaryId ∧ filter.Accepts e.topic)) (by
          intro e he hpe
          simp only [decide_eq_true_eq] at hpe
          by_contra hh
          exact hwindow ⟨e, he, hpe.1, hpe.2.2, hh⟩)
      exact ⟨hreplay.trans hfull, (hreplay.trans hfull) ▸ hr.ids_lt.filter _⟩
    · exact Or.inr (Option.isSome_iff_ne_none.mpr hnone)
  · intro hle
    rw [hboundary] at hle
    rw [hreason, if_neg (by omega), ← hevicted]
    split
    · rename_i hany
      exact iff_of_true rfl hany
    · rename_i hany
      exact iff_of_false (by simp) hany

end GaHub.EventBus
