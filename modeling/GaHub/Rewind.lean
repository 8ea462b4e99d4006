import GaHub.Lib.Dict
import GaHub.Lib.Lists
import Mathlib.Tactic.Common

namespace GaHub.Rewind

open Lib

structure ChatSnapshot where
  done : Bool
  deriving DecidableEq

abbrev Item := String × ChatSnapshot

inductive RewindError where
  | running
  | countTooSmall
  | missingRequest
  | unbound
  | durable
  deriving DecidableEq

structure Metrics where
  kept : Nat
  historyLines : Nat
  removedHistoryEntries : Nat
  deriving DecidableEq

structure ChatRewound where
  removedSids : List String
  kept : Nat
  historyLines : Nat
  sessionId : String
  deriving DecidableEq

-- A session runtime: its projection in the order in which the streams started, and the turns of the
-- worldline from the oldest on, each with the stream that its snapshot goes by where it has one.
structure Runtime where
  sessionId : String
  isRunning : Bool := false
  bound : Bool := true
  snapshots : Dict String ChatSnapshot
  worldline : List (Option String)
  published : List ChatRewound := []
  deriving DecidableEq

section Code

def completedItems (allItems : List Item) : List Item := allItems.filter fun e => e.2.done

def resolveTurnCount (n : Option Int) : Except RewindError Nat :=
  match n with
  | none => .error .missingRequest
  | some n => if n < 1 then .error .countTooSmall else .ok n.toNat

def resolveRewindCut (allItems doneItems : List Item) (sid : Option String) (n : Option Int) :
    Except RewindError (Nat × Option String) :=
  let counted := (resolveTurnCount n).map fun count => (count, none)
  match sid with
  | none => counted
  | some sid =>
    if sid == "" then counted
    else match doneItems.findIdx? fun e => e.1 == sid with
      | some i => .ok (doneItems.length - i, some sid)
      | none =>
        match allItems.findIdx? fun e => e.1 == sid with
        | some i => .ok ((allItems.drop i).countP fun e => decide (e.1 ∈ doneItems.map Prod.fst), some sid)
        | none => counted

-- An overlap of zero counts from the front, as a negative index does.
def removedSidsAfter (allItems doneItems : List Item) (turnCount : Nat) (anchorSid : Option String) : List String :=
  match anchorSid.bind fun sid => allItems.findIdx? fun e => e.1 == sid with
  | some i => (allItems.drop i).map Prod.fst
  | none =>
    let overlap := min turnCount doneItems.length
    match doneItems[if overlap = 0 then 0 else doneItems.length - overlap]? with
    | none => []
    | some first => (allItems.dropWhile fun e => e.1 != first.1).map Prod.fst

def dropSnapshots (snapshots : Dict String ChatSnapshot) (removedSids : List String) : Dict String ChatSnapshot :=
  removedSids.foldl Dict.erase snapshots

-- GA rewrites the archive: it removes the last turns, as many as it is told, or raises. `durable` is
-- what it reports for a count where it succeeds.
def applyDurable (durable : Nat → Option Metrics) (r : Runtime) (turnCount : Nat) : Option (List (Option String) × Metrics) :=
  if turnCount ≤ r.worldline.length then
    (durable turnCount).map fun result => (r.worldline.take (r.worldline.length - turnCount), result)
  else none

def rewindSessionTurns (durable : Nat → Option Metrics) (r : Runtime) (sid : Option String) (n : Option Int) :
    Runtime × Except RewindError (List String) :=
  if r.isRunning then (r, .error .running)
  else
    let allItems := r.snapshots.entries
    let doneItems := completedItems allItems
    match resolveRewindCut allItems doneItems sid n with
    | .error e => (r, .error e)
    | .ok (turnCount, anchorSid) =>
      if !r.bound then (r, .error .unbound)
      else match applyDurable durable r turnCount with
        | none => (r, .error .durable)
        | some (worldline, result) =>
          let removedSids := removedSidsAfter allItems doneItems turnCount anchorSid
          let event : ChatRewound :=
            { removedSids, kept := result.kept, historyLines := result.historyLines, sessionId := r.sessionId }
          ({ r with
              snapshots := dropSnapshots r.snapshots removedSids
              worldline
              published := r.published ++ [event] }, .ok removedSids)

end Code

section Cut

-- The newest turns of the worldline are those of the completed snapshots, in order; the older ones have none.
def Aligned (r : Runtime) : Prop :=
  ∃ older, r.worldline = List.replicate older none ++ (completedItems r.snapshots.entries).map fun e => some e.1

-- The bubble of the request, where the projection knows it.
def clicked (r : Runtime) (sid : Option String) : Option String :=
  sid.filter fun s => s != "" && decide (s ∈ r.snapshots.keys)

-- What should be left: the snapshots that started before the clicked bubble, or else before the first
-- turn that was removed, which is older than all of them where it has no snapshot.
def before (r r' : Runtime) (sid : Option String) : List Item :=
  match clicked r sid with
  | some s => r.snapshots.entries.takeWhile fun e => e.1 != s
  | none =>
    match r.worldline[r'.worldline.length]? with
    | none => r.snapshots.entries
    | some none => []
    | some (some first) => r.snapshots.entries.takeWhile fun e => e.1 != first

-- A rewind that went through cut the archive and the view at the same point.
structure CutTogether (r r' : Runtime) (sid : Option String) : Prop where
  left : r'.snapshots.entries = before r r' sid
  listed : ∃ event, r'.published = r.published ++ [event] ∧
    event.removedSids = r.snapshots.keys.filter fun s => decide (s ∉ r'.snapshots.keys)
  turns : ∀ s, clicked r sid = some s →
    r'.worldline ++ (completedItems (r.snapshots.entries.dropWhile fun e => e.1 != s)).map (fun e => some e.1) =
      r.worldline

end Cut

section Split

variable {items front back : List Item} {s : String} {snap : ChatSnapshot}

theorem takeWhile_split (hfront : ∀ e ∈ front, e.1 ≠ s) :
    (front ++ (s, snap) :: back).takeWhile (fun e => e.1 != s) = front := by
  rw [List.takeWhile_append_of_pos (by simpa using hfront), List.takeWhile_cons_of_neg (by simp), List.append_nil]

theorem dropWhile_split (hfront : ∀ e ∈ front, e.1 ≠ s) :
    (front ++ (s, snap) :: back).dropWhile (fun e => e.1 != s) = (s, snap) :: back := by
  rw [List.dropWhile_append_of_pos (by simpa using hfront), List.dropWhile_cons_of_neg (by simp)]

theorem exists_split (d : Dict String ChatSnapshot) (hs : s ∈ d.keys) :
    ∃ front snap back, d.entries = front ++ (s, snap) :: back ∧ (∀ e ∈ front, e.1 ≠ s) ∧ ∀ e ∈ back, e.1 ≠ s := by
  obtain ⟨snap, hget⟩ := Dict.mem_keys_iff.mp hs
  obtain ⟨front, back, hsplit⟩ := List.append_of_mem (Dict.mem_entries_iff.mpr hget)
  have hnd := d.nodup_keys
  rw [hsplit, List.map_append, List.map_cons, List.nodup_append, List.nodup_cons] at hnd
  refine ⟨front, snap, back, hsplit, ?_, ?_⟩
  · intro e he heq
    exact hnd.2.2 e.1 (List.mem_map_of_mem he) s (by simp) heq
  · intro e he heq
    have hin : e.1 ∈ back.map Prod.fst := List.mem_map_of_mem he
    rw [heq] at hin
    exact hnd.2.1.1 hin

theorem entries_foldl_erase (d : Dict String ChatSnapshot) (ks : List String) :
    (ks.foldl Dict.erase d).entries = d.entries.filter fun e => decide (e.1 ∉ ks) := by
  induction ks generalizing d with
  | nil => simp
  | cons k ks ih =>
      rw [List.foldl_cons, ih]
      show (d.entries.filter fun e => decide (e.1 ≠ k)).filter _ = _
      rw [List.filter_filter]
      apply List.filter_congr
      intro e _
      simp [Bool.and_comm]

theorem entries_dropSnapshots (d : Dict String ChatSnapshot) (hsplit : d.entries = front ++ back) :
    (dropSnapshots d (back.map Prod.fst)).entries = front := by
  have hnd := d.nodup_keys
  rw [hsplit, List.map_append, List.nodup_append] at hnd
  rw [dropSnapshots, entries_foldl_erase, hsplit, List.filter_append]
  have hfront : front.filter (fun e => decide (e.1 ∉ back.map Prod.fst)) = front := by
    rw [List.filter_eq_self]
    intro e he
    exact decide_eq_true fun hin => hnd.2.2 e.1 (List.mem_map_of_mem he) e.1 hin rfl
  have hback : back.filter (fun e => decide (e.1 ∉ back.map Prod.fst)) = [] := by
    rw [List.filter_eq_nil_iff]
    intro e he
    simpa using ⟨e.2, he⟩
  rw [hfront, hback, List.append_nil]

theorem keys_filter_dropped (d d' : Dict String ChatSnapshot) (hsplit : d.entries = d'.entries ++ back) :
    d.keys.filter (fun k => decide (k ∉ d'.keys)) = back.map Prod.fst := by
  have hnd := d.nodup_keys
  rw [hsplit, List.map_append, List.nodup_append] at hnd
  have hkeys : d.keys = d'.keys ++ back.map Prod.fst := by
    rw [Dict.keys, hsplit, List.map_append]
    rfl
  rw [hkeys, List.filter_append]
  have hfront : d'.keys.filter (fun k => decide (k ∉ d'.keys)) = [] := by
    rw [List.filter_eq_nil_iff]
    intro k hk
    simpa using hk
  have hback : (back.map Prod.fst).filter (fun k => decide (k ∉ d'.keys)) = back.map Prod.fst := by
    rw [List.filter_eq_self]
    intro k hk
    exact decide_eq_true fun hin => hnd.2.2 k hin k hk rfl
  rw [hfront, hback, List.nil_append]

end Split

section Resolve

variable {r : Runtime} {sid : Option String} {n : Option Int} {s : String}

theorem clicked_eq_some (h : clicked r sid = some s) : sid = some s ∧ s ≠ "" ∧ s ∈ r.snapshots.keys := by
  obtain ⟨hsid, hs⟩ := Option.filter_eq_some_iff.mp h
  rw [Bool.and_eq_true, bne_iff_ne, decide_eq_true_eq] at hs
  exact ⟨hsid, hs⟩

theorem completed_done {items : List Item} {e : Item} (he : e ∈ completedItems items) : e.2.done = true :=
  (List.mem_filter.mp he).2

theorem resolve_clicked (h : clicked r sid = some s) {front back : List Item} {snap : ChatSnapshot}
    (hsplit : r.snapshots.entries = front ++ (s, snap) :: back) (hfront : ∀ e ∈ front, e.1 ≠ s)
    (hback : ∀ e ∈ back, e.1 ≠ s) :
    resolveRewindCut r.snapshots.entries (completedItems r.snapshots.entries) sid n =
      .ok ((completedItems ((s, snap) :: back)).length, some s) := by
  obtain ⟨rfl, hne, -⟩ := clicked_eq_some h
  have hfilter : completedItems r.snapshots.entries = completedItems front ++ completedItems ((s, snap) :: back) := by
    rw [hsplit, completedItems, List.filter_append]
    rfl
  have hnone : ∀ e ∈ completedItems front, (e.1 == s) = false := by
    intro e he
    simpa using hfront e (List.mem_filter.mp he).1
  simp only [resolveRewindCut, beq_iff_eq, hne, if_false]
  cases hdone : snap.done with
  | true =>
      have hcons : completedItems ((s, snap) :: back) = (s, snap) :: completedItems back := by
        simp [completedItems, hdone]
      rw [hfilter, hcons, findIdx?_split hnone (by simp)]
      simp
  | false =>
      have hcons : completedItems ((s, snap) :: back) = completedItems back := by
        simp [completedItems, hdone]
      have habsent : (completedItems r.snapshots.entries).findIdx? (fun e => e.1 == s) = none := by
        rw [List.findIdx?_eq_none_iff, hfilter, hcons]
        intro e he
        rcases List.mem_append.mp he with hin | hin
        · exact hnone e hin
        · simpa using hback e (List.mem_filter.mp hin).1
      have hplace : r.snapshots.entries.findIdx? (fun e => e.1 == s) = some front.length := by
        rw [hsplit]
        exact findIdx?_split (by simpa using hfront) (by simp) back
      have hdrop : r.snapshots.entries.drop front.length = (s, snap) :: back := by
        rw [hsplit, List.drop_left]
      rw [habsent, hplace]
      simp only [hdrop]
      -- a snapshot of the list is completed just when its id is that of a completed one
      have hcount : ((s, snap) :: back).countP (fun e => decide (e.1 ∈ (completedItems r.snapshots.entries).map Prod.fst)) =
          ((s, snap) :: back).countP fun e => e.2.done := by
        apply List.countP_congr
        intro e he
        have hmem : e ∈ r.snapshots.entries := by
          rw [hsplit]
          exact List.mem_append_right _ he
        rw [decide_eq_true_eq]
        constructor
        · intro hin
          obtain ⟨e', he', heq⟩ := List.mem_map.mp hin
          have hget := Dict.mem_entries_iff.mp (List.mem_filter.mp he').1
          rw [heq, Dict.mem_entries_iff.mp hmem] at hget
          rw [Option.some.inj hget]
          exact completed_done he'
        · intro hd
          exact List.mem_map_of_mem (List.mem_filter.mpr ⟨hmem, hd⟩)
      rw [hcount, List.countP_eq_length_filter]
      rfl

theorem resolve_unknown (h : clicked r sid = none) :
    resolveRewindCut r.snapshots.entries (completedItems r.snapshots.entries) sid n =
      (resolveTurnCount n).map fun count => (count, none) := by
  cases sid with
  | none => rfl
  | some s =>
      by_cases hne : s = ""
      · simp [resolveRewindCut, hne]
      · have hnot : s ∉ r.snapshots.keys := by
          intro hin
          simp [clicked, Option.filter, hne, hin] at h
        have habsent : ∀ e ∈ r.snapshots.entries, (e.1 == s) = false := by
          intro e he
          by_contra heq
          rw [Bool.not_eq_false, beq_iff_eq] at heq
          exact hnot (heq ▸ List.mem_map_of_mem he)
        have hall : r.snapshots.entries.findIdx? (fun e => e.1 == s) = none := List.findIdx?_eq_none_iff.mpr habsent
        have hdone : (completedItems r.snapshots.entries).findIdx? (fun e => e.1 == s) = none :=
          List.findIdx?_eq_none_iff.mpr fun e he => habsent e (List.mem_filter.mp he).1
        simp only [resolveRewindCut, beq_iff_eq, hne, if_false, hall, hdone]

theorem resolveTurnCount_pos {count : Nat} (h : resolveTurnCount n = .ok count) : 1 ≤ count ∧ n = some (count : Int) := by
  unfold resolveTurnCount at h
  split at h
  · cases h
  · split at h
    · cases h
    · rename_i n hn
      cases h
      exact ⟨by omega, by simp; omega⟩

end Resolve

section Rewind

variable {durable : Nat → Option Metrics} {r r' : Runtime} {sid : Option String} {n : Option Int} {removed : List String}

theorem rewind_error {e : RewindError} (h : rewindSessionTurns durable r sid n = (r', .error e)) : r' = r := by
  unfold rewindSessionTurns at h
  split at h
  · exact (Prod.mk.inj h).1.symm
  · simp only at h
    split at h
    · exact (Prod.mk.inj h).1.symm
    · split at h
      · exact (Prod.mk.inj h).1.symm
      · split at h
        · exact (Prod.mk.inj h).1.symm
        · cases (Prod.mk.inj h).2

theorem rewind_ok (h : rewindSessionTurns durable r sid n = (r', .ok removed)) :
    ∃ count anchor event,
      resolveRewindCut r.snapshots.entries (completedItems r.snapshots.entries) sid n = .ok (count, anchor) ∧
      count ≤ r.worldline.length ∧
      removed = removedSidsAfter r.snapshots.entries (completedItems r.snapshots.entries) count anchor ∧
      r'.snapshots = dropSnapshots r.snapshots removed ∧
      r'.worldline = r.worldline.take (r.worldline.length - count) ∧
      r'.published = r.published ++ [event] ∧ event.removedSids = removed := by
  unfold rewindSessionTurns at h
  split at h
  · cases (Prod.mk.inj h).2
  · simp only at h
    split at h
    · cases (Prod.mk.inj h).2
    · rename_i count anchor hcut
      split at h
      · cases (Prod.mk.inj h).2
      · split at h
        · cases (Prod.mk.inj h).2
        · rename_i worldline result hdurable
          unfold applyDurable at hdurable
          split at hdurable
          · obtain ⟨result', -, hpair⟩ := Option.map_eq_some_iff.mp hdurable
            obtain ⟨rfl, rfl⟩ := Prod.mk.inj hpair
            obtain ⟨rfl, hout⟩ := Prod.mk.inj h
            cases hout
            exact ⟨count, anchor, _, hcut, ‹_›, rfl, rfl, rfl, rfl, rfl⟩
          · cases hdurable

theorem CutTogether.of_split {front back : List Item} {event : ChatRewound} (hsplit : r.snapshots.entries = front ++ back)
    (hremoved : removed = back.map Prod.fst) (hdrop : r'.snapshots = dropSnapshots r.snapshots removed)
    (hpublished : r'.published = r.published ++ [event]) (hevent : event.removedSids = removed)
    (hbefore : before r r' sid = front)
    (hturns : ∀ s, clicked r sid = some s →
      r'.worldline ++ (completedItems (r.snapshots.entries.dropWhile fun e => e.1 != s)).map (fun e => some e.1) =
        r.worldline) : CutTogether r r' sid := by
  have hleft : r'.snapshots.entries = front := by
    rw [hdrop, hremoved]
    exact entries_dropSnapshots r.snapshots hsplit
  refine ⟨hleft.trans hbefore.symm, ⟨event, hpublished, ?_⟩, hturns⟩
  rw [hevent, hremoved, keys_filter_dropped _ _ (hleft ▸ hsplit)]

end Rewind

section Together

variable {durable : Nat → Option Metrics} {r r' : Runtime} {sid : Option String} {n : Option Int} {removed : List String}
  {front back : List Item} {s t : String} {snap : ChatSnapshot}

theorem removed_anchored {done : List Item} {count : Nat} (hfront : ∀ e ∈ front, e.1 ≠ s) :
    removedSidsAfter (front ++ (s, snap) :: back) done count (some s) = ((s, snap) :: back).map Prod.fst := by
  have hplace : (front ++ (s, snap) :: back).findIdx? (fun e => e.1 == s) = some front.length :=
    findIdx?_split (by simpa using hfront) (by simp) back
  simp only [removedSidsAfter, Option.bind_some, hplace, List.drop_left]

theorem removed_counted {items doneFront doneBack : List Item} {count : Nat}
    (hlength : min count (doneFront ++ (t, snap) :: doneBack).length = doneBack.length + 1) :
    removedSidsAfter items (doneFront ++ (t, snap) :: doneBack) count none =
      (items.dropWhile fun e => e.1 != t).map Prod.fst := by
  have hplace : (doneFront ++ (t, snap) :: doneBack).length - (doneBack.length + 1) = doneFront.length := by
    simp only [List.length_append, List.length_cons]
    omega
  simp only [removedSidsAfter, Option.bind_none, hlength, Nat.add_eq_zero_iff, Nat.one_ne_zero, and_false, if_false,
    hplace]
  rw [List.getElem?_append_right (Nat.le_refl _), Nat.sub_self]
  rfl

theorem completed_append (front back : List Item) : completedItems (front ++ back) = completedItems front ++ completedItems back :=
  List.filter_append front back

theorem clicked_together (hal : Aligned r) (hs : clicked r sid = some s)
    (h : rewindSessionTurns durable r sid n = (r', .ok removed)) : CutTogether r r' sid := by
  obtain ⟨-, -, hkey⟩ := clicked_eq_some hs
  obtain ⟨front, snap, back, hsplit, hfront, hback⟩ := exists_split r.snapshots hkey
  obtain ⟨count, anchor, event, hcut, -, hremoved, hdrop, hline, hpublished, hevent⟩ := rewind_ok h
  rw [resolve_clicked hs hsplit hfront hback] at hcut
  obtain ⟨hcount, rfl⟩ := Prod.mk.inj (Except.ok.inj hcut)
  have hsids : removed = ((s, snap) :: back).map Prod.fst := by
    rw [hremoved, hsplit]
    exact removed_anchored hfront
  have hbefore : before r r' sid = front := by
    simp only [before, hs]
    rw [hsplit, takeWhile_split hfront]
  refine .of_split hsplit hsids hdrop hpublished hevent hbefore ?_
  intro s' hs'
  obtain rfl : s = s' := Option.some.inj (hs.symm.trans hs')
  obtain ⟨older, halign⟩ := hal
  rw [hline, halign, hsplit, dropWhile_split hfront, completed_append, List.map_append, ← List.append_assoc, ← hcount]
  congr 1
  apply List.take_left'
  simp only [List.length_append, List.length_map]
  omega

theorem first_removed (hal : Aligned r) {count : Nat} (hpos : 1 ≤ count) (hle : count ≤ r.worldline.length)
    (hline : r'.worldline = r.worldline.take (r.worldline.length - count)) :
    r.worldline[r'.worldline.length]? =
      if count ≤ (completedItems r.snapshots.entries).length then
        ((completedItems r.snapshots.entries)[(completedItems r.snapshots.entries).length - count]?).map fun e => some e.1
      else some none := by
  obtain ⟨older, halign⟩ := hal
  have htotal : r.worldline.length = older + (completedItems r.snapshots.entries).length := by
    rw [halign]
    simp
  have hplace : r'.worldline.length = r.worldline.length - count := by
    rw [hline, List.length_take]
    omega
  rw [hplace, halign]
  split
  · rw [List.getElem?_append_right (by simp; omega), List.length_replicate, List.getElem?_map]
    congr 2
    simp only [List.length_append, List.length_replicate, List.length_map]
    omega
  · rw [List.getElem?_append_left (by simp; omega)]
    rw [List.getElem?_replicate, if_pos (by simp; omega)]

theorem removed_past {count : Nat} (hreach : (completedItems r.snapshots.entries).length < count) :
    ∃ front back, r.snapshots.entries = front ++ back ∧
      removedSidsAfter r.snapshots.entries (completedItems r.snapshots.entries) count none = back.map Prod.fst ∧
      (front = [] ↔ ∀ e, r.snapshots.entries.head? = some e → e.2.done = true) := by
  cases hdone : completedItems r.snapshots.entries with
  | nil =>
      refine ⟨r.snapshots.entries, [], by simp, by simp [removedSidsAfter], ?_⟩
      cases hitems : r.snapshots.entries with
      | nil => simp
      | cons e rest =>
          have hnot : e.2.done ≠ true := by
            intro hd
            have hin : e ∈ completedItems r.snapshots.entries := List.mem_filter.mpr ⟨by simp [hitems], hd⟩
            rw [hdone] at hin
            cases hin
          simpa using hnot
  | cons e doneBack =>
      obtain ⟨t, snap⟩ := e
      have hmem : (t, snap) ∈ completedItems r.snapshots.entries := by simp [hdone]
      have hin := (List.mem_filter.mp hmem).1
      obtain ⟨front, snap', back, hsplit, hfront, -⟩ := exists_split r.snapshots (List.mem_map_of_mem hin)
      have hsame : snap' = snap := by
        have hin' : (t, snap') ∈ r.snapshots.entries := by simp [hsplit]
        have hget := Dict.mem_entries_iff.mp hin
        rw [Dict.mem_entries_iff.mp hin'] at hget
        exact Option.some.inj hget
      refine ⟨front, (t, snap') :: back, hsplit, ?_, ?_⟩
      · rw [hdone, List.length_cons] at hreach
        have hcounted := @removed_counted t snap r.snapshots.entries [] doneBack count (by simp; omega)
        rw [List.nil_append] at hcounted
        rw [hcounted, hsplit, dropWhile_split hfront]
      · cases front with
        | nil =>
            refine iff_of_true rfl ?_
            intro e he
            rw [hsplit] at he
            cases he
            rw [hsame]
            exact completed_done hmem
        | cons f rest =>
            refine iff_of_false (by simp) ?_
            intro hall
            have hd := hall f (by simp [hsplit])
            rw [hsplit] at hdone
            have hfirst : completedItems (f :: rest ++ (t, snap') :: back) =
                f :: completedItems (rest ++ (t, snap') :: back) := by
              simp [completedItems, hd]
            rw [hfirst] at hdone
            exact hfront f (by simp) (congrArg Prod.fst (List.cons.inj hdone).1)

theorem counted_together_iff (hal : Aligned r) (hs : clicked r sid = none)
    (h : rewindSessionTurns durable r sid n = (r', .ok removed)) :
    CutTogether r r' sid ↔
      (∃ count : Nat, n = some (count : Int) ∧ count ≤ (completedItems r.snapshots.entries).length) ∨
      ∀ e, r.snapshots.entries.head? = some e → e.2.done = true := by
  obtain ⟨count, anchor, event, hcut, hle, hremoved, hdrop, hline, hpublished, hevent⟩ := rewind_ok h
  rw [resolve_unknown hs] at hcut
  obtain ⟨c, hres, hpair⟩ : ∃ c, resolveTurnCount n = .ok c ∧ (c, none) = (count, anchor) := by
    cases hres : resolveTurnCount n with
    | error e =>
        rw [hres] at hcut
        cases hcut
    | ok c =>
        rw [hres] at hcut
        exact ⟨c, rfl, Except.ok.inj hcut⟩
  obtain ⟨rfl, rfl⟩ := Prod.mk.inj hpair
  obtain ⟨hpos, hn⟩ := resolveTurnCount_pos hres
  have hfirst := first_removed hal hpos hle hline
  have hturns : ∀ s, clicked r sid = some s →
      r'.worldline ++ (completedItems (r.snapshots.entries.dropWhile fun e => e.1 != s)).map (fun e => some e.1) =
        r.worldline := by
    intro s hs'
    rw [hs] at hs'
    cases hs'
  by_cases hreach : c ≤ (completedItems r.snapshots.entries).length
  · refine iff_of_true ?_ (.inl ⟨c, hn, hreach⟩)
    -- the count reaches a turn that has a snapshot
    have hlt : (completedItems r.snapshots.entries).length - c < (completedItems r.snapshots.entries).length := by omega
    obtain ⟨doneFront, e, doneBack, hdone, hlen⟩ := exists_split_at hlt
    obtain ⟨t, snap⟩ := e
    have hmem : (t, snap) ∈ completedItems r.snapshots.entries := by
      rw [hdone]
      simp
    have hkey : t ∈ r.snapshots.keys := List.mem_map_of_mem (List.mem_filter.mp hmem).1
    obtain ⟨front, snap', back, hsplit, hfront, -⟩ := exists_split r.snapshots hkey
    have hsids : removed = ((t, snap') :: back).map Prod.fst := by
      rw [hremoved, hdone, removed_counted, hsplit, dropWhile_split hfront]
      have htotal := congrArg List.length hdone
      simp only [List.length_append, List.length_cons] at htotal ⊢
      omega
    have hbefore : before r r' sid = front := by
      have hget : (completedItems r.snapshots.entries)[(completedItems r.snapshots.entries).length - c]? =
          some (t, snap) := by
        rw [← hlen, hdone, List.getElem?_append_right (Nat.le_refl _), Nat.sub_self]
        rfl
      simp only [before, hs, hfirst, if_pos hreach, hget, Option.map_some]
      rw [hsplit, takeWhile_split hfront]
    exact .of_split hsplit hsids hdrop hpublished hevent hbefore hturns
  · have hbefore : before r r' sid = [] := by
      simp only [before, hs, hfirst, if_neg hreach]
    have hno : ¬∃ count : Nat, n = some (count : Int) ∧ count ≤ (completedItems r.snapshots.entries).length := by
      rintro ⟨k, hk, hkle⟩
      rw [hn, Option.some.injEq, Int.natCast_inj] at hk
      omega
    obtain ⟨front, back, hsplit, hsids, hhead⟩ := removed_past (Nat.lt_of_not_le hreach)
    rw [← hremoved] at hsids
    rw [or_iff_right hno, ← hhead]
    constructor
    · intro hcut
      have hleft := hcut.left
      rw [hdrop, hsids, entries_dropSnapshots r.snapshots hsplit, hbefore] at hleft
      exact hleft
    · intro hnil
      exact .of_split hsplit hsids hdrop hpublished hevent (hbefore.trans hnil.symm) hturns

end Together

-- Refused or raised, a rewind changes nothing; gone through, it cuts the view where it cuts the archive
-- unless it counts past the completed snapshots while the oldest snapshot is of a stream that never completed.
theorem rewind_cuts_together_iff (durable : Nat → Option Metrics) {r : Runtime} (hal : Aligned r) (sid : Option String)
    (n : Option Int) :
    (∀ r' e, rewindSessionTurns durable r sid n = (r', .error e) → r' = r) ∧
    ∀ r' removed, rewindSessionTurns durable r sid n = (r', .ok removed) →
      (CutTogether r r' sid ↔
        clicked r sid ≠ none ∨
        (∃ count : Nat, n = some (count : Int) ∧ count ≤ (completedItems r.snapshots.entries).length) ∨
        ∀ e, r.snapshots.entries.head? = some e → e.2.done = true) := by
  refine ⟨fun r' e h => rewind_error h, fun r' removed h => ?_⟩
  cases hs : clicked r sid with
  | some s => exact iff_of_true (clicked_together hal hs h) (.inl (by simp))
  | none => rw [counted_together_iff hal hs h, ne_self_iff_false, false_or]

-- A stream that was aborted, one that was completed after it, and a turn of an earlier process.
def resumed : Runtime where
  sessionId := "s"
  snapshots := .ofList [("aborted", ⟨false⟩), ("completed", ⟨true⟩)]
  worldline := [none, some "completed"]

theorem resumed_aligned : Aligned resumed := ⟨1, by decide⟩

theorem rewind_cuts_together_clicked :
    ∃ r', rewindSessionTurns (fun _ => some ⟨1, 1, 1⟩) resumed (some "aborted") none = (r', .ok ["aborted", "completed"]) ∧
      CutTogether resumed r' (some "aborted") := by
  have hrun : rewindSessionTurns (fun _ => some ⟨1, 1, 1⟩) resumed (some "aborted") none =
      ((rewindSessionTurns (fun _ => some ⟨1, 1, 1⟩) resumed (some "aborted") none).1, .ok ["aborted", "completed"]) := by
    rfl
  have hiff := (rewind_cuts_together_iff _ resumed_aligned _ _).2 _ _ hrun
  exact ⟨_, hrun, hiff.mpr (.inl (by decide))⟩

-- The count reaches the older turn, yet the snapshot of the aborted stream stays.
theorem aborted_snapshot_stays :
    (rewindSessionTurns (fun _ => some ⟨0, 0, 2⟩) resumed none (some 2)).2 = .ok ["completed"] ∧
      (rewindSessionTurns (fun _ => some ⟨0, 0, 2⟩) resumed none (some 2)).1.worldline = [] ∧
      (rewindSessionTurns (fun _ => some ⟨0, 0, 2⟩) resumed none (some 2)).1.snapshots.keys = ["aborted"] ∧
      before resumed (rewindSessionTurns (fun _ => some ⟨0, 0, 2⟩) resumed none (some 2)).1 none = [] := by
  decide

end GaHub.Rewind
