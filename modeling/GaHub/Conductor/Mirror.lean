import GaHub.Lib.Distinct
import GaHub.Lib.Machine
import Mathlib.Data.List.DropRight

namespace GaHub.Mirror

open Lib

-- A chat record of the engine's journal or of a command receipt. An id, a role, a time or a
-- kind that is absent or empty is `none`; the text travels along.
structure ChatItem where
  id : Option String
  role : Option String := none
  ts : Option Nat := none
  final : Bool := false
  kind : Option String := none
  msg : String := ""
  deriving DecidableEq

structure HubItem where
  id : Option String
  role : String
  ts : Nat
  read : Bool
  final : Bool
  kind : Option String
  msg : String
  deriving DecidableEq

def hubItem (item : ChatItem) (now : Nat) : HubItem :=
  let role := item.role.getD "conductor"
  { id := item.id, role, ts := item.ts.getD now, read := decide (role ≠ "user"), final := item.final
    kind := if item.final then some "final" else item.kind, msg := item.msg }

-- The service's two mirrors, and (for the theorems only) every item that came, the stored ones first.
structure Service where
  chatMessages : List HubItem := []
  relayedChatIds : List String := []
  arrived : List HubItem := []
  deriving DecidableEq

-- `order` is the order in which the set is listed when it has to be trimmed.
def rememberRelayed (ids : List String) (order : List String) : Option String → Option (List String)
  | none => some ids
  | some k =>
      let more := if k ∈ ids then ids else ids ++ [k]
      if 500 < more.length then
        if order.Perm more then some (order.rtake 250) else none
      else some more

-- The part of `on_remote_chat` that the saved record leads to. An empty record is not looked at.
def onRemoteChat (s : Service) (item : Option ChatItem) (now : Nat) (order : List String) : Option Service :=
  match item with
  | none => some s
  | some item =>
      let kept := hubItem item now
      let arrived := s.arrived ++ [kept]
      if item.id.any fun k => decide (k ∈ s.relayedChatIds) then some { s with arrived }
      else
        (rememberRelayed s.relayedChatIds order item.id).map fun ids =>
          { chatMessages := (s.chatMessages ++ [kept]).rtake 200, relayedChatIds := ids, arrived }

structure Call where
  item : Option ChatItem
  now : Nat
  order : List String
  deriving DecidableEq

-- What the store's table has when the service starts: an item id is its key, and it keeps 200 rows.
structure Stored where
  items : List HubItem
  all_ids : ∀ item ∈ items, item.id.isSome = true
  nodup_ids : (items.filterMap HubItem.id).Nodup
  capped : items.length ≤ 200

def machine (stored : Stored) : Machine Service Call where
  start :=
    { chatMessages := stored.items, relayedChatIds := stored.items.filterMap HubItem.id, arrived := stored.items }
  next s c := onRemoteChat s c.item c.now c.order

def remembered (s : Service) (c : Call) : Bool :=
  c.item.all fun item => item.id.all fun k =>
    decide (k ∈ s.arrived.filterMap HubItem.id) → k ∈ s.relayedChatIds

-- The newest of the distinct items, in the order of their first arrival.
def Faithful (s : Service) : Prop :=
  s.chatMessages = (distinctOn HubItem.id [] s.arrived).rtake 200 ∧ (s.chatMessages.filterMap HubItem.id).Nodup

theorem rtake_concat {α : Type} (n : Nat) (l : List α) (x : α) : (l.rtake n ++ [x]).rtake n = (l ++ [x]).rtake n := by
  cases n with
  | zero => rw [List.rtake_zero, List.rtake_zero]
  | succ n =>
      rw [List.rtake_concat_succ, List.rtake_concat_succ]
      congr 1
      simp only [List.rtake_eq_reverse_take_reverse, List.reverse_reverse, List.take_take]
      congr 2
      omega

theorem onRemoteChat_cases {s s' : Service} {item : Option ChatItem} {now : Nat} {order : List String}
    (h : onRemoteChat s item now order = some s') :
    (item = none ∧ s' = s) ∨
    (∃ known k, item = some known ∧ known.id = some k ∧ k ∈ s.relayedChatIds ∧
      s' = { s with arrived := s.arrived ++ [hubItem known now] }) ∨
    ∃ new ids, item = some new ∧ (∀ k, new.id = some k → k ∉ s.relayedChatIds) ∧
      rememberRelayed s.relayedChatIds order new.id = some ids ∧
      s' = { chatMessages := (s.chatMessages ++ [hubItem new now]).rtake 200, relayedChatIds := ids
             arrived := s.arrived ++ [hubItem new now] } := by
  cases item with
  | none =>
      cases h
      exact Or.inl ⟨rfl, rfl⟩
  | some item =>
      simp only [onRemoteChat] at h
      split at h
      · rename_i hknown
        cases hid : item.id with
        | none => simp [hid] at hknown
        | some k =>
            cases h
            exact Or.inr (Or.inl ⟨item, k, rfl, hid, by simpa [hid] using hknown, rfl⟩)
      · rename_i hnew
        obtain ⟨ids, hids, hs⟩ := Option.map_eq_some_iff.mp h
        refine Or.inr (Or.inr ⟨item, ids, rfl, fun k hk => ?_, hids, hs.symm⟩)
        simpa [hk] using hnew

theorem onRemoteChat_new {s : Service} {item : ChatItem} {k : String} {now : Nat} {order ids : List String}
    (hid : item.id = some k) (hnew : k ∉ s.relayedChatIds) (hids : rememberRelayed s.relayedChatIds order (some k) = some ids) :
    onRemoteChat s (some item) now order = some
      { chatMessages := (s.chatMessages ++ [hubItem item now]).rtake 200, relayedChatIds := ids
        arrived := s.arrived ++ [hubItem item now] } := by
  simp only [onRemoteChat, hid, Option.any_some, hnew, decide_false, Bool.false_eq_true, if_false, hids, Option.map_some]

theorem rememberRelayed_sub {ids ids' order : List String} {id : Option String}
    (h : rememberRelayed ids order id = some ids') : ∀ k ∈ ids', k ∈ ids ∨ id = some k := by
  cases id with
  | none =>
      cases h
      exact fun k hk => Or.inl hk
  | some k =>
      have hmore : ∀ j ∈ (if k ∈ ids then ids else ids ++ [k]), j ∈ ids ∨ some k = some j := by
        intro j hj
        split at hj
        · exact Or.inl hj
        · exact (List.mem_append.mp hj).imp_right fun hlast => congrArg some (List.mem_singleton.mp hlast).symm
      simp only [rememberRelayed] at h
      generalize (if k ∈ ids then ids else ids ++ [k]) = more at h hmore
      split at h
      · split at h
        · rename_i hperm
          rw [← Option.some.inj h]
          exact fun j hj => hmore j (hperm.mem_iff.mp (List.mem_of_mem_drop hj))
        · cases h
      · cases h
        exact hmore

-- The newest distinct items make up the mirror, and only ids that came are in the set.
structure Mirrors (s : Service) : Prop where
  chat : s.chatMessages = (distinctOn HubItem.id [] s.arrived).rtake 200
  ids : ∀ k ∈ s.relayedChatIds, k ∈ s.arrived.filterMap HubItem.id

theorem mirrors_start (stored : Stored) : Mirrors (machine stored).start where
  chat := by
    have hall : distinctOn HubItem.id [] stored.items = stored.items :=
      distinctOn_of_nodup stored.items stored.nodup_ids fun _ _ h => by cases h
    have hcapped := stored.capped
    simp only [machine, hall, List.rtake]
    rw [show stored.items.length - 200 = 0 by omega, List.drop_zero]
  ids _ hk := hk

theorem step_mirrors {stored : Stored} {s s' : Service} {c : Call} (h : Mirrors s) (hok : remembered s c = true)
    (hs : (machine stored).next s c = some s') : Mirrors s' := by
  rcases onRemoteChat_cases hs with ⟨-, rfl⟩ | ⟨item, k, -, hid, hk, rfl⟩ | ⟨item, ids, hitem, hnew, hids, rfl⟩
  · exact h
  · have hseen := h.ids k hk
    constructor
    · have hsame : (hubItem item c.now).id.any (fun k => decide (k ∈ s.arrived.filterMap HubItem.id)) = true := by
        simpa [hubItem, hid] using hseen
      rw [distinctOn_concat, if_pos hsame]
      exact h.chat
    · intro j hj
      rw [List.filterMap_append]
      exact List.mem_append_left _ (h.ids j hj)
  · constructor
    · -- An id that came before would still be in the set, and this one is not.
      have hfresh : ¬(hubItem item c.now).id.any (fun k => decide (k ∈ s.arrived.filterMap HubItem.id)) = true := by
        intro hany
        cases hid : item.id with
        | none => simp [hubItem, hid] at hany
        | some k =>
            have hin : k ∈ s.arrived.filterMap HubItem.id := by simpa [hubItem, hid] using hany
            simp only [remembered, hitem, hid, Option.all_some, decide_eq_true_eq] at hok
            exact hnew k hid (hok hin)
      rw [distinctOn_concat, if_neg hfresh, h.chat, rtake_concat]
    · intro j hj
      rw [List.filterMap_append]
      rcases rememberRelayed_sub hids j hj with hold | hlast
      · exact List.mem_append_left _ (h.ids j hold)
      · exact List.mem_append_right _ (by simp [hubItem, hlast])

theorem Mirrors.faithful {s : Service} (h : Mirrors s) : Faithful s := by
  refine ⟨h.chat, ?_⟩
  rw [h.chat]
  exact (nodup_keys_distinctOn [] s.arrived).1.sublist ((List.drop_sublist _ _).filterMap _)

theorem mirror_faithful {stored : Stored} {s : Service}
    (h : ((machine stored).restrict fun s c => remembered s c = true).Reachable s) : Faithful s := by
  have hmirrors : Mirrors s := h.invariant (mirrors_start stored)
    fun _ _ _ hm hs => step_mirrors hm (Machine.restrict_next hs).1 (Machine.restrict_next hs).2
  exact hmirrors.faithful

def noneStored : Stored where
  items := []
  all_ids := by decide
  nodup_ids := by decide
  capped := by decide

theorem mirror_faithful_replay :
    ∃ s, ((machine noneStored).restrict fun s c => remembered s c = true).Reachable s ∧
      s.chatMessages.map HubItem.id = [some "a", none, some "b"] ∧ Faithful s := by
  have hrun : (((machine noneStored).restrict fun s c => remembered s c = true).run {}
      [⟨some { id := some "a", role := some "user" }, 1, []⟩, ⟨some { id := none }, 2, []⟩, ⟨none, 3, []⟩,
        ⟨some { id := some "b", final := true }, 4, []⟩, ⟨some { id := some "a", role := some "user" }, 5, []⟩]).map
      (fun s => s.chatMessages.map HubItem.id) = some [some "a", none, some "b"] := by decide
  obtain ⟨s, hs, hids⟩ := Option.map_eq_some_iff.mp hrun
  exact ⟨s, ⟨_, hs⟩, hids, mirror_faithful ⟨_, hs⟩⟩

section Forgotten

def name (i : Nat) : String := String.ofList (List.replicate i 'm')

theorem name_injective : Function.Injective name := by
  intro i j h
  have hlength := congrArg List.length (String.ofList_injective h)
  simpa using hlength

def message (i : Nat) : HubItem := hubItem { id := some (name i) } i

def arrival (order : List String) (i : Nat) : Call := ⟨some { id := some (name i) }, i, order⟩

def afterArrivals (n : Nat) : Service where
  chatMessages := ((List.range n).map message).rtake 200
  relayedChatIds := (List.range n).map name
  arrived := (List.range n).map message

theorem name_fresh (n : Nat) : name n ∉ (List.range n).map name := by
  intro hmem
  obtain ⟨i, hi, hname⟩ := List.mem_map.mp hmem
  have hlt := List.mem_range.mp hi
  have heq := name_injective hname
  omega

theorem message_concat (n : Nat) : (List.range (n + 1)).map message = (List.range n).map message ++ [message n] := by
  rw [List.range_succ, List.map_append, List.map_singleton]

theorem run_arrivals {n : Nat} (hn : n ≤ 500) :
    (machine noneStored).run {} ((List.range n).map (arrival [])) = some (afterArrivals n) := by
  induction n with
  | zero => rfl
  | succ n ih =>
      rw [List.range_succ, List.map_append, List.map_singleton]
      have hremember : rememberRelayed ((List.range n).map name) [] (some (name n)) = some ((List.range (n + 1)).map name) := by
        have hshort : ¬500 < ((List.range n).map name ++ [name n]).length := by simp; omega
        simp only [rememberRelayed, if_neg (name_fresh n), if_neg hshort, List.range_succ, List.map_append, List.map_singleton]
      have hstep : onRemoteChat (afterArrivals n) (some { id := some (name n) }) n [] = some _ :=
        onRemoteChat_new rfl (name_fresh n) hremember
      have hnext : (machine noneStored).next (afterArrivals n) (arrival [] n) = some (afterArrivals (n + 1)) := by
        refine hstep.trans ?_
        simp only [afterArrivals, message_concat, message, rtake_concat]
      refine Machine.run_trans (ih (by omega)) ?_
      simp only [Machine.run, hnext, Option.bind_some]

theorem repeated_of_trim {s : Service} {k : String} (n : Nat) (hfull : s.relayedChatIds.length = 500)
    (hk : k ∉ s.relayedChatIds) :
    ∃ s₁ s₂, onRemoteChat s (some { id := some k }) n (k :: s.relayedChatIds) = some s₁ ∧
      onRemoteChat s₁ (some { id := some k }) n [] = some s₂ ∧ ¬(s₂.chatMessages.filterMap HubItem.id).Nodup := by
  have htrim : rememberRelayed s.relayedChatIds (k :: s.relayedChatIds) (some k) =
      some ((k :: s.relayedChatIds).rtake 250) := by
    have hlong : 500 < (s.relayedChatIds ++ [k]).length := by simp [hfull]
    have hperm : (k :: s.relayedChatIds).Perm (s.relayedChatIds ++ [k]) := (List.perm_append_singleton _ _).symm
    simp only [rememberRelayed, if_neg hk, if_pos hlong, if_pos hperm]
  have hkept : (k :: s.relayedChatIds).rtake 250 = s.relayedChatIds.drop 250 := by
    rw [List.rtake, List.length_cons, hfull]
    rfl
  have hforgotten : k ∉ s.relayedChatIds.drop 250 := fun hmem => hk (List.mem_of_mem_drop hmem)
  have hagain : rememberRelayed (s.relayedChatIds.drop 250) [] (some k) = some (s.relayedChatIds.drop 250 ++ [k]) := by
    have hshort : ¬500 < (s.relayedChatIds.drop 250 ++ [k]).length := by simp [hfull]
    simp only [rememberRelayed, if_neg hforgotten, if_neg hshort]
  rw [hkept] at htrim
  refine ⟨_, _, onRemoteChat_new rfl hk htrim, onRemoteChat_new rfl hforgotten hagain, ?_⟩
  rw [rtake_concat, List.rtake_concat_succ, List.rtake_concat_succ]
  simp [hubItem, List.filterMap_append, List.nodup_append]

theorem forgotten_repeated : ∃ s, (machine noneStored).Reachable s ∧ ¬(s.chatMessages.filterMap HubItem.id).Nodup := by
  obtain ⟨n, hn⟩ : ∃ n, n = 500 := ⟨500, rfl⟩
  have hfull : (afterArrivals n).relayedChatIds.length = 500 := by simp [afterArrivals, hn]
  obtain ⟨s₁, s₂, hfirst, hsecond, hrepeated⟩ := repeated_of_trim n hfull (name_fresh n)
  have hreach : (machine noneStored).Reachable (afterArrivals n) := ⟨_, run_arrivals (Nat.le_of_eq hn)⟩
  have htrimmed : (machine noneStored).next (afterArrivals n) (arrival (name n :: (afterArrivals n).relayedChatIds) n) =
      some s₁ := hfirst
  have hreplayed : (machine noneStored).next s₁ (arrival [] n) = some s₂ := hsecond
  exact ⟨s₂, (hreach.next htrimmed).next hreplayed, hrepeated⟩

end Forgotten

end GaHub.Mirror
