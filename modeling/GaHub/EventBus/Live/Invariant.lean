import GaHub.EventBus.Live

namespace GaHub.EventBus

open Lib

variable {P : Type}

def arrived (items : List (Option (Event P))) : List (Event P) := items.filterMap id

def Thread.entries : Thread P → List (List String × QueueId)
  | .dispatching _ _ _ (some handout) => handout.entries
  | _ => []

-- Events taken off the pending deque that have not reached the queue yet.
def Thread.inflight (q : QueueId) : Thread P → List (Event P)
  | .idle => []
  | .dispatching _ _ batch none => batch
  | .dispatching _ _ batch (some handout) =>
      (if q ∈ handout.entries.map Prod.snd then [handout.evt] else []) ++ batch

structure Wired (channels : QueueId → Option (Channel P)) (entries : List (List String × QueueId))
    (owners : Dict QueueId LoopId) : Prop where
  nodup : (entries.map Prod.snd).Nodup
  known : ∀ prefixes q, (prefixes, q) ∈ entries → ∃ c, channels q = some c ∧
    owners.get? q = some c.owner ∧ ∀ sub, c.subscription = some sub → sub.prefixes = prefixes

-- What holds of one resumable reader. While nothing went wrong (`attached`),
-- everything wanted is yielded, queued, in flight or pending, in that order.
structure LiveInv (w : World P) (q : QueueId) (c : Channel P) (sub : EventSubscription P) :
    Prop where
  delivered : c.yielded <+: sub.wanted w.published
  ended : c.pc = .done → sub.closed = true ∨ sub.liveResyncReason ≠ none
  matching : sub.liveResyncReason = none →
    ∀ i ∈ c.items, ∃ e, i = some e ∧ matchesTopic e.topic sub.prefixes = true
  queued : sub.liveResyncReason = none →
    c.yielded ++ sub.wanted (arrived c.items) <+: sub.wanted w.published
  attached : sub.liveResyncReason = none → sub.closed = false → w.closedLoops c.owner = false →
    w.bus.loop = some c.owner ∧ (sub.prefixes, q) ∈ w.bus.subs ∧
    c.yielded ++ sub.wanted (arrived c.items ++ (w.threads c.owner).inflight q ++
      w.bus.pendingDispatch) = sub.wanted w.published
  detached : sub.closed = true →
    q ∉ w.bus.subs.map Prod.snd ∧ q ∉ (w.threads c.owner).entries.map Prod.snd

structure Inv (w : World P) : Prop where
  recorded : Recorded w.bus w.published
  pending : ∀ e ∈ w.bus.pendingDispatch, e ∈ w.published
  wired : Wired w.channels w.bus.subs w.bus.subscriberLoops
  resumable : ∀ q c sub, q ∈ w.bus.subs.map Prod.snd → w.channels q = some c →
    c.subscription = some sub → q ∈ w.bus.resumableSubs
  handouts : ∀ l g m b h, w.threads l = .dispatching g m b (some h) →
    Wired w.channels h.entries h.owners
  fresh : ∀ q c, w.channels q = some c → q < w.nextQueue
  idle : ∀ l, w.closedLoops l = true → w.threads l = .idle
  woken : ∀ l q, (l, Callback.wakeQueue q) ∈ w.outbox ∨ (l, Callback.wakeQueue q) ∈ w.ready →
    q < w.nextQueue ∧ ∀ c sub, w.channels q = some c → c.subscription = some sub →
      sub.liveResyncReason ≠ none
  live : ∀ q c sub, w.channels q = some c → c.subscription = some sub →
    c.attachedAtStart = true → LiveInv w q c sub

section Wanted

variable (sub : EventSubscription P)

@[simp] theorem wanted_nil : sub.wanted [] = [] := rfl

theorem wanted_append (xs ys : List (Event P)) :
    sub.wanted (xs ++ ys) = sub.wanted xs ++ sub.wanted ys := List.filter_append ..

theorem wanted_prefix_append (xs ys : List (Event P)) : sub.wanted xs <+: sub.wanted (xs ++ ys) := by
  rw [wanted_append]
  exact List.prefix_append _ _

theorem wanted_eq_nil {es : List (Event P)} (h : ∀ e ∈ es, e.eventId ≤ sub.boundaryId) :
    sub.wanted es = [] := by
  refine List.filter_eq_nil_iff.mpr fun e he hw => ?_
  have := h e he
  simp only [Bool.and_eq_true, decide_eq_true_eq] at hw
  omega

theorem wanted_cons_of_not_matches {evt : Event P}
    (h : matchesTopic evt.topic sub.prefixes = false) (es : List (Event P)) :
    sub.wanted (evt :: es) = sub.wanted es := by
  simp [EventSubscription.wanted, h]

@[simp] theorem arrived_append (xs ys : List (Option (Event P))) :
    arrived (xs ++ ys) = arrived xs ++ arrived ys := List.filterMap_append

@[simp] theorem arrived_some (evt : Event P) (items : List (Option (Event P))) :
    arrived (some evt :: items) = evt :: arrived items := rfl

@[simp] theorem arrived_nil : arrived ([] : List (Option (Event P))) = [] := rfl

end Wanted

section Publish

variable (bus : Bus P) (call : Publication P)

theorem publish_fields :
    (publish bus call).1.loop = bus.loop ∧ (publish bus call).1.subs = bus.subs ∧
    (publish bus call).1.resumableSubs = bus.resumableSubs ∧
    (publish bus call).1.subscriberLoops = bus.subscriberLoops := by
  unfold publish
  cases bus.loop with
  | none => simp
  | some loop => cases hs : bus.dispatchScheduled <;> simp

theorem publish_pending :
    (publish bus call).1.pendingDispatch =
      if bus.loop.isSome then bus.pendingDispatch ++ [call.toEvent bus.nextEventId]
      else bus.pendingDispatch := by
  unfold publish
  cases bus.loop with
  | none => simp
  | some loop => cases hs : bus.dispatchScheduled <;> simp

end Publish

theorem Wired.mono {channels channels' : QueueId → Option (Channel P)}
    {entries : List (List String × QueueId)} {owners : Dict QueueId LoopId}
    (h : Wired channels entries owners)
    (hkeep : ∀ q c, channels q = some c → ∃ c', channels' q = some c' ∧ c'.owner = c.owner ∧
      ∀ sub', c'.subscription = some sub' → ∃ sub, c.subscription = some sub ∧
        sub'.prefixes = sub.prefixes) :
    Wired channels' entries owners := by
  refine ⟨h.nodup, fun prefixes q hq => ?_⟩
  obtain ⟨c, hc, ho, hs⟩ := h.known prefixes q hq
  obtain ⟨c', hc', ho', hs'⟩ := hkeep q c hc
  refine ⟨c', hc', ho'.symm ▸ ho, fun sub' hsub' => ?_⟩
  obtain ⟨sub, hsub, hp⟩ := hs' sub' hsub'
  exact hp.trans (hs sub hsub)

theorem Wired.sublist {channels : QueueId → Option (Channel P)}
    {entries entries' : List (List String × QueueId)} {owners owners' : Dict QueueId LoopId}
    (h : Wired channels entries owners) (hsub : entries'.Sublist entries)
    (howners : ∀ q, q ∈ entries'.map Prod.snd → owners'.get? q = owners.get? q) :
    Wired channels entries' owners' := by
  refine ⟨h.nodup.sublist (hsub.map Prod.snd), fun prefixes q hq => ?_⟩
  obtain ⟨c, hc, ho, hs⟩ := h.known prefixes q (hsub.subset hq)
  exact ⟨c, hc, (howners q (List.mem_map.mpr ⟨_, hq, rfl⟩)).trans ho, hs⟩

theorem Wired.prefixes_eq {channels : QueueId → Option (Channel P)}
    {entries : List (List String × QueueId)} {owners : Dict QueueId LoopId}
    (h : Wired channels entries owners) {prefixes : List String} {q : QueueId} {c : Channel P}
    (hq : (prefixes, q) ∈ entries) (hc : channels q = some c) :
    owners.get? q = some c.owner ∧
      ∀ sub, c.subscription = some sub → sub.prefixes = prefixes := by
  obtain ⟨c', hc', h'⟩ := h.known prefixes q hq
  cases hc.symm.trans hc'
  exact h'

end GaHub.EventBus
