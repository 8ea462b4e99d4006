import GaHub.EventBus.Live.Invariant

namespace GaHub.EventBus

open Lib

variable {P : Type} {w : World P}

structure Channel.Keeps (c c' : Channel P) : Prop where
  owner : c'.owner = c.owner
  start : c'.attachedAtStart = c.attachedAtStart
  prefixes : ∀ sub', c'.subscription = some sub' → ∃ sub, c.subscription = some sub ∧
    sub'.prefixes = sub.prefixes ∧ (sub'.liveResyncReason = none → sub.liveResyncReason = none)

theorem Channel.Keeps.refl (c : Channel P) : c.Keeps c :=
  ⟨rfl, rfl, fun sub h => ⟨sub, h, rfl, id⟩⟩

theorem Channel.keeps_resync (c : Channel P) (reason : ResyncReason) : c.Keeps (c.resync reason) := by
  refine ⟨rfl, rfl, fun sub' h => ?_⟩
  obtain ⟨sub, hs, rfl⟩ := Option.map_eq_some_iff.mp h
  exact ⟨sub, hs, rfl, fun hn => by cases hn⟩

theorem LiveInv.frame {w w' : World P} {q : QueueId} {c : Channel P} {sub : EventSubscription P}
    (h : LiveInv w q c sub) (hp : w'.published = w.published)
    (hc : w'.closedLoops = w.closedLoops) (hl : w'.bus.loop = w.bus.loop)
    (hs : w'.bus.subs = w.bus.subs) (ht : w'.threads c.owner = w.threads c.owner)
    (hd : w'.bus.pendingDispatch = w.bus.pendingDispatch) : LiveInv w' q c sub := by
  refine ⟨?_, h.ended, h.matching, ?_, ?_, ?_⟩
  · rw [hp]
    exact h.delivered
  · rw [hp]
    exact h.queued
  · rw [hp, hc, hl, hs, ht, hd]
    exact h.attached
  · rw [hs, ht]
    exact h.detached

theorem modify_cases {q q' : QueueId} {f : Channel P → Channel P} {c' : Channel P}
    (h : (w.modify q f).channels q' = some c') :
    (q' = q ∧ ∃ c, w.channels q = some c ∧ c' = f c) ∨ (q' ≠ q ∧ w.channels q' = some c') := by
  by_cases hq : q' = q
  · subst hq
    simp only [World.modify, Function.update_self, Option.map_eq_some_iff] at h
    obtain ⟨c, hc, rfl⟩ := h
    exact Or.inl ⟨rfl, c, hc, rfl⟩
  · simp only [World.modify, Function.update_of_ne hq] at h
    exact Or.inr ⟨hq, h⟩

theorem Wired.modify {q : QueueId} {f : Channel P → Channel P}
    {entries : List (List String × QueueId)} {owners : Dict QueueId LoopId}
    (h : Wired w.channels entries owners) (hf : ∀ c, w.channels q = some c → c.Keeps (f c)) :
    Wired (w.modify q f).channels entries owners := by
  refine h.mono fun q' c hc => ?_
  by_cases hq : q' = q
  · subst hq
    refine ⟨f c, by simp [World.modify, hc], (hf c hc).owner, fun sub' hs => ?_⟩
    obtain ⟨sub, hsub, hp, _⟩ := (hf c hc).prefixes sub' hs
    exact ⟨sub, hsub, hp⟩
  · exact ⟨c, by simp [World.modify, Function.update_of_ne hq, hc], rfl, fun sub hs => ⟨sub, hs, rfl⟩⟩

-- The parts of the invariant that an edit of one reader keeps by itself.
structure ModifiedParts (w : World P) (q : QueueId) (f : Channel P → Channel P) : Prop where
  wired : Wired (w.modify q f).channels w.bus.subs w.bus.subscriberLoops
  resumable : ∀ q' c sub, q' ∈ w.bus.subs.map Prod.snd → (w.modify q f).channels q' = some c →
    c.subscription = some sub → q' ∈ w.bus.resumableSubs
  fresh : ∀ q' c, (w.modify q f).channels q' = some c → q' < w.nextQueue
  woken : ∀ l q', (l, Callback.wakeQueue q') ∈ w.outbox ∨ (l, Callback.wakeQueue q') ∈ w.ready →
    q' < w.nextQueue ∧ ∀ c sub, (w.modify q f).channels q' = some c → c.subscription = some sub →
      sub.liveResyncReason ≠ none

theorem Inv.modify_parts (h : Inv w) {q : QueueId} {f : Channel P → Channel P}
    (hf : ∀ c, w.channels q = some c → c.Keeps (f c)) : ModifiedParts w q f := by
  have hback : ∀ q' c' sub', (w.modify q f).channels q' = some c' → c'.subscription = some sub' →
      ∃ c sub, w.channels q' = some c ∧ c.subscription = some sub ∧
        (sub'.liveResyncReason = none → sub.liveResyncReason = none) := by
    intro q' c' sub' hc' hs'
    rcases modify_cases hc' with ⟨rfl, c, hc, rfl⟩ | ⟨_, hc⟩
    · obtain ⟨sub, hs, _, hr⟩ := (hf c hc).prefixes sub' hs'
      exact ⟨c, sub, hc, hs, hr⟩
    · exact ⟨c', sub', hc, hs', id⟩
  refine ⟨h.wired.modify hf, ?_, ?_, ?_⟩
  · intro q' c' sub' hq hc' hs'
    obtain ⟨c, sub, hc, hs, _⟩ := hback q' c' sub' hc' hs'
    exact h.resumable q' c sub hq hc hs
  · intro q' c' hc'
    rcases modify_cases hc' with ⟨rfl, c, hc, rfl⟩ | ⟨_, hc⟩
    · exact h.fresh _ c hc
    · exact h.fresh _ _ hc
  · intro l q' hw
    refine ⟨(h.woken l q' hw).1, fun c' sub' hc' hs' hn => ?_⟩
    obtain ⟨c, sub, hc, hs, hr⟩ := hback q' c' sub' hc' hs'
    exact (h.woken l q' hw).2 c sub hc hs (hr hn)

theorem Inv.modify (h : Inv w) {q : QueueId} {f : Channel P → Channel P}
    (hf : ∀ c, w.channels q = some c → c.Keeps (f c))
    (hlive : ∀ c sub, w.channels q = some c → (f c).subscription = some sub →
      c.attachedAtStart = true → LiveInv w q (f c) sub) : Inv (w.modify q f) := by
  have hparts := h.modify_parts hf
  refine ⟨h.recorded, h.pending, hparts.wired, hparts.resumable, fun l g m b hd ht =>
    (h.handouts l g m b hd ht).modify hf, hparts.fresh, h.idle, hparts.woken, ?_⟩
  intro q' c' sub' hc' hs' ha
  rcases modify_cases hc' with ⟨rfl, c, hc, rfl⟩ | ⟨_, hc⟩
  · exact (hlive c sub' hc hs' ((hf c hc).start ▸ ha)).frame rfl rfl rfl rfl rfl rfl
  · exact (h.live q' c' sub' hc hs' ha).frame rfl rfl rfl rfl rfl rfl

section Bus

theorem publishAction_inv (h : Inv w) (call : Publication P) : Inv (publishAction w call) := by
  obtain ⟨hl, hs, hr, ho⟩ := publish_fields w.bus call
  have hd := publish_pending w.bus call
  refine ⟨publish_recorded h.recorded call, ?_, ?_, ?_, h.handouts, h.fresh, h.idle, ?_, ?_⟩
  · intro e he
    change e ∈ (publish w.bus call).1.pendingDispatch at he
    rw [hd] at he
    change e ∈ w.published ++ [call.toEvent w.bus.nextEventId]
    split at he
    · rcases List.mem_append.mp he with he | he
      · exact List.mem_append_left _ (h.pending e he)
      · exact List.mem_append_right _ he
    · exact List.mem_append_left _ (h.pending e he)
  · change Wired w.channels (publish w.bus call).1.subs (publish w.bus call).1.subscriberLoops
    rw [hs, ho]
    exact h.wired
  · change ∀ q c sub, q ∈ (publish w.bus call).1.subs.map Prod.snd → _ → _ →
      q ∈ (publish w.bus call).1.resumableSubs
    rw [hs, hr]
    exact h.resumable
  · intro l q hw
    refine h.woken l q (hw.imp_left fun hm => ?_)
    rcases List.mem_append.mp hm with hm | hm
    · exact hm
    · obtain ⟨s, _, he⟩ := List.mem_map.mp hm
      cases he
  · intro q c sub hc hsub ha
    have hi := h.live q c sub hc hsub ha
    have hgrow := wanted_prefix_append sub w.published [call.toEvent w.bus.nextEventId]
    refine ⟨hi.delivered.trans hgrow, hi.ended, hi.matching,
      fun hn => (hi.queued hn).trans hgrow, fun hn hcl ho => ?_, ?_⟩
    · obtain ⟨hloop, hmem, heq⟩ := hi.attached hn hcl ho
      refine ⟨hl.trans hloop, ?_, ?_⟩
      · change _ ∈ (publish w.bus call).1.subs
        rw [hs]
        exact hmem
      · change c.yielded ++ sub.wanted (arrived c.items ++ (w.threads c.owner).inflight q ++
          (publish w.bus call).1.pendingDispatch) = sub.wanted (w.published ++ [_])
        rw [hd, hloop, Option.isSome_some, if_pos rfl, ← List.append_assoc, wanted_append,
          ← List.append_assoc, heq, wanted_append]
    · change _ → q ∉ (publish w.bus call).1.subs.map Prod.snd ∧ _
      rw [hs]
      exact hi.detached

theorem mem_retired {bus : Bus P} {owner : LoopId} {q : QueueId} :
    q ∈ retired bus owner ↔ q ∈ bus.subs.map Prod.snd ∧ ownedBy bus owner q = true := by
  simp only [retired, List.mem_map, List.mem_filter, Prod.exists, exists_eq_right]
  exact exists_and_right

theorem retire_cases {owner : LoopId} {reason : ResyncReason} {q : QueueId} {c' : Channel P}
    (h : (retireSubscriptions w owner reason).channels q = some c') :
    ∃ c, w.channels q = some c ∧
      (q ∈ retired w.bus owner ∧ q ∈ w.bus.resumableSubs ∧ c' = c.resync reason ∨
        ¬(q ∈ retired w.bus owner ∧ q ∈ w.bus.resumableSubs) ∧ c' = c) := by
  simp only [retireSubscriptions] at h
  split at h
  · rename_i hq
    obtain ⟨c, hc, rfl⟩ := Option.map_eq_some_iff.mp h
    exact ⟨c, hc, Or.inl ⟨hq.1, hq.2, rfl⟩⟩
  · rename_i hq
    exact ⟨c', h, Or.inr ⟨hq, rfl⟩⟩

theorem retire_wired {entries : List (List String × QueueId)} {owners : Dict QueueId LoopId}
    (h : Wired w.channels entries owners) (owner : LoopId) (reason : ResyncReason) :
    Wired (retireSubscriptions w owner reason).channels entries owners := by
  refine h.mono fun q c hc => ?_
  simp only [retireSubscriptions]
  split
  · refine ⟨c.resync reason, by simp [hc], rfl, fun sub' hs => ?_⟩
    obtain ⟨sub, hsub, hp, _⟩ := (c.keeps_resync reason).prefixes sub' hs
    exact ⟨sub, hsub, hp⟩
  · exact ⟨c, hc, rfl, fun sub hs => ⟨sub, hs, rfl⟩⟩

-- Retiring a lifespan: its resumable readers learn why, and a reader that was
-- served until now is one of them.
theorem retire_inv (h : Inv w) (owner : LoopId) (reason : ResyncReason) {bus' : Bus P}
    (hhist : Recorded bus' w.published) (hpend : bus'.pendingDispatch = [])
    (hsubs : bus'.subs = w.bus.subs) (hres : bus'.resumableSubs = w.bus.resumableSubs)
    (hown : bus'.subscriberLoops = w.bus.subscriberLoops) (hloop : w.bus.loop = some owner) :
    Inv (retireSubscriptions { w with bus := bus' } owner reason) := by
  have hkept : (w.bus.subs.filter fun e => !ownedBy w.bus owner e.2).Sublist w.bus.subs :=
    List.filter_sublist
  have hret : retired bus' owner = retired w.bus owner := by
    simp only [retired, ownedBy, hsubs, hown]
  have hbus : (fun q => ownedBy bus' owner q) = fun q => ownedBy w.bus owner q := by
    simp only [ownedBy, hown]
  have hnew : (retireSubscriptions { w with bus := bus' } owner reason).bus.subs =
      w.bus.subs.filter fun e => !ownedBy w.bus owner e.2 := by
    simp only [retireSubscriptions, hsubs, funext_iff.mp hbus]
  have hchan : (retireSubscriptions { w with bus := bus' } owner reason).channels =
      (retireSubscriptions w owner reason).channels := by
    simp only [retireSubscriptions, hret, hres]
  have hback : ∀ q c' sub', (retireSubscriptions w owner reason).channels q = some c' →
      c'.subscription = some sub' → sub'.liveResyncReason = none →
      w.channels q = some c' ∧ ¬(q ∈ retired w.bus owner ∧ q ∈ w.bus.resumableSubs) := by
    intro q c' sub' hc' hs' hn
    obtain ⟨c, hc, ⟨_, _, rfl⟩ | ⟨hq, rfl⟩⟩ := retire_cases hc'
    · obtain ⟨sub, _, rfl⟩ := Option.map_eq_some_iff.mp hs'
      cases hn
    · exact ⟨hc, hq⟩
  refine ⟨⟨hhist.split, hhist.ids, hhist.next, hhist.bounded⟩, ?_, ?_, ?_, ?_, ?_, h.idle, ?_, ?_⟩
  · change ∀ e ∈ bus'.pendingDispatch, _
    simp [hpend]
  · rw [hnew, hchan]
    refine (retire_wired h.wired owner reason).sublist hkept fun q hq => ?_
    change (bus'.subscriberLoops.filter _).get? q = _
    obtain ⟨e, he, rfl⟩ := List.mem_map.mp hq
    rw [List.mem_filter] at he
    have hgone : e.2 ∉ retired w.bus owner := by
      intro hm
      have hb : ownedBy w.bus owner e.2 = true := (mem_retired.mp hm).2
      rw [hb] at he
      simp at he
    rw [Dict.get?_filter, hown, hret]
    cases w.bus.subscriberLoops.get? e.2 <;> simp [hgone]
  · rw [hnew, hchan]
    intro q c' sub' hq hc' hs'
    obtain ⟨e, he, rfl⟩ := List.mem_map.mp hq
    rw [List.mem_filter] at he
    obtain ⟨c, hc, hcase⟩ := retire_cases hc'
    have hsub : ∃ sub, c.subscription = some sub := by
      rcases hcase with ⟨_, _, rfl⟩ | ⟨_, rfl⟩
      · obtain ⟨sub, hs, _⟩ := Option.map_eq_some_iff.mp hs'
        exact ⟨sub, hs⟩
      · exact ⟨sub', hs'⟩
    obtain ⟨sub, hs⟩ := hsub
    have hr := h.resumable e.2 c sub (List.mem_map.mpr ⟨e, he.1, rfl⟩) hc hs
    have hgone : e.2 ∉ retired w.bus owner := by
      intro hm
      have hb : ownedBy w.bus owner e.2 = true := (mem_retired.mp hm).2
      rw [hb] at he
      simp at he
    change e.2 ∈ bus'.resumableSubs.filter _
    rw [hres, hret, List.mem_filter]
    exact ⟨hr, by simp [hgone]⟩
  · rw [hchan]
    exact fun l g m b hd ht => retire_wired (h.handouts l g m b hd ht) owner reason
  · rw [hchan]
    intro q c' hc'
    obtain ⟨c, hc, _⟩ := retire_cases hc'
    exact h.fresh q c hc
  · rw [hchan]
    intro l q hw
    have hold : (q < w.nextQueue ∧ ∀ c sub, w.channels q = some c → c.subscription = some sub →
        sub.liveResyncReason ≠ none) ∨ q ∈ retired w.bus owner := by
      rcases hw with hw | hw
      · rcases List.mem_append.mp hw with hw | hw
        · exact Or.inl (h.woken l q (Or.inl hw))
        · obtain ⟨q', hq', he⟩ := List.mem_filterMap.mp hw
          rw [hret] at hq'
          obtain ⟨o, _, he⟩ := Option.map_eq_some_iff.mp he
          cases he
          exact Or.inr hq'
      · exact Or.inl (h.woken l q (Or.inr hw))
    refine ⟨?_, fun c' sub' hc' hs' hn => ?_⟩
    · rcases hold with hold | hold
      · exact hold.1
      · obtain ⟨e, he, rfl⟩ := List.mem_map.mp (mem_retired.mp hold).1
        obtain ⟨c, hc, _⟩ := h.wired.known e.1 e.2 he
        exact h.fresh e.2 c hc
    · obtain ⟨hc, hq⟩ := hback q c' sub' hc' hs' hn
      rcases hold with hold | hold
      · exact hold.2 c' sub' hc hs' hn
      · exact hq ⟨hold, h.resumable q c' sub' (mem_retired.mp hold).1 hc hs'⟩
  · rw [hchan]
    intro q c' sub' hc' hs' ha
    obtain ⟨c, hc, ⟨_, _, rfl⟩ | ⟨hq, rfl⟩⟩ := retire_cases hc'
    · obtain ⟨sub, hs, rfl⟩ := Option.map_eq_some_iff.mp hs'
      have hi := h.live q c sub hc hs ha
      refine ⟨hi.delivered, fun _ => Or.inr (by simp [EventSubscription.resync]),
        fun hn => (by cases hn), fun hn => (by cases hn), fun hn => (by cases hn), fun hcl => ?_⟩
      rw [hnew]
      exact ⟨fun hm => (hi.detached hcl).1 ((hkept.map Prod.snd).subset hm), (hi.detached hcl).2⟩
    · have hi := h.live q c' sub' hc hs' ha
      refine ⟨hi.delivered, hi.ended, hi.matching, hi.queued, fun hn hcl ho => ?_, fun hcl => ?_⟩
      · obtain ⟨hl, hmem, _⟩ := hi.attached hn hcl ho
        have hm : q ∈ w.bus.subs.map Prod.snd := List.mem_map.mpr ⟨_, hmem, rfl⟩
        have howner : c'.owner = owner := by
          rw [hloop] at hl
          exact (Option.some.inj hl).symm
        have hob : ownedBy w.bus owner q = true := by
          simp [ownedBy, (h.wired.prefixes_eq hmem hc).1, howner]
        exact absurd ⟨mem_retired.mpr ⟨hm, hob⟩, h.resumable q c' sub' hm hc hs'⟩ hq
      · rw [hnew]
        exact ⟨fun hm => (hi.detached hcl).1 ((hkept.map Prod.snd).subset hm), (hi.detached hcl).2⟩

-- A bus that changes neither registrations nor deliveries, seen by readers
-- that the change cannot reach.
theorem Inv.rebus (h : Inv w) {bus' : Bus P} (hhist : Recorded bus' w.published)
    (hpend : ∀ e ∈ bus'.pendingDispatch, e ∈ w.bus.pendingDispatch)
    (hsubs : bus'.subs = w.bus.subs) (hres : bus'.resumableSubs = w.bus.resumableSubs)
    (hown : bus'.subscriberLoops = w.bus.subscriberLoops)
    (hsafe : ∀ l, w.closedLoops l = false → w.bus.loop = some l →
      bus'.loop = some l ∧ bus'.pendingDispatch = w.bus.pendingDispatch) :
    Inv { w with bus := bus' } := by
  refine ⟨hhist, fun e he => h.pending e (hpend e he), ?_, ?_, h.handouts, h.fresh, h.idle, h.woken,
    ?_⟩
  · change Wired w.channels bus'.subs bus'.subscriberLoops
    rw [hsubs, hown]
    exact h.wired
  · change ∀ q c sub, q ∈ bus'.subs.map Prod.snd → _ → _ → q ∈ bus'.resumableSubs
    rw [hsubs, hres]
    exact h.resumable
  · intro q c sub hc hs ha
    have hi := h.live q c sub hc hs ha
    refine ⟨hi.delivered, hi.ended, hi.matching, hi.queued, fun hn hcl ho => ?_, ?_⟩
    · obtain ⟨hl, hmem, heq⟩ := hi.attached hn hcl ho
      obtain ⟨hl', hd'⟩ := hsafe c.owner ho hl
      refine ⟨hl', ?_, ?_⟩
      · change _ ∈ bus'.subs
        rw [hsubs]
        exact hmem
      · change c.yielded ++ sub.wanted (arrived c.items ++ (w.threads c.owner).inflight q ++
          bus'.pendingDispatch) = _
        rw [hd']
        exact heq
    · change _ → q ∉ bus'.subs.map Prod.snd ∧ _
      rw [hsubs]
      exact hi.detached

theorem Inv.frame {w' : World P} (h : Inv w) (hb : w'.bus = w.bus) (hc : w'.channels = w.channels)
    (hn : w'.nextQueue = w.nextQueue) (ht : w'.threads = w.threads)
    (hcl : w'.closedLoops = w.closedLoops) (hp : w'.published = w.published)
    (hw : ∀ l q, (l, Callback.wakeQueue q) ∈ w'.outbox ∨ (l, Callback.wakeQueue q) ∈ w'.ready →
      (l, Callback.wakeQueue q) ∈ w.outbox ∨ (l, Callback.wakeQueue q) ∈ w.ready) : Inv w' := by
  obtain ⟨bus, channels, nextQueue, threads, outbox, ready, closedLoops, published⟩ := w'
  subst hb hc hn ht hcl hp
  exact ⟨h.recorded, h.pending, h.wired, h.resumable, h.handouts, h.fresh, h.idle,
    fun l q hm => h.woken l q (hw l q hm), fun q c sub hc hs ha =>
      (h.live q c sub hc hs ha).frame rfl rfl rfl rfl rfl rfl⟩

theorem attachLoop_inv (h : Inv w) (loop : LoopId) : Inv (attachLoop w loop) := by
  have hr := h.recorded
  unfold attachLoop
  split
  · exact h
  · cases hold : w.bus.loop with
    | none =>
        have hattached : Inv { w with bus := { w.bus with
            loop := some loop, dispatchGeneration := w.bus.dispatchGeneration + 1 } } := by
          refine h.rebus ⟨hr.split, hr.ids, hr.next, hr.bounded⟩ (fun e he => he) rfl rfl rfl ?_
          intro l _ hl
          rw [hold] at hl
          cases hl
        dsimp only
        split
        · have hscheduled : Inv { w with bus := { w.bus with
              loop := some loop, dispatchGeneration := w.bus.dispatchGeneration + 1,
              dispatchScheduled := true } } :=
            hattached.rebus ⟨hr.split, hr.ids, hr.next, hr.bounded⟩ (fun e he => he) rfl rfl rfl
              fun l _ hl => ⟨hl, rfl⟩
          refine hscheduled.frame rfl rfl rfl rfl rfl rfl fun l q hm => hm.imp_left fun hm => ?_
          simpa using hm
        · exact hattached
    | some old =>
        -- the old owner's readers are retired and its pending events dropped,
        -- so there is nothing to schedule
        have hdropped : Recorded { dropPending w.bus with
            loop := some loop, dispatchGeneration := w.bus.dispatchGeneration + 1 } w.published :=
          ⟨hr.split, hr.ids, hr.next, hr.bounded⟩
        exact retire_inv h old .serverRestarted hdropped rfl rfl rfl rfl hold

theorem detachLoop_inv (h : Inv w) (loop : LoopId) : Inv (detachLoop w loop) := by
  have hr := h.recorded
  unfold detachLoop
  split
  · rename_i hloop
    exact retire_inv h loop .serverRestarted
      ⟨hr.split, hr.ids, hr.next, hr.bounded⟩ rfl rfl rfl rfl hloop
  · exact h

theorem runs_iff {loop : LoopId} :
    w.runs loop = true ↔ w.closedLoops loop = false ∧ w.threads loop = .idle := by
  unfold World.runs
  cases w.threads loop <;> simp

theorem closeLoop_inv (h : Inv w) {loop : LoopId} (hruns : w.runs loop = true) :
    Inv { w with closedLoops := Function.update w.closedLoops loop true } := by
  have hold : ∀ l, Function.update w.closedLoops loop true l = false → w.closedLoops l = false := by
    intro l hl
    by_cases he : l = loop
    · subst he
      simp at hl
    · rwa [Function.update_of_ne he] at hl
  refine ⟨h.recorded, h.pending, h.wired, h.resumable, h.handouts, h.fresh, fun l hl => ?_, h.woken,
    fun q c sub hc hs ha => ?_⟩
  · by_cases he : l = loop
    · exact he ▸ (runs_iff.mp hruns).2
    · change Function.update w.closedLoops loop true l = true at hl
      rw [Function.update_of_ne he] at hl
      exact h.idle l hl
  · have hi := h.live q c sub hc hs ha
    exact ⟨hi.delivered, hi.ended, hi.matching, hi.queued,
      fun hn hcl ho => hi.attached hn hcl (hold c.owner ho), hi.detached⟩

theorem post_inv (h : Inv w) (loop : LoopId) (callback : Callback)
    (hmem : (loop, callback) ∈ w.outbox) : Inv (post w loop callback) := by
  have hr := h.recorded
  unfold post
  split
  · rename_i hclosed
    cases callback with
    | wakeQueue q => exact h
    | drainDispatch generation =>
        dsimp only
        split
        · rename_i hloop
          -- only a closed loop is forgotten this way, and its readers never run again
          refine h.rebus ⟨hr.split, hr.ids, hr.next, hr.bounded⟩ (by simp [dropPending]) rfl rfl rfl ?_
          intro l hl hl'
          rw [hloop.1] at hl'
          cases hl'
          rw [hclosed] at hl
          cases hl
        · exact h
  · refine h.frame rfl rfl rfl rfl rfl rfl fun l q hm => ?_
    rcases hm with hm | hm
    · exact Or.inl hm
    · rcases List.mem_append.mp hm with hm | hm
      · exact Or.inr hm
      · rw [List.mem_singleton] at hm
        exact Or.inl (hm ▸ hmem)

end Bus

section Readers

theorem channels_ne (h : Inv w) {q : QueueId} {c : Channel P} (hc : w.channels q = some c) :
    q ≠ w.nextQueue := Nat.ne_of_lt (h.fresh q c hc)

theorem Wired.concat (h : Inv w) {entries : List (List String × QueueId)}
    {owners : Dict QueueId LoopId} (hw : Wired w.channels entries owners) (c : Channel P)
    (prefixes : List String)
    (hp : ∀ sub, c.subscription = some sub → sub.prefixes = prefixes) :
    Wired (Function.update w.channels w.nextQueue (some c)) (entries ++ [(prefixes, w.nextQueue)])
      (owners.set w.nextQueue c.owner) := by
  have hne : ∀ ps q, (ps, q) ∈ entries → q ≠ w.nextQueue := fun ps q hq => by
    obtain ⟨c', hc', _⟩ := hw.known ps q hq
    exact channels_ne h hc'
  refine ⟨?_, fun ps q hq => ?_⟩
  · rw [List.map_append]
    refine hw.nodup.append (List.nodup_singleton _) (List.disjoint_singleton.mpr fun hm => ?_)
    obtain ⟨e, he, heq⟩ := List.mem_map.mp hm
    exact hne e.1 e.2 he heq
  · rcases List.mem_append.mp hq with hq | hq
    · obtain ⟨c', hc', ho, hs⟩ := hw.known ps q hq
      refine ⟨c', ?_, ?_, hs⟩
      · rw [Function.update_of_ne (hne ps q hq)]
        exact hc'
      · rw [Dict.get?_set_ne _ _ (hne ps q hq)]
        exact ho
    · rw [List.mem_singleton] at hq
      cases hq
      exact ⟨c, by simp, by simp, hp⟩

theorem Wired.update_fresh (h : Inv w) {entries : List (List String × QueueId)}
    {owners : Dict QueueId LoopId} (hw : Wired w.channels entries owners) (c : Channel P) :
    Wired (Function.update w.channels w.nextQueue (some c)) entries owners := by
  refine hw.mono fun q c' hc' => ⟨c', ?_, rfl, fun sub hs => ⟨sub, hs, rfl⟩⟩
  rw [Function.update_of_ne (channels_ne h hc')]
  exact hc'

theorem register_inv (h : Inv w) (c : Channel P) (prefixes : List String) (resumables : List QueueId)
    (hp : ∀ sub, c.subscription = some sub → sub.prefixes = prefixes)
    (hres : ∀ q ∈ w.bus.resumableSubs, q ∈ resumables)
    (hnew : c.subscription.isSome = true → w.nextQueue ∈ resumables)
    (hlive : ∀ sub, c.subscription = some sub → c.attachedAtStart = true →
      LiveInv { w with bus := { w.bus with
        subs := w.bus.subs ++ [(prefixes, w.nextQueue)] } } w.nextQueue c sub) :
    Inv { w with
      bus := { w.bus with
        subs := w.bus.subs ++ [(prefixes, w.nextQueue)]
        resumableSubs := resumables
        subscriberLoops := w.bus.subscriberLoops.set w.nextQueue c.owner }
      channels := Function.update w.channels w.nextQueue (some c)
      nextQueue := w.nextQueue + 1 } := by
  have hr := h.recorded
  have hcases : ∀ q c', Function.update w.channels w.nextQueue (some c) q = some c' →
      (q = w.nextQueue ∧ c' = c) ∨ (q ≠ w.nextQueue ∧ w.channels q = some c') := by
    intro q c' hc'
    by_cases hq : q = w.nextQueue
    · subst hq
      simp only [Function.update_self, Option.some.injEq] at hc'
      exact Or.inl ⟨rfl, hc'.symm⟩
    · rw [Function.update_of_ne hq] at hc'
      exact Or.inr ⟨hq, hc'⟩
  have hmem : ∀ q, q ≠ w.nextQueue →
      (q ∈ (w.bus.subs ++ [(prefixes, w.nextQueue)]).map Prod.snd ↔ q ∈ w.bus.subs.map Prod.snd) := by
    intro q hq
    simp [hq]
  refine ⟨⟨hr.split, hr.ids, hr.next, hr.bounded⟩, h.pending, Wired.concat h h.wired c prefixes hp,
    ?_, fun l g m b hd ht => Wired.update_fresh h (h.handouts l g m b hd ht) c, ?_, h.idle, ?_, ?_⟩
  · intro q c' sub hq hc' hs
    rcases hcases q c' hc' with ⟨rfl, rfl⟩ | ⟨hne, hc'⟩
    · exact hnew (by simp [hs])
    · exact hres q (h.resumable q c' sub ((hmem q hne).mp hq) hc' hs)
  · intro q c' hc'
    rcases hcases q c' hc' with ⟨rfl, rfl⟩ | ⟨_, hc'⟩
    · exact Nat.lt_succ_self _
    · exact Nat.lt_succ_of_lt (h.fresh q c' hc')
  · intro l q hw
    obtain ⟨hlt, hold⟩ := h.woken l q hw
    refine ⟨Nat.lt_succ_of_lt hlt, fun c' sub hc' hs => ?_⟩
    rcases hcases q c' hc' with ⟨rfl, _⟩ | ⟨_, hc'⟩
    · exact absurd hlt (Nat.lt_irrefl _)
    · exact hold c' sub hc' hs
  · intro q c' sub hc' hs ha
    rcases hcases q c' hc' with ⟨rfl, rfl⟩ | ⟨hne, hc'⟩
    · exact (hlive sub hs ha).frame rfl rfl rfl rfl rfl rfl
    · have hi := h.live q c' sub hc' hs ha
      refine ⟨hi.delivered, hi.ended, hi.matching, hi.queued, fun hn hcl ho => ?_, fun hcl => ?_⟩
      · obtain ⟨hl, hm, heq⟩ := hi.attached hn hcl ho
        exact ⟨hl, List.mem_append_left _ hm, heq⟩
      · exact ⟨fun hm => (hi.detached hcl).1 ((hmem q hne).mp hm), (hi.detached hcl).2⟩

theorem subscribeLegacy_inv (h : Inv w) (loop : LoopId) (filter : PrefixFilter) :
    Inv (subscribeLegacy w loop filter) :=
  register_inv h { owner := loop } (normalizePrefixes filter) w.bus.resumableSubs
    (fun _ hs => by cases hs) (fun _ hq => hq) (fun hs => by cases hs) (fun _ hs => by cases hs)

-- At registration everything published so far is at or below the boundary,
-- the events still pending included.
theorem subscribeResumable_inv (h : Inv w) {loop : LoopId} (filter : PrefixFilter)
    (afterEventId : Option Int) (epoch : Option String) (replay : Int)
    (hruns : w.runs loop = true) :
    Inv (subscribeResumable w loop filter afterEventId epoch replay) := by
  refine register_inv h
    { owner := loop
      subscription := some (subscribeAfter w.bus filter afterEventId epoch replay w.nextQueue loop).1
      attachedAtStart := decide (w.bus.loop = some loop) }
    (normalizePrefixes filter) (w.bus.resumableSubs ++ [w.nextQueue])
    (fun sub hs => by cases hs; rfl) (fun q hq => List.mem_append_left _ hq) (fun _ => by simp)
    fun sub hs ha => ?_
  have hsub : sub = (subscribeAfter w.bus filter afterEventId epoch replay w.nextQueue loop).1 :=
    (Option.some.inj hs).symm
  have hb : sub.boundaryId = w.bus.nextEventId - 1 := by rw [hsub]; rfl
  have hpub : sub.wanted w.published = [] :=
    wanted_eq_nil sub fun e he => hb ▸ h.recorded.le_boundary he
  refine ⟨List.nil_prefix, fun hpc => (by cases hpc), fun _ i hi => (by cases hi), fun _ => ?_,
    fun _ _ _ => ⟨of_decide_eq_true ha, ?_, ?_⟩, fun hcl => ?_⟩
  · exact List.nil_prefix
  · exact List.mem_append_right _ (List.mem_singleton.mpr (by rw [hsub]; rfl))
  · change [] ++ sub.wanted ([] ++ (w.threads loop).inflight w.nextQueue ++ w.bus.pendingDispatch) =
      sub.wanted w.published
    rw [(runs_iff.mp hruns).2, hpub]
    exact wanted_eq_nil sub fun e he =>
      hb ▸ h.recorded.le_boundary (h.pending e (by simpa [Thread.inflight] using he))
  · rw [hsub] at hcl
    cases hcl

theorem wakeQueue_inv (h : Inv w) {q : QueueId}
    (hw : ∀ c sub, w.channels q = some c → c.subscription = some sub → sub.liveResyncReason ≠ none) :
    Inv (wakeQueue w q) := by
  refine h.modify (fun c _ => ⟨rfl, rfl, fun sub hs => ⟨sub, hs, rfl, id⟩⟩) fun c sub hc hs ha => ?_
  have hreason := hw c sub hc hs
  have hi := h.live q c sub hc hs ha
  exact ⟨hi.delivered, hi.ended, fun hn => absurd hn hreason, fun hn => absurd hn hreason,
    fun hn => absurd hn hreason, hi.detached⟩

theorem resume_inv (h : Inv w) {q : QueueId} {c c' : Channel P} (hc : w.channels q = some c)
    (hstep : c.resume = some c') : Inv (w.modify q fun _ => c') := by
  unfold Channel.resume at hstep
  cases hs : c.subscription with
  | none => simp [hs] at hstep
  | some sub =>
      simp only [hs] at hstep
      split at hstep
      · have hpc : c' = { c with pc := c'.pc } ∧
            (c'.pc = .done → sub.closed = true ∨ sub.liveResyncReason ≠ none) := by
          split at hstep
          · rename_i hend
            cases hstep
            simp only [Bool.or_eq_true, Option.isSome_iff_ne_none] at hend
            exact ⟨by rw [hs], fun _ => hend⟩
          · cases hstep
            exact ⟨by rw [hs], fun hd => by cases hd⟩
        obtain ⟨heq, hdone⟩ := hpc
        rw [heq]
        refine h.modify (fun c₀ hc₀ => ?_) fun c₀ sub₀ hc₀ hs₀ ha => ?_
        · cases hc.symm.trans hc₀
          exact ⟨rfl, rfl, fun sub hs => ⟨sub, hs, rfl, id⟩⟩
        · cases hc.symm.trans hc₀
          cases hs.symm.trans hs₀
          have hi := h.live q c sub hc hs ha
          exact ⟨hi.delivered, hdone, hi.matching, hi.queued, hi.attached, hi.detached⟩
      · cases hstep

theorem receive_live {q : QueueId} {c c' : Channel P} {sub : EventSubscription P}
    (hi : LiveInv w q c sub) (hstep : c.receive sub = some c') : LiveInv w q c' sub := by
  unfold Channel.receive at hstep
  split at hstep
  · rename_i item rest hpc hitems
    have hq := hi.queued
    have hm := hi.matching
    have hat := hi.attached
    rw [hitems] at hq hm hat
    split at hstep
    · cases hstep
      have hreason : sub.liveResyncReason ≠ none := fun hn => by
        obtain ⟨e, he, _⟩ := hm hn none (by simp)
        cases he
      exact ⟨hi.delivered, fun _ => Or.inr hreason, fun hn => absurd hn hreason,
        fun hn => absurd hn hreason, fun hn => absurd hn hreason, hi.detached⟩
    · rename_i evt
      split at hstep
      · rename_i hsome
        cases hstep
        have hreason : sub.liveResyncReason ≠ none := Option.isSome_iff_ne_none.mp hsome
        exact ⟨hi.delivered, fun _ => Or.inr hreason, fun hn => absurd hn hreason,
          fun hn => absurd hn hreason, fun hn => absurd hn hreason, hi.detached⟩
      · rename_i hnone
        have hn : sub.liveResyncReason = none := by simpa using hnone
        obtain ⟨evt', he, htopic⟩ := hm hn (some evt) (by simp)
        cases he
        have hrest : ∀ i ∈ rest, ∃ e, i = some e ∧ matchesTopic e.topic sub.prefixes = true :=
          fun i hmem => hm hn i (List.mem_cons_of_mem _ hmem)
        split at hstep
        · rename_i hold
          -- already replayed: the read skips it and no wanted event is lost
          cases hstep
          have hskip : ∀ es : List (Event P), sub.wanted (evt :: es) = sub.wanted es := by
            intro es
            simp [EventSubscription.wanted, Nat.not_lt.mpr hold]
          refine ⟨hi.delivered, fun hd => (by cases hd), fun _ => hrest, fun _ => ?_,
            fun _ hcl ho => ?_, hi.detached⟩
          · simpa [hskip] using hq hn
          · simpa [hskip] using hat hn hcl ho
        · rename_i hnew
          cases hstep
          have htake : ∀ es : List (Event P), sub.wanted (evt :: es) = evt :: sub.wanted es := by
            intro es
            simp [EventSubscription.wanted, htopic, Nat.not_le.mp hnew]
          have hq' : c.yielded ++ [evt] ++ sub.wanted (arrived rest) <+: sub.wanted w.published := by
            simpa [htake] using hq hn
          refine ⟨(List.prefix_append _ _).trans hq', fun hd => (by cases hd), fun _ => hrest,
            fun _ => hq', fun _ hcl ho => ?_, hi.detached⟩
          simpa [htake] using hat hn hcl ho
  · cases hstep

theorem receive_keeps {c c' : Channel P} {sub : EventSubscription P}
    (hstep : c.receive sub = some c') : c.Keeps c' ∧ c'.subscription = c.subscription := by
  unfold Channel.receive at hstep
  split at hstep
  · repeat' split at hstep
    all_goals
      cases hstep
      exact ⟨⟨rfl, rfl, fun sub hs => ⟨sub, hs, rfl, id⟩⟩, rfl⟩
  · cases hstep

theorem mem_unregister {bus : Bus P} {q : QueueId} {e : List String × QueueId} :
    e ∈ (unregister bus q).subs ↔ e ∈ bus.subs ∧ e.2 ≠ q := by
  simp [unregister]

theorem unregister_wired {q : QueueId} {channels : QueueId → Option (Channel P)} {bus : Bus P}
    (h : Wired channels bus.subs bus.subscriberLoops) :
    Wired channels (unregister bus q).subs (unregister bus q).subscriberLoops := by
  refine h.sublist List.filter_sublist fun q' hq' => ?_
  obtain ⟨e, he, rfl⟩ := List.mem_map.mp hq'
  exact Dict.get?_erase_ne _ (mem_unregister.mp he).2

theorem unregister_inv (h : Inv w) {q : QueueId} {f : Channel P → Channel P}
    (hf : ∀ c, w.channels q = some c → c.Keeps (f c))
    (hlive : ∀ c sub, w.channels q = some c → (f c).subscription = some sub →
      c.attachedAtStart = true → LiveInv { w with bus := unregister w.bus q } q (f c) sub) :
    Inv { w.modify q f with bus := unregister w.bus q } := by
  have hr := h.recorded
  have hparts := h.modify_parts hf
  refine ⟨⟨hr.split, hr.ids, hr.next, hr.bounded⟩, h.pending, unregister_wired hparts.wired,
    ?_, fun l g m b hd ht => (h.handouts l g m b hd ht).modify hf, hparts.fresh, h.idle,
    hparts.woken, ?_⟩
  · intro q' c' sub' hq' hc' hs'
    obtain ⟨e, he, rfl⟩ := List.mem_map.mp hq'
    obtain ⟨hmem, hne⟩ := mem_unregister.mp he
    have hres := hparts.resumable e.2 c' sub' (List.mem_map.mpr ⟨e, hmem, rfl⟩) hc' hs'
    exact List.mem_filter.mpr ⟨hres, by simpa using hne⟩
  · intro q' c' sub' hc' hs' ha
    rcases modify_cases hc' with ⟨rfl, c, hc, rfl⟩ | ⟨hne, hc⟩
    · exact (hlive c sub' hc hs' ((hf c hc).start ▸ ha)).frame rfl rfl rfl rfl rfl rfl
    · have hi := h.live q' c' sub' hc hs' ha
      refine ⟨hi.delivered, hi.ended, hi.matching, hi.queued, fun hn hcl ho => ?_, fun hcl => ?_⟩
      · obtain ⟨hl, hm, heq⟩ := hi.attached hn hcl ho
        exact ⟨hl, mem_unregister.mpr ⟨hm, hne⟩, heq⟩
      · refine ⟨fun hm => (hi.detached hcl).1 ?_, (hi.detached hcl).2⟩
        obtain ⟨e, he, rfl⟩ := List.mem_map.mp hm
        exact List.mem_map.mpr ⟨e, (mem_unregister.mp he).1, rfl⟩

theorem receiveAction_inv (h : Inv w) {q : QueueId} {c : Channel P} {w' : World P}
    (hc : w.channels q = some c) (hstep : receiveAction w q c = some w') : Inv w' := by
  unfold receiveAction at hstep
  split at hstep
  · rename_i sub hs
    obtain ⟨c', hc', rfl⟩ := Option.map_eq_some_iff.mp hstep
    obtain ⟨hkeep, hsub⟩ := receive_keeps hc'
    refine h.modify (fun c₀ hc₀ => ?_) fun c₀ sub₀ hc₀ hs₀ ha => ?_
    · cases hc.symm.trans hc₀
      exact hkeep
    · cases hc.symm.trans hc₀
      cases (hsub.trans hs).symm.trans hs₀
      exact receive_live (h.live q c sub hc hs ha) hc'
  · rename_i hs
    -- a legacy reader has no subscription, so nothing is claimed about it
    have hnosub : ∀ c₀ sub, w.channels q = some c₀ → c₀.subscription ≠ some sub := by
      intro c₀ sub hc₀ hs₀
      cases hc.symm.trans hc₀
      cases hs.symm.trans hs₀
    have hkeep : ∀ (rest : List (Option (Event P))) (c₀ : Channel P), w.channels q = some c₀ →
        c₀.Keeps { c₀ with items := rest } := fun rest c₀ _ =>
      ⟨rfl, rfl, fun sub hs => ⟨sub, hs, rfl, id⟩⟩
    split at hstep
    · cases hstep
    · cases hstep
      exact h.modify (hkeep _) fun c₀ sub hc₀ hs₀ _ => absurd hs₀ (hnosub c₀ sub hc₀)
    · cases hstep
      exact unregister_inv h (hkeep _) fun c₀ sub hc₀ hs₀ _ => absurd hs₀ (hnosub c₀ sub hc₀)

theorem closeAction_inv (h : Inv w) {q : QueueId} {c : Channel P} (hc : w.channels q = some c)
    (hruns : w.runs c.owner = true) : Inv (closeAction w q c) := by
  unfold closeAction
  split
  · rename_i sub hs
    split
    · exact h
    · refine unregister_inv h (fun c₀ hc₀ => ?_) fun c₀ sub₀ hc₀ hs₀ ha => ?_
      · cases hc.symm.trans hc₀
        refine ⟨rfl, rfl, fun sub' hs' => ⟨sub, hs, ?_⟩⟩
        cases hs'
        exact ⟨rfl, id⟩
      · cases hc.symm.trans hc₀
        cases hs₀
        have hi := h.live q c sub hc hs ha
        refine ⟨hi.delivered, fun _ => Or.inl rfl, hi.matching, hi.queued, fun _ hcl => (by cases hcl),
          fun _ => ⟨fun hm => ?_, ?_⟩⟩
        · obtain ⟨e, he, heq⟩ := List.mem_map.mp hm
          exact (mem_unregister.mp he).2 heq
        · -- the owner runs the coroutine, so it is not inside a batch
          change q ∉ (w.threads c.owner).entries.map Prod.snd
          rw [(runs_iff.mp hruns).2]
          simp [Thread.entries]
  · rename_i hs
    have hnoop : w = w.modify q id := by
      simp [World.modify]
    have hinv := unregister_inv (f := id) h (fun c₀ _ => Channel.Keeps.refl c₀)
      fun c₀ sub₀ hc₀ hs₀ _ => by
        cases hc.symm.trans hc₀
        cases hs.symm.trans hs₀
    rwa [← hnoop] at hinv

end Readers

section Dispatch

theorem drainDispatch_inv (h : Inv w) {loop : LoopId} {generation : Nat}
    (hruns : w.runs loop = true) : Inv (drainDispatch w loop generation) := by
  have hr := h.recorded
  unfold drainDispatch
  split
  · rename_i hcur
    obtain ⟨hopen, hidle⟩ := runs_iff.mp hruns
    refine ⟨⟨hr.split, hr.ids, hr.next, hr.bounded⟩, fun e he => h.pending e (List.mem_of_mem_drop he),
      h.wired, h.resumable, fun l g m b hd ht => ?_, h.fresh, fun l hl => ?_, h.woken,
      fun q c sub hc hs ha => ?_⟩
    · by_cases he : l = loop
      · subst he
        simp at ht
      · exact h.handouts l g m b hd (by simpa [Function.update_of_ne he] using ht)
    · by_cases he : l = loop
      · subst he
        rw [hopen] at hl
        cases hl
      · simpa [Function.update_of_ne he] using h.idle l hl
    · have hi := h.live q c sub hc hs ha
      refine ⟨hi.delivered, hi.ended, hi.matching, hi.queued, fun hn hcl ho => ?_, fun hcl => ?_⟩
      · obtain ⟨hl, hm, heq⟩ := hi.attached hn hcl ho
        have howner : c.owner = loop := Option.some.inj (hl.symm.trans hcur.1)
        refine ⟨hl, hm, ?_⟩
        simpa [howner, hidle, Thread.inflight] using heq
      · refine ⟨(hi.detached hcl).1, ?_⟩
        by_cases he : c.owner = loop
        · simp [he, Thread.entries]
        · simpa [Function.update_of_ne he] using (hi.detached hcl).2
  · exact h

theorem rethread_inv (h : Inv w) {loop : LoopId} {t : Thread P} (hopen : w.closedLoops loop = false)
    (hwired : ∀ g m b hd, t = .dispatching g m b (some hd) → Wired w.channels hd.entries hd.owners)
    (hinflight : ∀ q ∈ w.bus.subs.map Prod.snd, t.inflight q = (w.threads loop).inflight q)
    (hentries : ∀ q ∈ t.entries.map Prod.snd,
      q ∈ w.bus.subs.map Prod.snd ∨ q ∈ (w.threads loop).entries.map Prod.snd) :
    Inv { w with threads := Function.update w.threads loop t } := by
  refine ⟨h.recorded, h.pending, h.wired, h.resumable, fun l g m b hd ht => ?_, h.fresh,
    fun l hl => ?_, h.woken, fun q c sub hc hs ha => ?_⟩
  · by_cases he : l = loop
    · subst he
      exact hwired g m b hd (by simpa using ht)
    · exact h.handouts l g m b hd (by simpa [Function.update_of_ne he] using ht)
  · by_cases he : l = loop
    · subst he
      rw [hopen] at hl
      cases hl
    · simpa [Function.update_of_ne he] using h.idle l hl
  · have hi := h.live q c sub hc hs ha
    by_cases he : c.owner = loop
    · refine ⟨hi.delivered, hi.ended, hi.matching, hi.queued, fun hn hcl ho => ?_, fun hcl => ?_⟩
      · obtain ⟨hl, hm, heq⟩ := hi.attached hn hcl ho
        have hin := hinflight q (List.mem_map.mpr ⟨_, hm, rfl⟩)
        exact ⟨hl, hm, by simpa [he, hin] using heq⟩
      · have hd := hi.detached hcl
        refine ⟨hd.1, ?_⟩
        change q ∉ (Function.update w.threads loop t c.owner).entries.map Prod.snd
        rw [he, Function.update_self]
        intro hm
        rcases hentries q hm with hm | hm
        · exact hd.1 hm
        · exact hd.2 (he ▸ hm)
    · exact hi.frame rfl rfl rfl rfl (by simp [Function.update_of_ne he]) rfl

theorem offer_keeps (queueSize : Int) (resumable : Bool) (evt : Event P) (c : Channel P) :
    c.Keeps (c.offer queueSize resumable evt) := by
  unfold Channel.offer
  split
  · exact ⟨rfl, rfl, fun sub hs => ⟨sub, hs, rfl, id⟩⟩
  · split
    · have hk := c.keeps_resync .subscriberOverflow
      exact ⟨hk.owner, hk.start, hk.prefixes⟩
    · split <;> exact ⟨rfl, rfl, fun sub hs => ⟨sub, hs, rfl, id⟩⟩

theorem deliver_eq_modify (loop : LoopId) (evt : Event P) (owner : Option LoopId)
    (prefixes : List String) (q : QueueId) :
    ∃ f : Channel P → Channel P, deliver w loop evt owner prefixes q = w.modify q f ∧
      (f = id ∧ (owner.any (fun o => decide (o ≠ loop)) = true ∨
          matchesTopic evt.topic prefixes = false) ∨
        f = Channel.offer w.bus.queueSize (decide (q ∈ w.bus.resumableSubs)) evt ∧
          owner.any (fun o => decide (o ≠ loop)) = false ∧
          matchesTopic evt.topic prefixes = true) := by
  have hid : w = w.modify q id := by simp [World.modify]
  unfold deliver
  split
  · exact ⟨id, hid, Or.inl ⟨rfl, Or.inl ‹_›⟩⟩
  · split
    · rename_i hm
      exact ⟨id, hid, Or.inl ⟨rfl, Or.inr (by simpa using hm)⟩⟩
    · rename_i ho hm
      exact ⟨_, rfl, Or.inr ⟨rfl, by simpa using ho, by simpa using hm⟩⟩

theorem dispatching_open (h : Inv w) {loop : LoopId} {generation : Nat} {hasMore : Bool}
    {batch : List (Event P)} {current : Option (Handout P)}
    (ht : w.threads loop = .dispatching generation hasMore batch current) :
    w.closedLoops loop = false := by
  cases hcl : w.closedLoops loop with
  | false => rfl
  | true =>
      rw [h.idle loop hcl] at ht
      cases ht

section Turn

variable {loop : LoopId} {generation : Nat} {hasMore : Bool} {batch : List (Event P)} {evt : Event P}
  {entries : List (List String × QueueId)} {owners : Dict QueueId LoopId} {prefixes : List String}
  {q : QueueId}

def afterTurn (w : World P) (loop : LoopId) (generation : Nat) (hasMore : Bool)
    (batch : List (Event P)) (evt : Event P) (entries : List (List String × QueueId))
    (owners : Dict QueueId LoopId) : World P :=
  { w with
    threads := Function.update w.threads loop
      (.dispatching generation hasMore batch (some ⟨evt, entries, owners⟩)) }

theorem threads_afterTurn_ne {l : LoopId} (h : l ≠ loop) :
    (afterTurn w loop generation hasMore batch evt entries owners).threads l = w.threads l :=
  Function.update_of_ne h _ _

theorem threads_afterTurn_self :
    (afterTurn w loop generation hasMore batch evt entries owners).threads loop =
      .dispatching generation hasMore batch (some ⟨evt, entries, owners⟩) :=
  Function.update_self ..

@[simp] theorem afterTurn_bus :
    (afterTurn w loop generation hasMore batch evt entries owners).bus = w.bus := rfl

@[simp] theorem afterTurn_published :
    (afterTurn w loop generation hasMore batch evt entries owners).published = w.published := rfl

theorem inflight_turn_ne {q' : QueueId} (h : q' ≠ q) :
    (Thread.dispatching generation hasMore batch
      (some ⟨evt, (prefixes, q) :: entries, owners⟩)).inflight q' =
    (Thread.dispatching generation hasMore batch (some ⟨evt, entries, owners⟩)).inflight q' := by
  simp only [Thread.inflight, List.map_cons, List.mem_cons, h, false_or]

theorem turn_cases (h : Inv w)
    (ht : w.threads loop =
      .dispatching generation hasMore batch (some ⟨evt, (prefixes, q) :: entries, owners⟩))
    {c : Channel P} {sub : EventSubscription P} (hc : w.channels q = some c)
    (hs : c.subscription = some sub) (hi : LiveInv w q c sub) (howner : c.owner = loop) :
    sub.closed = false ∧ q ∉ entries.map Prod.snd ∧
    (sub.liveResyncReason = none → q ∈ w.bus.resumableSubs ∧ w.bus.loop = some c.owner ∧
      (sub.prefixes, q) ∈ w.bus.subs ∧
      c.yielded ++ sub.wanted (arrived c.items ++ [evt] ++ batch ++ w.bus.pendingDispatch) =
        sub.wanted w.published) := by
  have hopen := dispatching_open h ht
  have hcl : sub.closed = false := by
    cases hcl : sub.closed with
    | false => rfl
    | true =>
        have hd := (hi.detached hcl).2
        rw [howner, ht] at hd
        exact absurd (by simp [Thread.entries]) hd
  refine ⟨hcl, (List.nodup_cons.mp (h.handouts _ _ _ _ _ ht).nodup).1, fun hn => ?_⟩
  obtain ⟨hl, hm, heq⟩ := hi.attached hn hcl (howner ▸ hopen)
  refine ⟨h.resumable q c sub (List.mem_map.mpr ⟨_, hm, rfl⟩) hc hs, hl, hm, ?_⟩
  rw [howner, ht] at heq
  simpa [Thread.inflight] using heq

theorem skip_live (h : Inv w)
    (ht : w.threads loop =
      .dispatching generation hasMore batch (some ⟨evt, (prefixes, q) :: entries, owners⟩))
    {c : Channel P} {sub : EventSubscription P} (hc : w.channels q = some c)
    (hs : c.subscription = some sub) (hi : LiveInv w q c sub)
    (hskip : c.owner ≠ loop ∨ matchesTopic evt.topic sub.prefixes = false) :
    LiveInv (afterTurn w loop generation hasMore batch evt entries owners) q c sub := by
  by_cases howner : c.owner = loop
  · have hmiss := wanted_cons_of_not_matches sub (hskip.resolve_left (not_not_intro howner))
    obtain ⟨hcl, hgone, hmove⟩ := turn_cases h ht hc hs hi howner
    refine ⟨hi.delivered, hi.ended, hi.matching, hi.queued, fun hn _ _ => ?_, fun hcl' => ?_⟩
    · obtain ⟨_, hl, hm, heq⟩ := hmove hn
      refine ⟨hl, hm, ?_⟩
      rw [howner, threads_afterTurn_self]
      simpa [Thread.inflight, hgone, wanted_append, hmiss] using heq
    · rw [hcl] at hcl'
      cases hcl'
  · exact hi.frame rfl rfl rfl rfl (threads_afterTurn_ne howner) rfl

-- A turn that hands over the event: it moves from flight into the queue, or
-- the queue overflows and the reader is told to resynchronize.
theorem offer_live (h : Inv w)
    (ht : w.threads loop =
      .dispatching generation hasMore batch (some ⟨evt, (prefixes, q) :: entries, owners⟩))
    {c : Channel P} {sub sub' : EventSubscription P} (hc : w.channels q = some c)
    (hs : c.subscription = some sub) (hi : LiveInv w q c sub) (howner : c.owner = loop)
    (htopic : matchesTopic evt.topic sub.prefixes = true)
    (hs' : (c.offer w.bus.queueSize (decide (q ∈ w.bus.resumableSubs)) evt).subscription = some sub') :
    LiveInv (afterTurn w loop generation hasMore batch evt entries owners) q
      (c.offer w.bus.queueSize (decide (q ∈ w.bus.resumableSubs)) evt) sub' := by
  obtain ⟨hcl, hgone, hmove⟩ := turn_cases h ht hc hs hi howner
  unfold Channel.offer at hs' ⊢
  split
  · rename_i hfits
    rw [if_pos hfits] at hs'
    cases hs.symm.trans hs'
    refine ⟨hi.delivered, hi.ended, fun hn i hm => ?_, fun hn => ?_, fun hn _ _ => ?_, fun hcl' => ?_⟩
    · rcases List.mem_append.mp hm with hm | hm
      · exact hi.matching hn i hm
      · exact ⟨evt, List.mem_singleton.mp hm, htopic⟩
    · obtain ⟨_, _, _, heq⟩ := hmove hn
      rw [List.append_assoc (_ ++ [evt]), wanted_append, ← List.append_assoc] at heq
      exact ⟨_, by simpa using heq⟩
    · obtain ⟨_, hl, hm, heq⟩ := hmove hn
      refine ⟨hl, hm, ?_⟩
      change c.yielded ++ sub.wanted (_ ++ Thread.inflight q ((afterTurn w loop generation hasMore
        batch evt entries owners).threads c.owner) ++ _) = _
      rw [howner, threads_afterTurn_self]
      simpa [Thread.inflight, hgone] using heq
    · rw [hcl] at hcl'
      cases hcl'
  · rename_i hfull
    rw [if_neg hfull] at hs'
    by_cases hres : q ∈ w.bus.resumableSubs
    · simp only [hres, decide_true, if_true] at hs' ⊢
      obtain ⟨sub₀, hs₀, rfl⟩ := Option.map_eq_some_iff.mp hs'
      cases hs.symm.trans hs₀
      refine ⟨hi.delivered, fun _ => Or.inr (by simp [EventSubscription.resync]),
        fun hn => (by cases hn), fun hn => (by cases hn), fun hn => (by cases hn), fun hcl' => ?_⟩
      change sub.closed = true at hcl'
      rw [hcl] at hcl'
      cases hcl'
    · -- a reader nobody told to resynchronize is registered as resumable
      have hreason : sub.liveResyncReason ≠ none := fun hn => hres (hmove hn).1
      have hsub : sub' = sub := by
        simp only [hres, decide_false, Bool.false_eq_true, if_false] at hs'
        split at hs' <;> exact Option.some.inj (hs'.symm.trans hs)
      subst hsub
      simp only [hres, decide_false, Bool.false_eq_true, if_false]
      split <;>
        exact ⟨hi.delivered, hi.ended, fun hn => absurd hn hreason, fun hn => absurd hn hreason,
          fun hn => absurd hn hreason, fun hcl' => absurd (hcl.symm.trans hcl') (by simp)⟩

theorem other_live
    (ht : w.threads loop =
      .dispatching generation hasMore batch (some ⟨evt, (prefixes, q) :: entries, owners⟩))
    {q' : QueueId} {c : Channel P} {sub : EventSubscription P} (hne : q' ≠ q)
    (hi : LiveInv w q' c sub) :
    LiveInv (afterTurn w loop generation hasMore batch evt entries owners) q' c sub := by
  by_cases howner : c.owner = loop
  · refine ⟨hi.delivered, hi.ended, hi.matching, hi.queued, fun hn hcl ho => ?_, fun hcl => ?_⟩
    · obtain ⟨hl, hm, heq⟩ := hi.attached hn hcl ho
      refine ⟨hl, hm, ?_⟩
      rw [howner, ht, inflight_turn_ne hne] at heq
      rw [howner, threads_afterTurn_self]
      exact heq
    · obtain ⟨hsubs, hent⟩ := hi.detached hcl
      refine ⟨hsubs, ?_⟩
      rw [howner, ht] at hent
      rw [howner, threads_afterTurn_self]
      simp only [Thread.entries, List.map_cons, List.mem_cons, not_or] at hent
      exact hent.2
  · exact hi.frame rfl rfl rfl rfl (threads_afterTurn_ne howner) rfl

theorem turn_inv (h : Inv w)
    (ht : w.threads loop =
      .dispatching generation hasMore batch (some ⟨evt, (prefixes, q) :: entries, owners⟩)) :
    Inv (afterTurn (deliver w loop evt (owners.get? q) prefixes q) loop generation hasMore batch evt
      entries owners) := by
  have hwired := h.handouts _ _ _ _ _ ht
  obtain ⟨f, hf, hcase⟩ := deliver_eq_modify (w := w) loop evt (owners.get? q) prefixes q
  have hkeep : ∀ c, w.channels q = some c → c.Keeps (f c) := by
    intro c _
    rcases hcase with ⟨rfl, _⟩ | ⟨rfl, _⟩
    · exact Channel.Keeps.refl c
    · exact offer_keeps _ _ _ c
  -- the invariant of the other parts is that of the edited readers
  have hparts := h.modify_parts hkeep
  rw [hf]
  refine ⟨h.recorded, h.pending, hparts.wired, hparts.resumable, fun l g m b hd hl => ?_,
    hparts.fresh, fun l hl => ?_, hparts.woken, fun q' c' sub' hc' hs' ha => ?_⟩
  · by_cases he : l = loop
    · subst he
      rw [threads_afterTurn_self] at hl
      cases hl
      exact (hwired.sublist (List.sublist_cons_self _ _) fun _ _ => rfl).modify hkeep
    · rw [threads_afterTurn_ne he] at hl
      exact (h.handouts l g m b hd hl).modify hkeep
  · have hne : l ≠ loop := by
      rintro rfl
      have hopen := dispatching_open h ht
      change w.closedLoops l = true at hl
      rw [hopen] at hl
      cases hl
    rw [threads_afterTurn_ne hne]
    exact h.idle l hl
  · rcases modify_cases hc' with ⟨rfl, c, hc, rfl⟩ | ⟨hne, hc⟩
    · obtain ⟨sub, hs, _⟩ := (hkeep c hc).prefixes sub' hs'
      have hi := h.live _ c sub hc hs ((hkeep c hc).start ▸ ha)
      obtain ⟨howner, hsame⟩ := hwired.prefixes_eq (List.mem_cons_self ..) hc
      rcases hcase with ⟨rfl, hskip⟩ | ⟨rfl, hmine, htopic⟩
      · refine (skip_live h ht hc hs' (h.live _ c sub' hc hs' ha) ?_).frame rfl rfl rfl rfl rfl rfl
        rw [hsame sub' hs']
        exact hskip.imp_left fun hany => by simpa [howner] using hany
      · have hown : c.owner = loop := by simpa [howner] using hmine
        exact (offer_live h ht hc hs hi hown ((hsame sub hs).symm ▸ htopic) hs').frame
          rfl rfl rfl rfl rfl rfl
    · exact (other_live ht hne (h.live q' c' sub' hc hs' ha)).frame rfl rfl rfl rfl rfl rfl

end Turn

theorem dispatch_inv (h : Inv w) {loop : LoopId} {w' : World P}
    (hstep : dispatch w loop = some w') : Inv w' := by
  unfold dispatch at hstep
  split at hstep
  · cases hstep
  · rename_i generation hasMore batch evt prefixes q entries owners ht
    cases hstep
    have hinv := turn_inv h ht
    obtain ⟨f, hf, _⟩ := deliver_eq_modify (w := w) loop evt (owners.get? q) prefixes q
    rw [hf] at hinv ⊢
    exact hinv
  · rename_i generation hasMore batch evt owners ht
    cases hstep
    refine rethread_inv h (dispatching_open h ht) (fun g m b hd he => by cases he) (fun q _ => ?_)
      fun q hm => (by simp [Thread.entries] at hm)
    simp [ht, Thread.inflight]
  · rename_i generation hasMore evt batch ht
    cases hstep
    refine rethread_inv h (dispatching_open h ht) (fun g m b hd he => ?_) (fun q hq => ?_)
      fun q hm => Or.inl hm
    · cases he
      exact h.wired
    · simp only [ht, Thread.inflight, if_pos hq, List.singleton_append]
  · rename_i generation hasMore ht
    cases hstep
    have hidle : Inv { w with threads := Function.update w.threads loop .idle } :=
      rethread_inv h (dispatching_open h ht) (fun g m b hd he => by cases he)
        (fun q _ => by simp [ht, Thread.inflight]) fun q hm => (by simp [Thread.entries] at hm)
    refine hidle.frame rfl rfl rfl rfl rfl rfl fun l q hm => hm.imp_right fun hm => ?_
    cases hasMore with
    | false => simpa using hm
    | true => simpa using hm

end Dispatch

theorem post_outbox (outbox : List (LoopId × Callback)) (loop : LoopId) (callback : Callback) :
    post { w with outbox } loop callback = { post w loop callback with outbox } := by
  unfold post
  cases hcl : w.closedLoops loop with
  | false => rfl
  | true =>
      cases callback with
      | wakeQueue q => rfl
      | drainDispatch generation =>
          simp only [if_true]
          split <;> rfl

theorem outbox_post (loop : LoopId) (callback : Callback) :
    (post w loop callback).outbox = w.outbox := by
  unfold post
  cases hcl : w.closedLoops loop with
  | false => rfl
  | true =>
      cases callback with
      | wakeQueue q => rfl
      | drainDispatch generation =>
          simp only [if_true]
          split <;> rfl

theorem next_inv (h : Inv w) {a : Action P} {w' : World P} (hstep : w.next a = some w') : Inv w' := by
  cases a with
  | publish call =>
      cases hstep
      exact publishAction_inv h call
  | attachLoop loop =>
      cases hstep
      exact attachLoop_inv h loop
  | detachLoop loop =>
      cases hstep
      exact detachLoop_inv h loop
  | closeLoop loop =>
      simp only [World.next] at hstep
      split at hstep <;> cases hstep
      exact closeLoop_inv h ‹_›
  | subscribe loop filter =>
      simp only [World.next] at hstep
      split at hstep <;> cases hstep
      exact subscribeLegacy_inv h loop filter
  | subscribeAfter loop filter afterEventId epoch replay =>
      simp only [World.next] at hstep
      split at hstep <;> cases hstep
      exact subscribeResumable_inv h filter afterEventId epoch replay ‹_›
  | post index =>
      obtain ⟨c, hc, rfl⟩ := Option.map_eq_some_iff.mp hstep
      have hmem := List.mem_of_getElem? hc
      rw [post_outbox]
      refine (post_inv h c.1 c.2 hmem).frame rfl rfl rfl rfl rfl rfl fun l q hm => ?_
      refine hm.imp_left fun hm => ?_
      rw [outbox_post]
      exact List.mem_of_mem_eraseIdx hm
  | runCallback index =>
      obtain ⟨c, hc, hstep⟩ := Option.bind_eq_some_iff.mp hstep
      have hmem := List.mem_of_getElem? hc
      obtain ⟨loop, callback⟩ := c
      have htaken : Inv { w with ready := w.ready.eraseIdx index } :=
        h.frame rfl rfl rfl rfl rfl rfl fun l q hm =>
          hm.imp_right fun hm => List.mem_of_mem_eraseIdx hm
      split at hstep
      · cases callback with
        | drainDispatch generation =>
            cases hstep
            exact drainDispatch_inv htaken ‹_›
        | wakeQueue q =>
            cases hstep
            exact wakeQueue_inv htaken (h.woken loop q (Or.inr hmem)).2
      · cases hstep
  | dispatch loop => exact dispatch_inv h hstep
  | resume q =>
      obtain ⟨c, hc, hstep⟩ := Option.bind_eq_some_iff.mp hstep
      split at hstep
      · obtain ⟨c', hc', rfl⟩ := Option.map_eq_some_iff.mp hstep
        exact resume_inv h hc hc'
      · cases hstep
  | receive q =>
      obtain ⟨c, hc, hstep⟩ := Option.bind_eq_some_iff.mp hstep
      split at hstep
      · exact receiveAction_inv h hc hstep
      · cases hstep
  | close q =>
      obtain ⟨c, hc, hstep⟩ := Option.bind_eq_some_iff.mp hstep
      split at hstep
      · cases hstep
        exact closeAction_inv h hc ‹_›
      · cases hstep

theorem reachable_inv {maxlen : Option Nat} {queueSize : Int} {epoch : String}
    (h : (liveMachine maxlen queueSize epoch).Reachable w) : Inv w := by
  refine h.invariant ?_ fun s a t hs hstep => next_inv hs hstep
  refine ⟨recorded_init rfl rfl rfl, ?_, ⟨?_, ?_⟩, ?_, ?_, ?_, ?_, ?_, ?_⟩ <;>
    simp [liveMachine, init]

-- What a resumable reader has been given is an initial part of what it asked
-- for, and it never stops without saying why.
theorem live_yields_wanted {maxlen : Option Nat} {queueSize : Int} {epoch : String}
    (hreach : (liveMachine maxlen queueSize epoch).Reachable w) {q : QueueId} {c : Channel P}
    {sub : EventSubscription P} (hc : w.channels q = some c) (hs : c.subscription = some sub)
    (hstart : c.attachedAtStart = true) :
    c.yielded <+: sub.wanted w.published ∧
    c.yielded.Pairwise (fun e e' => e.eventId < e'.eventId) ∧
    (c.pc = .done → sub.closed = false → sub.liveResyncReason ≠ none) := by
  have hinv := reachable_inv hreach
  have hlive := hinv.live q c sub hc hs hstart
  refine ⟨hlive.delivered, ?_, fun hdone hopen => ?_⟩
  · have hsorted : (sub.wanted w.published).Pairwise fun e e' => e.eventId < e'.eventId :=
      hinv.recorded.ids_lt.sublist List.filter_sublist
    exact hsorted.sublist hlive.delivered.sublist
  · rcases hlive.ended hdone with hclosed | hreason
    · rw [hopen] at hclosed
      cases hclosed
    · exact hreason

-- A queue of one: the second event overflows it, so only the first is read and
-- the reader ends with a reason.
def overflowRun : List (Action Unit) :=
  [.attachLoop 0, .subscribeAfter 0 (.one "") none none 0, .resume 0,
   .publish ⟨"a", (), 0⟩, .post 0, .runCallback 0, .dispatch 0, .dispatch 0, .dispatch 0, .dispatch 0,
   .receive 0,
   .publish ⟨"b", (), 1⟩, .publish ⟨"c", (), 2⟩, .post 0, .runCallback 0,
   .dispatch 0, .dispatch 0, .dispatch 0, .dispatch 0, .dispatch 0, .dispatch 0, .dispatch 0, .resume 0]

theorem live_yields_wanted_overflowRun :
    ∃ (w : World Unit) (c : Channel Unit) (sub : EventSubscription Unit),
      (liveMachine none 1 "e").run (liveMachine none 1 "e").start overflowRun = some w ∧
      w.channels 0 = some c ∧ c.subscription = some sub ∧ c.attachedAtStart = true ∧
      c.yielded = [⟨"a", (), 0, 1⟩] ∧ w.published.length = 3 ∧ c.pc = .done ∧ sub.closed = false ∧
      c.yielded <+: sub.wanted w.published ∧ sub.liveResyncReason ≠ none := by
  refine ⟨_, _, _, rfl, rfl, rfl, rfl, rfl, rfl, rfl, rfl, ?_⟩
  have h := @live_yields_wanted Unit _ none 1 "e" ⟨overflowRun, rfl⟩ 0 _ _ rfl rfl rfl
  exact ⟨h.1, h.2.2 rfl rfl⟩

end GaHub.EventBus
