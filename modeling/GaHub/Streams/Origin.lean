import GaHub.Streams.Chain

namespace GaHub.Streams

variable {V : Type} {reading : Reading V} {classify : String → Option RecoverableErrorMatch}

-- What a decision notes down is what it used: the budget of one side, and where it waits, a delay on its curve.
def Used (reading : Reading V) (scheduled : Bool) (budget : Int) (delay : Option ℚ) : Prop :=
  ∃ stored, (budget = (loadChatRetryConfig reading stored).budget scheduled ∨ ∃ found : RecoverableErrorMatch,
      budget = found.limit ((loadChatRetryConfig reading stored).budget scheduled)) ∧
    ∀ d, delay = some d → ∃ n scale jitter, d = computeBackoffDelay n (loadChatRetryConfig reading stored) scale jitter scheduled

inductive Noted (reading : Reading V) (s : State) (h : Stream) (x : StreamId) : List Event → Prop
  | nothing : Noted reading s h x []
  | decided {scheduled : Bool} {budget : Int} {delay : Option ℚ}
      (hwhere : (∃ c, h.pc = .deciding c) ∧ scheduled = decide (h.origin ∈ scheduledRetrySources) ∨
        ∃ c plan, h.pc = .reloading c plan ∧ scheduled = plan.scheduled)
      (hused : Used reading scheduled budget delay) : Noted reading s h x [.decided x scheduled budget delay]
  | submitted {kind : Kind} (hpc : h.pc = .submitting kind) : Noted reading s h x [.submitted s.streams.length]
  | agentAbort (hpc : h.pc = .aborting) : Noted reading s h x [.agentAbort]

@[simp] theorem goto_log (s : State) (x : StreamId) (pc : Pc) : (s.goto x pc).log = s.log := rfl

@[simp] theorem update_log (s : State) (x : StreamId) (f : Stream → Stream) : (s.update x f).log = s.log := rfl

@[simp] theorem note_log (s : State) (e : Event) : (s.note e).log = s.log ++ [e] := rfl

@[simp] theorem register_log (s : State) (x : StreamId) : (s.register x).log = s.log := rfl

@[simp] theorem discard_log (s : State) (x : StreamId) : (s.discard x).log = s.log := rfl

theorem decideRetry_log {s : State} {x : StreamId} {h : Stream} {content : String} {stored : Option (Option (Payload V))}
    {jitter : ℚ} (hpc : h.pc = .deciding content) : ∃ new,
      (decideRetry reading classify s x h content stored jitter).log = s.log ++ new ∧ Noted reading s h x new := by
  unfold decideRetry
  split
  · exact ⟨[], by simp, .nothing⟩
  · split
    · exact ⟨[], by simp, .nothing⟩
    · rename_i found _
      dsimp only
      split
      · exact ⟨_, rfl, .decided (.inl ⟨⟨content, hpc⟩, rfl⟩) ⟨stored, .inr ⟨found, rfl⟩, by simp⟩⟩
      · split
        · exact ⟨_, rfl, .decided (.inl ⟨⟨content, hpc⟩, rfl⟩) ⟨stored, .inr ⟨found, rfl⟩, by simp⟩⟩
        · refine ⟨_, rfl, .decided (.inl ⟨⟨content, hpc⟩, rfl⟩) ⟨stored, .inr ⟨found, rfl⟩, ?_⟩⟩
          intro d hd
          cases hd
          exact ⟨_, _, _, rfl⟩

theorem reloadPolicy_log {s : State} {x : StreamId} {h : Stream} {content : String} {plan : Plan}
    {stored : Option (Option (Payload V))} (hpc : h.pc = .reloading content plan) : ∃ new,
      (reloadPolicy reading s x h content plan stored).log = s.log ++ new ∧ Noted reading s h x new := by
  have hnoted : ∃ new, (s.note (.decided x plan.scheduled ((loadChatRetryConfig reading stored).budget plan.scheduled) none)).log =
      s.log ++ new ∧ Noted reading s h x new :=
    ⟨_, rfl, .decided (.inr ⟨content, plan, hpc, rfl⟩) ⟨stored, .inl rfl, by simp⟩⟩
  unfold reloadPolicy
  dsimp only
  split <;> exact hnoted

theorem threadStep_log {s t : State} {x : StreamId} {h : Stream} {input : Input V}
    (hstep : threadStep reading classify s x h input = some t) : ∃ new, t.log = s.log ++ new ∧ Noted reading s h x new := by
  unfold threadStep at hstep
  split at hstep
  all_goals rename_i hpc
  -- the decision, the reload, the submission and the call of `agent.abort`
  case h_9 => cases hstep; exact decideRetry_log hpc
  case h_16 => cases hstep; exact reloadPolicy_log hpc
  case h_24 =>
    split at hstep
    · cases hstep
    · cases hstep
      exact ⟨_, rfl, .submitted hpc⟩
  case h_28 => cases hstep; exact ⟨_, rfl, .agentAbort hpc⟩
  case h_32 => cases hstep
  all_goals
    refine ⟨[], ?_, .nothing⟩
    rw [List.append_nil]
    first
      | (cases hstep; rfl)
      | (cases hstep; split <;> rfl)
      | (split at hstep <;> cases hstep <;> rfl)

-- Every decision was made for the trigger its stream goes back to.
def Decided (reading : Reading V) (s : State) : Prop :=
  ∀ x scheduled budget delay, Event.decided x scheduled budget delay ∈ s.log → ∃ h : Stream, s.streams[x]? = some h ∧
    scheduled = decide (h.origin ∈ scheduledRetrySources) ∧ Used reading scheduled budget delay

theorem Evolves.origin {s t : State} {y : StreamId} {h z : Stream} (hevolves : Evolves classify s t y h z) :
    z.origin = h.origin := by
  have hidentity := hevolves.identity
  simp only [Stream.identity, Identity.mk.injEq] at hidentity
  unfold Stream.origin
  rw [hidentity.1, hidentity.2.2.2.2.2]

theorem Decided.next {s t : State} {a : Action V} (hs : Decided reading s) (hchained : Chained s)
    (h : next reading classify s a = some t) : Decided reading t := by
  have hchange := next_change h
  have hkept : ∀ {x : StreamId} {scheduled budget delay} {old : Stream}, s.streams[x]? = some old →
      scheduled = decide (old.origin ∈ scheduledRetrySources) → Used reading scheduled budget delay →
      ∃ z : Stream, t.streams[x]? = some z ∧ scheduled = decide (z.origin ∈ scheduledRetrySources) ∧
        Used reading scheduled budget delay := by
    intro x scheduled budget delay old hold hscheduled hused
    obtain ⟨z, hz, hevolves⟩ := hchange.keeps hold
    exact ⟨z, hz, by rw [hevolves.origin, hscheduled], hused⟩
  intro x scheduled budget delay hmem
  have hold : Event.decided x scheduled budget delay ∈ s.log → ∃ z : Stream, t.streams[x]? = some z ∧
      scheduled = decide (z.origin ∈ scheduledRetrySources) ∧ Used reading scheduled budget delay := by
    intro hmem
    obtain ⟨old, hold, hscheduled, hused⟩ := hs x scheduled budget delay hmem
    exact hkept hold hscheduled hused
  cases a with
  | submit source sessionId started =>
      simp only [Streams.next] at h
      split at h
      · cases h
      · cases h
        exact hold (by simpa [create] using hmem)
  | abort =>
      cases h
      exact hold (by simpa using hmem)
  | abortStep call =>
      simp only [Streams.next] at h
      split at h
      · cases h
        exact hold (by simpa using hmem)
      · cases h
        exact hold (by simpa using hmem)
      · cases h
  | shutdown =>
      cases h
      exact hold hmem
  | thread y input =>
      simp only [Streams.next] at h
      obtain ⟨stream, hy, hstep⟩ := Option.bind_eq_some_iff.mp h
      obtain ⟨new, hlog, hnoted⟩ := threadStep_log hstep
      rw [hlog] at hmem
      rcases List.mem_append.mp hmem with hmem | hmem
      · exact hold hmem
      · cases hnoted with
        | nothing => cases hmem
        | submitted _ => simp at hmem
        | agentAbort _ => simp at hmem
        | decided hwhere hused =>
            simp only [List.mem_singleton, Event.decided.injEq] at hmem
            obtain ⟨rfl, rfl, rfl, rfl⟩ := hmem
            rcases hwhere with ⟨_, hscheduled⟩ | ⟨c, plan, hpc, hscheduled⟩
            · exact hkept hy hscheduled hused
            · have hfits := (hchained.ready _ _ hy).retry plan (by rw [hpc]; rfl)
              exact hkept hy (hscheduled.trans hfits.scheduled) hused

theorem reachable_decided {s : State} (hs : (machine reading classify).Reachable s) : Decided reading s :=
  hs.invariant_with (Q := Chained) reachable_chained (by simp [Decided, machine]) fun _ _ _ hd hc ha => hd.next hc ha

-- The source of the first continuation on the way from the root of a run to a stream.
inductive Began (s : State) : StreamId → String → Prop
  | first {x y : StreamId} {root h : Stream} (hx : s.streams[x]? = some root) (hroot : root.retryOf = none)
      (hy : s.streams[y]? = some h) (hretry : h.retryOf = some x) : Began s y h.source
  | later {x y : StreamId} {h : Stream} {source : String} (hx : Began s x source) (hy : s.streams[y]? = some h)
      (hretry : h.retryOf = some x) : Began s y source

inductive Known (s : State) (r : StreamId) (source : String) (y : StreamId) (h : Stream) : Prop
  | root (hy : y = r) (horigin : h.errorRetryOrigin = "") (hsource : h.source = source)
  -- the first continuation was a retry: the trigger is kept
  | retried (hbegan : Began s y "chat_error_retry") (hsource : source ∈ retryEligibleSources)
      (horigin : h.errorRetryOrigin = source)
  -- it was an auto-continue: the trigger is lost
  | continued (hbegan : Began s y "auto_continue")
      (horigin : h.errorRetryOrigin = "" ∧ h.source = "auto_continue" ∨ h.errorRetryOrigin = "auto_continue")

theorem Known.origin {s : State} {r y : StreamId} {source : String} {h : Stream} (hknown : Known s r source y h) :
    (h.origin = source ∧ (y = r ∨ Began s y "chat_error_retry")) ∨ (h.origin = "auto_continue" ∧ Began s y "auto_continue") := by
  cases hknown with
  | root hy horigin hsource => exact .inl ⟨by simp [Stream.origin, horigin, hsource], .inl hy⟩
  | retried hbegan hsource horigin =>
      have hsome : source ≠ "" := by
        rintro rfl
        revert hsource
        decide
      exact .inl ⟨by simp [Stream.origin, horigin, hsome], .inr hbegan⟩
  | continued hbegan horigin =>
      refine .inr ⟨?_, hbegan⟩
      rcases horigin with ⟨hnone, hsource⟩ | horigin
      · simp [Stream.origin, hnone, hsource]
      · simp [Stream.origin, horigin]

theorem Chained.known {s : State} (hs : Chained s) (y : StreamId) (h : Stream) (hy : s.streams[y]? = some h) :
    ∃ root, s.streams[h.logicalId]? = some root ∧ root.retryOf = none ∧ Known s h.logicalId root.source y h := by
  induction y using Nat.strong_induction_on generalizing h with
  | _ y ih =>
      cases hretry : h.retryOf with
      | none =>
          obtain ⟨hself, _, _, horigin⟩ := hs.root y h hy hretry
          exact ⟨h, by rw [hself]; exact hy, hretry, .root hself.symm horigin rfl⟩
      | some x =>
          obtain ⟨hlt, parent, hx, _, hcontinues⟩ := hs.link y h x hy hretry
          obtain ⟨root, hr, hroot, hknown⟩ := ih x hlt parent hx
          rw [hcontinues.steps.1]
          refine ⟨root, hr, hroot, ?_⟩
          -- whether the stream is the first continuation of its run
          have hbegan : ∀ {source : String}, Began s x source → Began s y source := fun hx => .later hx hy hretry
          have hfirst : x = parent.logicalId → Began s y h.source := by
            intro heq
            rw [← heq, hx] at hr
            cases hr
            exact .first hx hroot hy hretry
          cases hcontinues with
          | retry plan hfits hsame =>
              simp only [Stream.identity, Stream.successor, Identity.mk.injEq] at hsame
              obtain ⟨hsource, _, _, _, _, horigin⟩ := hsame
              rw [hfits.origin] at horigin
              cases hknown with
              | root heq hnone hsource' =>
                  have hparent : parent.origin = root.source := by simp [Stream.origin, hnone, hsource']
                  refine .retried (hsource ▸ hfirst heq) ?_ (horigin.trans hparent)
                  rw [← hsource']
                  exact hfits.eligible
              | retried hbefore heligible horigin' =>
                  have hsome : root.source ≠ "" := by
                    intro hempty
                    rw [hempty] at heligible
                    revert heligible
                    decide
                  have hparent : parent.origin = root.source := by simp [Stream.origin, horigin', hsome]
                  exact .retried (hbegan hbefore) heligible (horigin.trans hparent)
              | continued hbefore horigin' =>
                  have hparent : parent.origin = "auto_continue" := by
                    rcases horigin' with ⟨hnone, hsource'⟩ | horigin'
                    · simp [Stream.origin, hnone, hsource']
                    · simp [Stream.origin, horigin']
                  exact .continued (hbegan hbefore) (.inr (horigin.trans hparent))
          | autoContinue _ _ hsame =>
              simp only [Stream.identity, Stream.successor, Identity.mk.injEq] at hsame
              obtain ⟨hsource, _, _, _, _, horigin⟩ := hsame
              cases hknown with
              | root heq hnone _ => exact .continued (hsource ▸ hfirst heq) (.inl ⟨horigin.trans hnone, hsource⟩)
              | retried hbefore heligible horigin' => exact .retried (hbegan hbefore) heligible (horigin.trans horigin')
              | continued hbefore horigin' =>
                  refine .continued (hbegan hbefore) ?_
                  rcases horigin' with ⟨hnone, _⟩ | horigin'
                  · exact .inl ⟨horigin.trans hnone, hsource⟩
                  · exact .inr (horigin.trans horigin')

theorem Began.not_root {s : State} {y : StreamId} {source : String} {h : Stream} (hbegan : Began s y source)
    (hy : s.streams[y]? = some h) : h.retryOf ≠ none := by
  cases hbegan with
  | first _ _ hy' hretry =>
      rw [hy] at hy'
      cases hy'
      simp [hretry]
  | later _ hy' hretry =>
      rw [hy] at hy'
      cases hy'
      simp [hretry]

theorem Began.unique {s : State} {y : StreamId} {source source' : String} (h : Began s y source) (h' : Began s y source') :
    source = source' := by
  induction h with
  | first hx hroot hy hretry =>
      cases h' with
      | first _ _ hy' _ =>
          rw [hy] at hy'
          cases hy'
          rfl
      | later hbefore hy' hretry' =>
          rw [hy] at hy'
          cases hy'
          rw [hretry] at hretry'
          cases hretry'
          exact absurd hroot (hbefore.not_root hx)
  | later hbefore hy hretry ih =>
      cases h' with
      | first hx' hroot' hy' hretry' =>
          rw [hy] at hy'
          cases hy'
          rw [hretry] at hretry'
          cases hretry'
          exact absurd hroot' (hbefore.not_root hx')
      | later hbefore' hy' hretry' =>
          rw [hy] at hy'
          cases hy'
          rw [hretry] at hretry'
          cases hretry'
          exact ih hbefore'

-- The decisions of a run use the side of its trigger exactly when none of them comes after an auto-continue that was
-- the first continuation of a scheduled run.
theorem budget_follows_trigger_iff {s : State} (hs : (machine reading classify).Reachable s) {r : StreamId} {root : Stream}
    (hr : s.streams[r]? = some root) (hroot : root.retryOf = none) :
    (∀ x scheduled budget delay, Event.decided x scheduled budget delay ∈ s.log → x ∈ runStreams s r →
      (scheduled = true ↔ root.source ∈ scheduledRetrySources) ∧ Used reading scheduled budget delay) ↔
    (root.source ∈ scheduledRetrySources → ∀ x scheduled budget delay, Event.decided x scheduled budget delay ∈ s.log →
      x ∈ runStreams s r → ¬ Began s x "auto_continue") := by
  have hchained := reachable_chained hs
  have hdecided := reachable_decided hs
  -- a decision and what its stream knows
  have hdecision : ∀ {x scheduled budget delay}, Event.decided x scheduled budget delay ∈ s.log → x ∈ runStreams s r →
      ∃ h, scheduled = decide (Stream.origin h ∈ scheduledRetrySources) ∧ Used reading scheduled budget delay ∧
        Known s r root.source x h := by
    intro x scheduled budget delay hmem hx
    obtain ⟨h, hh, hscheduled, hused⟩ := hdecided x scheduled budget delay hmem
    obtain ⟨h', hh', hrun⟩ := mem_runStreams.mp hx
    rw [hh] at hh'
    cases hh'
    obtain ⟨root', hr', _, hknown⟩ := hchained.known x h hh
    rw [hrun, hr] at hr'
    cases hr'
    rw [hrun] at hknown
    exact ⟨h, hscheduled, hused, hknown⟩
  have hplain : "auto_continue" ∉ scheduledRetrySources := by decide
  constructor
  · intro hall htrigger x scheduled budget delay hmem hx hbegan
    obtain ⟨h, hscheduled, _, hknown⟩ := hdecision hmem hx
    have hflag := (hall x scheduled budget delay hmem hx).1.mpr htrigger
    rcases hknown.origin with ⟨_, rfl | hretried⟩ | ⟨horigin, _⟩
    · exact hbegan.not_root hr hroot
    · exact absurd (hbegan.unique hretried) (by decide)
    · rw [hscheduled, horigin] at hflag
      exact hplain (of_decide_eq_true hflag)
  · intro hnever x scheduled budget delay hmem hx
    obtain ⟨h, hscheduled, hused, hknown⟩ := hdecision hmem hx
    refine ⟨?_, hused⟩
    rcases hknown.origin with ⟨horigin, _⟩ | ⟨horigin, hbegan⟩
    · rw [hscheduled, horigin, decide_eq_true_iff]
    · rw [hscheduled, horigin, decide_eq_true_iff]
      exact ⟨fun h => absurd h hplain, fun htrigger => absurd hbegan (hnever htrigger x scheduled budget delay hmem hx)⟩

-- A scheduled run that fails and is retried keeps its budget of six.
def scheduledRetry : List (Action Unit) :=
  [Action.submit "scheduled" "s" true] ++ finishes 0 "!!!Error: HTTP 503" ++ retries 0 ++ finishes 1 "!!!Error: HTTP 503"

theorem budget_follows_trigger_retried : ∃ (s : State) (root : Stream),
    (machine plainReading gatewayError).run {} scheduledRetry = some s ∧ s.streams[0]? = some root ∧
      root.source ∈ scheduledRetrySources ∧ Event.decided 1 true 6 (some 20) ∈ s.log ∧
      ((∀ x scheduled budget delay, Event.decided x scheduled budget delay ∈ s.log → x ∈ runStreams s 0 →
        (scheduled = true ↔ root.source ∈ scheduledRetrySources) ∧ Used plainReading scheduled budget delay) ↔
      (root.source ∈ scheduledRetrySources → ∀ x scheduled budget delay, Event.decided x scheduled budget delay ∈ s.log →
        x ∈ runStreams s 0 → ¬ Began s x "auto_continue")) := by
  have hrun : ((machine plainReading gatewayError).run {} scheduledRetry).map
      (fun s => (s.streams[0]?.map fun h => (h.source, h.retryOf), decide (Event.decided 1 true 6 (some 20) ∈ s.log))) =
      some (some ("scheduled", none), true) := by decide +kernel
  obtain ⟨s, hrun, hfacts⟩ := Option.map_eq_some_iff.mp hrun
  obtain ⟨hroot, hmem⟩ := Prod.mk.inj hfacts
  obtain ⟨root, hr, hsource⟩ := Option.map_eq_some_iff.mp hroot
  obtain ⟨hsource, hretry⟩ := Prod.mk.inj hsource
  exact ⟨s, root, hrun, hr, by rw [hsource]; decide, of_decide_eq_true hmem,
    budget_follows_trigger_iff ⟨scheduledRetry, hrun⟩ hr hretry⟩

-- A scheduled run whose answer is cut off first has the budget of three of a chat when it then fails.
def truncatedThenFailing : List (Action Unit) :=
  [Action.submit "scheduled" "s" true] ++ finishes 0 "[!!! Response truncated: max_tokens" ++ continues 0 ++
    finishes 1 "!!!Error: HTTP 503"

theorem scheduled_budget_lost : ¬ ∀ (s : State) (r : StreamId) (root : Stream),
    (machine plainReading gatewayError).Reachable s → s.streams[r]? = some root → root.retryOf = none →
    ∀ x scheduled budget delay, Event.decided x scheduled budget delay ∈ s.log → x ∈ runStreams s r →
      (scheduled = true ↔ root.source ∈ scheduledRetrySources) := by
  intro h
  have hrun : ((machine plainReading gatewayError).run {} truncatedThenFailing).map
      (fun s => (s.streams[0]?.map fun h => (h.source, h.retryOf), s.streams[1]?.map Stream.logicalId,
        decide (Event.decided 1 false 3 (some 4) ∈ s.log))) = some (some ("scheduled", none), some 0, true) := by
    decide +kernel
  obtain ⟨s, hrun, hfacts⟩ := Option.map_eq_some_iff.mp hrun
  obtain ⟨hroot, hrest⟩ := Prod.mk.inj hfacts
  obtain ⟨hlogical, hmem⟩ := Prod.mk.inj hrest
  obtain ⟨root, hr, hsource⟩ := Option.map_eq_some_iff.mp hroot
  obtain ⟨hsource, hretry⟩ := Prod.mk.inj hsource
  have hflag := h s 0 root ⟨truncatedThenFailing, hrun⟩ hr hretry 1 false 3 (some 4) (of_decide_eq_true hmem)
    (mem_runStreams.mpr (Option.map_eq_some_iff.mp hlogical))
  rw [hsource] at hflag
  exact absurd (hflag.mpr (by decide)) (by decide)

end GaHub.Streams
