import GaHub.Lib.Slots
import GaHub.Streams

namespace GaHub.Streams

variable {V : Type} {reading : Reading V} {classify : String → Option RecoverableErrorMatch}

-- The retry a stream has decided on: within its budget, and for the trigger it goes back to.
structure Plan.Fits (plan : Plan) (h : Stream) : Prop where
  eligible : h.source ∈ retryEligibleSources
  origin : plan.origin = h.origin
  scheduled : plan.scheduled = decide (h.origin ∈ scheduledRetrySources)
  room : (h.errorRetryCount : Int) < plan.maxAttempts
  bounded : plan.maxAttempts ≤ maxScheduledConfigAttempts

-- Where a thread goes when it only moves on.
inductive Moves (h : Stream) : Pc → Pc → Prop
  | giveUp {c : String} : Moves h (.concluding c) .ending
  | decline {c : String} : Moves h (.deciding c) (.continuing c)
  | exhausted {c : String} : Moves h (.deciding c) .ending
  | plan {c : String} {plan : Plan} {delay : ℚ} (hplan : plan.Fits h) : Moves h (.deciding c) (.registering c plan delay)
  | wait {c : String} {plan : Plan} {delay : ℚ} : Moves h (.registering c plan delay) (.waiting c plan)
  | hurry {c : String} {plan : Plan} {delay : ℚ} : Moves h (.registering c plan delay) (.submitting (.retry plan))
  | wake {c : String} {plan : Plan} : Moves h (.waiting c plan) (.woken c plan)
  | leave {c : String} {plan : Plan} : Moves h (.waiting c plan) (.discarding c)
  | break {c : String} {plan : Plan} : Moves h (.waiting c plan) .ending
  | stopped {c : String} {plan : Plan} : Moves h (.woken c plan) (.discarding c)
  | reload {c : String} {plan : Plan} : Moves h (.woken c plan) (.reloading c plan)
  | withdrawn {c : String} {plan : Plan} : Moves h (.reloading c plan) (.discarding c)
  | confirm {c : String} {plan : Plan} {n : Int} (hroom : (h.errorRetryCount : Int) < n)
      (hbounded : n ≤ maxScheduledConfigAttempts) :
      Moves h (.reloading c plan) (.checking c { plan with maxAttempts := n })
  | alone {c : String} {plan : Plan} : Moves h (.checking c plan) (.submitting (.retry plan))
  | taken {c : String} {plan : Plan} : Moves h (.checking c plan) (.discarding c)
  | discard {c : String} : Moves h (.discarding c) (.continuing c)
  | enroll {c : String} (heligible : h.source ∈ autoContinueSources) (hroom : h.autoContinueCount < autoContinueMax) :
      Moves h (.continuing c) .enrolling
  | rest {c : String} : Moves h (.continuing c) .ending
  | withdraw : Moves h .enrolling .withdrawing
  | continue : Moves h .enrolling (.submitting .autoContinue)
  | withdrew : Moves h .withdrawing .ending
  | interrupt {kind : Kind} : Moves h (.submitting kind) .ending
  | refused {kind : Kind} : Moves h (.submitting kind) .failing
  | lost {child : StreamId} : Moves h (.starting child) .failing
  | late : Moves h .rechecking .aborting
  | settle : Moves h .rechecking .ending
  | abort : Moves h .aborting .ending
  | fail : Moves h .failing .ending
  | cleanup : Moves h .ending .signalling

inductive Local (classify : String → Option RecoverableErrorMatch) (h : Stream) : Stream → Prop
  | chunk {c : String} (hpc : h.pc = .draining) : Local classify h { h with lastChunk := c, content := c }
  | read {c : String} (hpc : h.pc = .draining) :
      Local classify h { h with finalText := c, content := c, pc := .committing c }
  | shutDown (hpc : h.pc = .draining) : Local classify h h.shutDown
  | crash {detail : String} (hpc : h.pc = .draining ∨ ∃ c, h.pc = .committing c) : Local classify h (h.crashed detail)
  | commit {c : String} (hpc : h.pc = .committing c) : Local classify h { h with finished := true, pc := .concluding c }
  | conclude {c : String} (hpc : h.pc = .concluding c) :
      Local classify h { h with outcome := some (h.concluded classify c), pc := .deciding c }
  | move {pc : Pc} (hpc : Moves h h.pc pc) : Local classify h { h with pc }
  | link {child : StreamId} (hpc : h.pc = .linking child) :
      Local classify h { h with continuation := some child, pc := .rechecking }
  | signal (hpc : h.pc = .signalling) : Local classify h { h with fanoutDone := true, pc := .ended }

-- What a step of the thread of `x` does to the streams.
inductive ThreadChange (classify : String → Option RecoverableErrorMatch) (s t : State) (x : StreamId) (h : Stream) : Prop
  | same (hpc : h.pc = .draining) (ht : t.streams = s.streams)
  | own (h' : Stream) (hlocal : Local classify h h') (ht : t.streams = s.streams.set x h')
  | created (kind : Kind) (hpc : h.pc = .submitting kind)
      (ht : t.streams = (s.streams.set x { h with pc := .starting s.streams.length }) ++ [h.successor x kind])
  | started (child : StreamId) (hpc : h.pc = .starting child)
      (ht : t.streams = (s.streams.modify child fun h => { h with pc := .draining }).set x { h with pc := .linking child })

inductive Change (classify : String → Option RecoverableErrorMatch) (s t : State) : Prop
  | same (ht : t.streams = s.streams)
  | own (x : StreamId) (h h' : Stream) (hx : s.streams[x]? = some h) (hlocal : Local classify h h')
      (ht : t.streams = s.streams.set x h')
  | created (x : StreamId) (h : Stream) (kind : Kind) (hx : s.streams[x]? = some h) (hpc : h.pc = .submitting kind)
      (ht : t.streams = (s.streams.set x { h with pc := .starting s.streams.length }) ++ [h.successor x kind])
  | started (x : StreamId) (h : Stream) (child : StreamId) (hx : s.streams[x]? = some h) (hpc : h.pc = .starting child)
      (ht : t.streams = (s.streams.modify child fun h => { h with pc := .draining }).set x { h with pc := .linking child })
  | root (source sessionId : String) (pc : Pc) (hpc : pc = .draining ∨ pc = .unstarted)
      (ht : t.streams = s.streams ++ [{ source, sessionId, logicalId := s.streams.length, pc }])
  | cancelled (ht : t.streams = s.streams.mapIdx fun x h => if x ∈ s.pending then { h with aborted := true } else h)

theorem ThreadChange.change {s t : State} {x : StreamId} {h : Stream} (hchange : ThreadChange classify s t x h)
    (hx : s.streams[x]? = some h) : Change classify s t := by
  cases hchange with
  | same _ ht => exact .same ht
  | own h' hlocal ht => exact .own x h h' hx hlocal ht
  | created kind hpc ht => exact .created x h kind hx hpc ht
  | started child hpc ht => exact .started x h child hx hpc ht

theorem update_streams {s : State} {x : StreamId} {h : Stream} (hx : s.streams[x]? = some h) (f : Stream → Stream) :
    (s.update x f).streams = s.streams.set x (f h) := by
  obtain ⟨hlt, rfl⟩ := List.getElem?_eq_some_iff.mp hx
  exact List.modify_eq_set_get f hlt

theorem decideRetry_change {s : State} {x : StreamId} {h : Stream} {content : String}
    {stored : Option (Option (Payload V))} {jitter : ℚ} (hx : s.streams[x]? = some h) (hpc : h.pc = .deciding content) :
    ThreadChange classify s (decideRetry reading classify s x h content stored jitter) x h := by
  have hmove : ∀ {t : State} {pc : Pc}, t.streams = s.streams → Moves h (.deciding content) pc →
      ThreadChange classify s (t.goto x pc) x h := by
    intro t pc ht hmoves
    refine .own _ (.move (hpc ▸ hmoves)) ?_
    rw [← ht] at hx ⊢
    exact update_streams hx _
  unfold decideRetry
  split
  · exact hmove rfl .decline
  · rename_i heligible
    rw [not_not] at heligible
    split
    · exact hmove rfl .decline
    · rename_i found _
      dsimp only
      have hbound : found.limit ((loadChatRetryConfig reading stored).budget (decide (h.origin ∈ scheduledRetrySources))) ≤
          maxScheduledConfigAttempts := (found.limit_le _).trans (budget_le reading stored _)
      split
      · exact hmove rfl .decline
      · split
        · exact hmove rfl .exhausted
        · rename_i hroom
          exact hmove rfl (.plan ⟨heligible, rfl, rfl, not_le.mp hroom, hbound⟩)

theorem reloadPolicy_change {s : State} {x : StreamId} {h : Stream} {content : String} {plan : Plan}
    {stored : Option (Option (Payload V))} (hx : s.streams[x]? = some h) (hpc : h.pc = .reloading content plan) :
    ThreadChange classify s (reloadPolicy reading s x h content plan stored) x h := by
  have hmove : ∀ {t : State} {pc : Pc}, t.streams = s.streams → Moves h (.reloading content plan) pc →
      ThreadChange classify s (t.goto x pc) x h := by
    intro t pc ht hmoves
    refine .own _ (.move (hpc ▸ hmoves)) ?_
    rw [← ht] at hx ⊢
    exact update_streams hx _
  unfold reloadPolicy
  dsimp only
  split
  · exact hmove rfl .withdrawn
  · rename_i hroom
    rw [not_or, not_or] at hroom
    exact hmove rfl (.confirm (not_le.mp hroom.2.2) (budget_le reading stored _))

theorem threadStep_change {s t : State} {x : StreamId} {h : Stream} {input : Input V} (hx : s.streams[x]? = some h)
    (hstep : threadStep reading classify s x h input = some t) : ThreadChange classify s t x h := by
  -- a step that only moves the thread, whatever it does outside of the streams
  have hmove : ∀ {u : State} {pc : Pc}, u.streams = s.streams → Moves h h.pc pc →
      ThreadChange classify s (u.goto x pc) x h := by
    intro u pc hu hmoves
    refine .own _ (.move hmoves) ?_
    rw [← hu] at hx ⊢
    exact update_streams hx _
  have hown : ∀ {f : Stream → Stream}, Local classify h (f h) → ThreadChange classify s (s.update x f) x h := by
    intro f hlocal
    exact .own _ hlocal (update_streams hx f)
  unfold threadStep at hstep
  split at hstep
  all_goals
    rename_i hpc
    try rw [hpc] at hmove
  · cases hstep
    split
    · exact .same hpc rfl
    · exact hown (.chunk hpc)
  · cases hstep
    split
    · exact hown (.shutDown hpc)
    · exact .same hpc rfl
  · cases hstep
    exact hown (.read hpc)
  · cases hstep
    exact hown (.crash (.inl hpc))
  · cases hstep
    exact hown (.commit hpc)
  · cases hstep
    exact hown (.crash (.inr ⟨_, hpc⟩))
  · cases hstep
    exact hown (.conclude hpc)
  · cases hstep
    exact hmove rfl .giveUp
  · cases hstep
    exact decideRetry_change hx hpc
  · cases hstep
    exact hmove rfl .exhausted
  · cases hstep
    split
    · exact hmove rfl .wait
    · exact hmove rfl .hurry
  · split at hstep
    · cases hstep
    · cases hstep
      exact hmove rfl .wake
  · split at hstep
    · cases hstep
      exact hmove rfl .leave
    · cases hstep
  · cases hstep
    exact hmove rfl .break
  · cases hstep
    split
    · exact hmove rfl .stopped
    · exact hmove rfl .reload
  · cases hstep
    exact reloadPolicy_change hx hpc
  · cases hstep
    split
    · exact hmove rfl .alone
    · exact hmove rfl .taken
  · cases hstep
    exact hmove rfl .discard
  · cases hstep
    split
    · rename_i hcontinue
      exact hmove rfl (.enroll hcontinue.1 hcontinue.2.1)
    · exact hmove rfl .rest
  · cases hstep
    split
    · exact hmove rfl .withdraw
    · exact hmove rfl .continue
  · cases hstep
    exact hmove rfl .withdrew
  · cases hstep
    exact hmove rfl .interrupt
  · cases hstep
    exact hmove rfl .refused
  · split at hstep
    · cases hstep
    · cases hstep
      refine .created _ hpc ?_
      have hlt := (List.getElem?_eq_some_iff.mp hx).1
      have hx' : ∀ child, (create s child).streams[x]? = some h := by
        intro child
        rw [create, List.getElem?_append_left hlt]
        exact hx
      rw [State.goto, update_streams (hx' _), create, List.set_append_left _ _ hlt]
  · cases hstep
    split
    · rename_i child _ _
      refine .started child hpc ?_
      have hx' : ∃ h', (s.streams.modify child fun h => { h with pc := .draining })[x]? = some h' ∧
          { h' with pc := Pc.linking child } = { h with pc := Pc.linking child } := by
        by_cases hchild : child = x
        · subst hchild
          rw [List.getElem?_modify_eq, hx]
          exact ⟨_, rfl, rfl⟩
        · rw [List.getElem?_modify_ne _ _ hchild]
          exact ⟨h, hx, rfl⟩
      obtain ⟨h', hx', hsame⟩ := hx'
      rw [← hsame]
      exact update_streams hx' _
    · exact hmove rfl .lost
  · cases hstep
    exact hown (.link hpc)
  · cases hstep
    split
    · exact hmove rfl .late
    · exact hmove rfl .settle
  · cases hstep
    exact hmove rfl .abort
  · cases hstep
    exact hmove rfl .fail
  · cases hstep
    exact hmove rfl .cleanup
  · cases hstep
    exact hown (.signal hpc)
  · cases hstep

theorem next_change {s t : State} {a : Action V} (h : next reading classify s a = some t) : Change classify s t := by
  cases a with
  | submit source sessionId started =>
      simp only [next] at h
      split at h
      · cases h
      · cases h
        refine .root source sessionId _ ?_ rfl
        split
        · exact .inl rfl
        · exact .inr rfl
  | thread x input =>
      simp only [next] at h
      obtain ⟨stream, hx, hstep⟩ := Option.bind_eq_some_iff.mp h
      exact (threadStep_change hx hstep).change hx
  | abort =>
      cases h
      exact .cancelled rfl
  | abortStep call =>
      simp only [next] at h
      split at h
      · cases h
        exact .same rfl
      · cases h
        exact .same rfl
      · cases h
  | shutdown =>
      cases h
      exact .same rfl

-- What becomes of one stream in a step, and where new ones come from.
inductive Evolves (classify : String → Option RecoverableErrorMatch) (s t : State) (y : StreamId) (h : Stream) : Stream → Prop
  | same : Evolves classify s t y h h
  | own {h' : Stream} (hlocal : Local classify h h') : Evolves classify s t y h h'
  | submits {kind : Kind} (hpc : h.pc = .submitting kind)
      (hchild : t.streams[s.streams.length]? = some (h.successor y kind)) :
      Evolves classify s t y h { h with pc := .starting s.streams.length }
  | starts {child : StreamId} (hpc : h.pc = .starting child) : Evolves classify s t y h { h with pc := .linking child }
  -- by the thread that has submitted it, which goes on
  | started {x : StreamId} {parent : Stream} (hx : s.streams[x]? = some parent) (hpc : parent.pc = .starting y)
      (hx' : t.streams[x]? = some { parent with pc := .linking y }) : Evolves classify s t y h { h with pc := .draining }
  | marked (hy : y ∈ s.pending) : Evolves classify s t y h { h with aborted := true }

inductive Appears (s : State) : Stream → Prop
  | root {source sessionId : String} {pc : Pc} (hpc : pc = .draining ∨ pc = .unstarted) :
      Appears s { source, sessionId, logicalId := s.streams.length, pc }
  | successor {x : StreamId} {h : Stream} {kind : Kind} (hx : s.streams[x]? = some h) (hpc : h.pc = .submitting kind) :
      Appears s (h.successor x kind)

theorem Change.stream {s t : State} (h : Change classify s t) {y : StreamId} {z : Stream} (hz : t.streams[y]? = some z) :
    (∃ old, s.streams[y]? = some old ∧ Evolves classify s t y old z) ∨ (y = s.streams.length ∧ Appears s z) := by
  cases h with
  | same ht =>
      rw [ht] at hz
      exact .inl ⟨z, hz, .same⟩
  | own x h h' hx hlocal ht =>
      rw [ht, List.getElem?_set] at hz
      split at hz
      · rename_i heq
        subst heq
        split at hz <;> cases hz
        exact .inl ⟨h, hx, .own hlocal⟩
      · exact .inl ⟨z, hz, .same⟩
  | created x h kind hx hpc ht =>
      rw [ht] at hz
      rcases Lib.getElem?_concat_cases hz with hold | ⟨hy, rfl⟩
      · rw [List.getElem?_set] at hold
        split at hold
        · rename_i heq
          subst heq
          split at hold <;> cases hold
          refine .inl ⟨h, hx, .submits hpc ?_⟩
          rw [ht, List.getElem?_append_right (by simp), List.length_set, Nat.sub_self]
          rfl
        · exact .inl ⟨z, hold, .same⟩
      · rw [List.length_set] at hy
        exact .inr ⟨hy, .successor hx hpc⟩
  | started x h child hx hpc ht =>
      rw [ht, List.getElem?_set] at hz
      split at hz
      · rename_i heq
        subst heq
        split at hz <;> cases hz
        exact .inl ⟨h, hx, .starts hpc⟩
      · by_cases hy : child = y
        · subst hy
          rw [List.getElem?_modify_eq] at hz
          obtain ⟨old, hold, rfl⟩ := Option.map_eq_some_iff.mp hz
          have hlt := (List.getElem?_eq_some_iff.mp hx).1
          refine .inl ⟨old, hold, .started hx hpc ?_⟩
          rw [ht, List.getElem?_set_self (by simpa using hlt)]
        · rw [List.getElem?_modify_ne _ _ hy] at hz
          exact .inl ⟨z, hz, .same⟩
  | root source sessionId pc hpc ht =>
      rw [ht] at hz
      rcases Lib.getElem?_concat_cases hz with hold | ⟨hy, rfl⟩
      · exact .inl ⟨z, hold, .same⟩
      · exact .inr ⟨hy, .root hpc⟩
  | cancelled ht =>
      rw [ht, List.getElem?_mapIdx] at hz
      obtain ⟨old, hold, rfl⟩ := Option.map_eq_some_iff.mp hz
      refine .inl ⟨old, hold, ?_⟩
      split
      · exact .marked ‹_›
      · exact .same

theorem Change.keeps {s t : State} (h : Change classify s t) {y : StreamId} {old : Stream} (hold : s.streams[y]? = some old) :
    ∃ z, t.streams[y]? = some z ∧ Evolves classify s t y old z := by
  have hlt := (List.getElem?_eq_some_iff.mp hold).1
  have hlt' : y < t.streams.length := by
    cases h with
    | same ht => simpa [ht] using hlt
    | own _ _ _ _ _ ht => simpa [ht] using hlt
    | created _ _ _ _ _ ht =>
        rw [ht, List.length_append, List.length_set]
        exact Nat.lt_add_right _ hlt
    | started _ _ _ _ _ ht => simpa [ht] using hlt
    | root _ _ _ _ ht =>
        rw [ht, List.length_append]
        exact Nat.lt_add_right _ hlt
    | cancelled ht => simpa [ht] using hlt
  refine ⟨_, List.getElem?_eq_getElem hlt', ?_⟩
  rcases h.stream (List.getElem?_eq_getElem hlt') with ⟨old', hold', hevolves⟩ | ⟨hy, _⟩
  · rw [hold] at hold'
    cases hold'
    exact hevolves
  · exact absurd hy (Nat.ne_of_lt hlt)

end GaHub.Streams
