import GaHub.Lib.Log
import GaHub.Streams.Origin
import GaHub.Streams.Completion

namespace GaHub.Streams

variable {V : Type} {reading : Reading V} {classify : String → Option RecoverableErrorMatch}

-- The places between the registration of a retry or continuation and the look at its snapshot after the submission.
def Pc.holds : Pc → Bool
  | .waiting _ _ | .woken _ _ | .reloading _ _ | .checking _ _ | .submitting _ | .starting _ | .linking _ | .rechecking => true
  | _ => false

def Pc.registers : Pc → Bool
  | .registering _ _ _ | .enrolling => true
  | _ => false

-- No `abort` is under way, and none has returned since the run began.
def Clean (s : State) (r : StreamId) : Prop :=
  (∀ pc ∈ s.aborts, pc = .returned) ∧
    ∀ call < s.aborts.length, ¬ [Event.submitted r, .abortReturned call].Sublist s.log

instance (s : State) (r : StreamId) : Decidable (Clean s r) := inferInstanceAs (Decidable (_ ∧ _))

def Unstopped (s : State) : Action V → Prop
  | .thread x .step => ∀ h ∈ s.streams[x]?, h.pc.registers = true → h.aborted = true ∨ Clean s h.logicalId
  | _ => True

instance (s : State) (a : Action V) : Decidable (Unstopped s a) :=
  match a with
  | .thread x .step =>
      inferInstanceAs (Decidable (∀ h ∈ s.streams[x]?, h.pc.registers = true → h.aborted = true ∨ Clean s h.logicalId))
  | .thread _ (.next _) | .thread _ (.done _) | .thread _ .empty | .thread _ (.raises _) | .thread _ (.config _ _) |
    .thread _ (.wake _) | .thread _ (.call _) | .submit _ _ _ | .abort | .abortStep _ | .shutdown => .isTrue trivial

def Timely (s : State) (a : Action V) : Prop := Starts s a ∧ Unstopped s a

instance (s : State) (a : Action V) : Decidable (Timely s a) := inferInstanceAs (Decidable (_ ∧ _))

structure Recorded (s : State) : Prop where
  submitted : ∀ x, x < s.streams.length → Event.submitted x ∈ s.log
  returned : ∀ call, Event.abortReturned call ∈ s.log → call < s.aborts.length

theorem recorded_start : Recorded {} where
  submitted := by simp
  returned := by simp

theorem bystander {s t : State} {a : Action V} {x : StreamId} {p : Stream} (hs : Chained s)
    (h : next reading classify s a = some t) (hx : s.streams[x]? = some p) (hother : ∀ input, a ≠ .thread x input)
    (hpc : p.pc ≠ .unstarted) : ∃ b, t.streams[x]? = some { p with aborted := b } ∧ (p.aborted = true → b = true) := by
  have hlt := (List.getElem?_eq_some_iff.mp hx).1
  have hsame : t.streams[x]? = some p → ∃ b, t.streams[x]? = some { p with aborted := b } ∧ (p.aborted = true → b = true) :=
    fun hx => ⟨p.aborted, hx, id⟩
  cases a with
  | submit source sessionId started =>
      simp only [next] at h
      split at h
      · cases h
      · cases h
        refine hsame ?_
        simp only [create]
        rw [List.getElem?_append_left hlt]
        exact hx
  | abort =>
      cases h
      simp only [cancelPending, List.getElem?_mapIdx, hx, Option.map_some]
      split
      · exact ⟨true, rfl, fun _ => rfl⟩
      · exact ⟨p.aborted, rfl, id⟩
  | abortStep call =>
      simp only [next] at h
      split at h <;> cases h <;> exact hsame hx
  | shutdown =>
      cases h
      exact hsame hx
  | thread y input =>
      simp only [next] at h
      obtain ⟨q, hy, hstep⟩ := Option.bind_eq_some_iff.mp h
      have hxy : x ≠ y := fun heq => hother input (by rw [heq])
      rcases (threadStep_change hy hstep).other hxy hx with hkept | ⟨hstarting, _⟩
      · exact hsame hkept
      · -- only a stream that has not been started is started
        obtain ⟨k, hk, _, hunstarted⟩ := hs.child y q x hy hstarting
        rw [hx] at hk
        cases hk
        exact absurd hunstarted hpc

-- What a thread does to the registrations and to the rest of the state.
structure Quiet (s t : State) (x : StreamId) : Prop where
  aborts : t.aborts = s.aborts
  others : ∀ y, y ≠ x → y ∈ s.pending → y ∈ t.pending

theorem Quiet.of_same {s t : State} {x : StreamId} (haborts : t.aborts = s.aborts) (hpending : t.pending = s.pending) :
    Quiet s t x := ⟨haborts, fun _ _ h => hpending ▸ h⟩

theorem Quiet.of_register {s t : State} {x : StreamId} (haborts : t.aborts = s.aborts)
    (hpending : t.pending = (s.register x).pending) : Quiet s t x := by
  refine ⟨haborts, fun y _ hy => ?_⟩
  rw [hpending, State.register]
  dsimp only
  split
  · exact hy
  · exact List.mem_append_left _ hy

theorem Quiet.of_discard {s t : State} {x : StreamId} (haborts : t.aborts = s.aborts)
    (hpending : t.pending = (s.discard x).pending) : Quiet s t x := by
  refine ⟨haborts, fun y hne hy => ?_⟩
  rw [hpending]
  exact List.mem_filter.mpr ⟨hy, by simpa using hne⟩

theorem threadStep_quiet {s t : State} {x : StreamId} {h : Stream} {input : Input V}
    (hstep : threadStep reading classify s x h input = some t) : Quiet s t x := by
  have hdecide : ∀ {c : String} {stored : Option (Option (Payload V))} {jitter : ℚ},
      Quiet s (decideRetry reading classify s x h c stored jitter) x := by
    intro c stored jitter
    unfold decideRetry
    split
    · exact .of_same rfl rfl
    · split
      · exact .of_same rfl rfl
      · dsimp only
        split
        · exact .of_same rfl rfl
        · split <;> exact .of_same rfl rfl
  have hreload : ∀ {c : String} {plan : Plan} {stored : Option (Option (Payload V))},
      Quiet s (reloadPolicy reading s x h c plan stored) x := by
    intro c plan stored
    unfold reloadPolicy
    dsimp only
    split <;> exact .of_same rfl rfl
  unfold threadStep at hstep
  split at hstep
  all_goals first
    | (cases hstep; exact .of_same rfl rfl)
    | (cases hstep; split <;> exact .of_same rfl rfl)
    | (split at hstep <;> cases hstep <;> exact .of_same rfl rfl)
    | (cases hstep; exact .of_register rfl rfl)
    | (cases hstep; exact .of_discard rfl rfl)
    | (cases hstep; exact hdecide)
    | (cases hstep; exact hreload)
    | cases hstep

theorem mem_register (s : State) (x : StreamId) : x ∈ (s.register x).pending := by
  unfold State.register
  dsimp only
  split
  · assumption
  · simp

theorem threadStep_pending {s t : State} {x : StreamId} {h : Stream} {input : Input V}
    (hstep : threadStep reading classify s x h input = some t) :
    (h.pc.registers = true → x ∈ t.pending ∧ input = .step) ∧
      (h.pc.holds = true → h.pc ≠ .rechecking → t.pending = s.pending) := by
  unfold threadStep at hstep
  split at hstep
  all_goals rename_i hpc
  case h_32 => cases hstep
  all_goals
    rw [hpc]
    refine ⟨?_, ?_⟩
  all_goals first
    | (intro hfalse; exact absurd hfalse Bool.false_ne_true)
    | (intro _; cases hstep; exact ⟨mem_register s x, rfl⟩)
    | (intro _ hne; exact absurd rfl hne)
    | (intro _ _; cases hstep; rfl)
    | (intro _ _; split at hstep <;> cases hstep <;> rfl)
    | (intro _ _; cases hstep; unfold reloadPolicy; dsimp only; split <;> rfl)

theorem Local.holds {h z : Stream} (hlocal : Local classify h z) (hholds : z.pc.holds = true) :
    z.aborted = h.aborted ∧ (h.pc.holds = true ∧ h.pc ≠ .rechecking ∨ h.pc.registers = true) := by
  cases hlocal with
  | chunk hpc =>
      simp only [hpc] at hholds
      cases hholds
  | move hmoves =>
      refine ⟨rfl, ?_⟩
      generalize h.pc = before at hmoves
      cases hmoves <;> first
        | exact absurd hholds Bool.false_ne_true
        | exact .inl ⟨rfl, by simp⟩
        | exact .inr rfl
  | link hpc => exact ⟨rfl, .inl ⟨by rw [hpc]; rfl, by simp [hpc]⟩⟩
  | _ => cases hholds

theorem Noted.no_return {s : State} {h : Stream} {x : StreamId} {new : List Event} (hnoted : Noted reading s h x new)
    (call : Nat) : Event.abortReturned call ∉ new := by
  cases hnoted <;> simp

theorem Clean.grow {s t : State} {r : StreamId} {new : List Event} (h : Clean s r) (haborts : t.aborts = s.aborts)
    (hlog : t.log = s.log ++ new) (hnew : ∀ call, Event.abortReturned call ∉ new) : Clean t r := by
  refine ⟨haborts ▸ h.1, fun call hcall hsub => ?_⟩
  rw [haborts] at hcall
  rw [hlog] at hsub
  exact h.2 call hcall (Lib.pair_of_append hsub (hnew call))

-- Whoever is on the way to a submission is marked, or in the registry of a run that nobody has stopped.
def Held (s : State) : Prop :=
  ∀ (x : StreamId) (h : Stream), s.streams[x]? = some h → h.pc.holds = true →
    h.aborted = true ∨ (x ∈ s.pending ∧ Clean s h.logicalId)

theorem Held.thread {s t : State} {y : StreamId} {q : Stream} {input : Input V} (hs : Held s)
    (htimely : Timely s (.thread y input)) (hy : s.streams[y]? = some q)
    (hstep : threadStep reading classify s y q input = some t) : Held t := by
  obtain ⟨new, hlog, hnoted⟩ := threadStep_log hstep
  have hquiet := threadStep_quiet hstep
  obtain ⟨hregisters, hpending⟩ := threadStep_pending hstep
  have hchange := threadStep_change hy hstep
  have hgrow : ∀ {r : StreamId}, Clean s r → Clean t r := fun h => h.grow hquiet.aborts hlog hnoted.no_return
  -- the thread that acts
  have hself : ∀ {z : Stream}, z.aborted = q.aborted → z.logicalId = q.logicalId →
      (q.pc.holds = true ∧ q.pc ≠ .rechecking ∨ q.pc.registers = true) →
      z.aborted = true ∨ (y ∈ t.pending ∧ Clean t z.logicalId) := by
    intro z haborted hlogical hbefore
    rw [haborted, hlogical]
    rcases hbefore with ⟨hholds, hne⟩ | hreg
    · rw [hpending hholds hne]
      exact (hs y q hy hholds).imp_right fun h => ⟨h.1, hgrow h.2⟩
    · obtain ⟨hmem, rfl⟩ := hregisters hreg
      exact (htimely.2 q hy hreg).imp_right fun h => ⟨hmem, hgrow h⟩
  intro x z hz hholds
  by_cases hxy : x = y
  · subst hxy
    cases hchange with
    | same hpc ht =>
        rw [ht, hy] at hz
        cases hz
        rw [hpc] at hholds
        cases hholds
    | own q' hlocal ht =>
        rw [ht, List.getElem?_set_self (List.getElem?_eq_some_iff.mp hy).1] at hz
        cases hz
        obtain ⟨haborted, hbefore⟩ := hlocal.holds hholds
        exact hself haborted (congrArg Identity.logicalId hlocal.identity) hbefore
    | created kind hpc ht =>
        have hlt := (List.getElem?_eq_some_iff.mp hy).1
        rw [ht, List.getElem?_append_left (by simpa using hlt), List.getElem?_set_self hlt] at hz
        cases hz
        exact hself rfl rfl (.inl ⟨by rw [hpc]; rfl, by simp [hpc]⟩)
    | started child hpc ht =>
        have hlt := (List.getElem?_eq_some_iff.mp hy).1
        rw [ht, List.getElem?_set_self (by simpa using hlt)] at hz
        cases hz
        exact hself rfl rfl (.inl ⟨by rw [hpc]; rfl, by simp [hpc]⟩)
  · rcases (hchange.change hy).stream hz with ⟨old, hold, _⟩ | ⟨rfl, happears⟩
    · rcases hchange.other hxy hold with hkept | ⟨_, hdraining⟩
      · rw [hz] at hkept
        cases hkept
        exact (hs x _ hold hholds).imp_right fun h => ⟨hquiet.others x hxy h.1, hgrow h.2⟩
      · rw [hz] at hdraining
        cases hdraining
        cases hholds
    · cases happears with
      | root hpc => rcases hpc with rfl | rfl <;> cases hholds
      | successor _ _ => rename_i kind _ _; cases kind <;> cases hholds

theorem Held.next {s t : State} {a : Action V} (hs : Held s) (htimely : Timely s a)
    (h : next reading classify s a = some t) : Held t := by
  cases a with
  | submit source sessionId started =>
      simp only [Streams.next] at h
      split at h
      · cases h
      · cases h
        intro x z hz hholds
        simp only [create] at hz
        rcases Lib.getElem?_concat_cases hz with hold | ⟨_, rfl⟩
        · refine (hs x z hold hholds).imp_right fun hclean => ⟨hclean.1, ?_⟩
          exact hclean.2.grow rfl rfl (by simp)
        · cases started <;> cases hholds
  | thread x input =>
      simp only [Streams.next] at h
      obtain ⟨q, hy, hstep⟩ := Option.bind_eq_some_iff.mp h
      exact hs.thread htimely hy hstep
  | abort =>
      cases h
      intro x z hz hholds
      simp only [cancelPending] at hz
      rw [List.getElem?_mapIdx] at hz
      obtain ⟨old, hold, rfl⟩ := Option.map_eq_some_iff.mp hz
      split at hholds
      · rename_i hmem
        rw [if_pos hmem]
        exact .inl rfl
      · rename_i hmem
        rw [if_neg hmem]
        exact .inl ((hs x old hold hholds).elim id fun h => absurd h.1 hmem)
  | abortStep call =>
      -- an `abort` that is under way has marked everybody
      have hmarked : ∀ pc, s.aborts[call]? = some pc → pc ≠ .returned → ∀ (x : StreamId) (z : Stream),
          s.streams[x]? = some z → z.pc.holds = true → z.aborted = true := by
        intro pc hpc hne x z hz hholds
        refine (hs x z hz hholds).elim id fun hclean => absurd (hclean.2.1 pc (List.mem_of_getElem? hpc)) hne
      simp only [Streams.next] at h
      split at h
      · rename_i hpc
        cases h
        exact fun x z hz hholds => .inl (hmarked _ hpc (by simp) x z hz hholds)
      · rename_i hpc
        cases h
        exact fun x z hz hholds => .inl (hmarked _ hpc (by simp) x z hz hholds)
      · cases h
  | shutdown =>
      cases h
      intro x z hz hholds
      refine (hs x z hz hholds).imp_right fun hclean => ⟨hclean.1, ?_⟩
      exact hclean.2.grow rfl (List.append_nil _).symm (by simp)

theorem Noted.unknown {s : State} {h : Stream} {x : StreamId} {new : List Event} (hnoted : Noted reading s h x new)
    {y : StreamId} (hy : Event.submitted y ∈ new) : y = s.streams.length := by
  cases hnoted <;> simp_all

theorem next_log {s t : State} {a : Action V} (h : next reading classify s a = some t) :
    ∃ new, t.log = s.log ++ new ∧ (∀ y, Event.submitted y ∈ new → y = s.streams.length) ∧
      ∀ call, Event.abortReturned call ∈ new → t.streams = s.streams := by
  cases a with
  | submit source sessionId started =>
      simp only [next] at h
      split at h
      · cases h
      · cases h
        exact ⟨_, rfl, by simp, by simp⟩
  | thread x input =>
      simp only [next] at h
      obtain ⟨q, _, hstep⟩ := Option.bind_eq_some_iff.mp h
      obtain ⟨new, hlog, hnoted⟩ := threadStep_log hstep
      exact ⟨new, hlog, fun y hy => hnoted.unknown hy, fun call hmem => absurd hmem (hnoted.no_return call)⟩
  | abort =>
      cases h
      exact ⟨_, rfl, by simp, by simp⟩
  | abortStep call =>
      simp only [next] at h
      split at h
      · cases h
        exact ⟨_, rfl, by simp, by simp⟩
      · cases h
        exact ⟨_, rfl, by simp, fun _ _ => rfl⟩
      · cases h
  | shutdown =>
      cases h
      exact ⟨[], (List.append_nil _).symm, by simp, by simp⟩

theorem threadStep_submitting {s t : State} {x : StreamId} {h : Stream} {kind : Kind} {input : Input V}
    (hpc : h.pc = .submitting kind) (hstep : threadStep reading classify s x h input = some t) :
    t = s.goto x .ending ∨ t = s.goto x .failing ∨
      t = (create s (h.successor x kind)).goto x (.starting s.streams.length) := by
  unfold threadStep at hstep
  rw [hpc] at hstep
  cases input with
  | raises detail =>
      cases hstep
      exact .inl rfl
  | call ok =>
      cases ok with
      | false =>
          cases hstep
          exact .inr (.inl rfl)
      | true =>
          dsimp only at hstep
          split at hstep
          · cases hstep
          · cases hstep
            exact .inr (.inr rfl)
  | step | next _ | done _ | empty | config _ _ | wake _ => cases hstep

@[simp] theorem goto_length (s : State) (x : StreamId) (pc : Pc) : (s.goto x pc).streams.length = s.streams.length :=
  List.length_modify _ _ _

@[simp] theorem create_length (s : State) (h : Stream) : (create s h).streams.length = s.streams.length + 1 := by
  simp [create]

theorem threadStep_submitted {s t : State} {x : StreamId} {h : Stream} {input : Input V} (hx : s.streams[x]? = some h)
    (hstep : threadStep reading classify s x h input = some t) :
    t.streams.length = s.streams.length ∨
      t.streams.length = s.streams.length + 1 ∧ Event.submitted s.streams.length ∈ t.log := by
  cases threadStep_change hx hstep with
  | same _ ht => exact .inl (by rw [ht])
  | own _ _ ht => exact .inl (by simp [ht])
  | started _ _ ht => exact .inl (by simp [ht])
  | created kind hpc _ =>
      rcases threadStep_submitting hpc hstep with rfl | rfl | rfl
      · exact .inl (goto_length _ _ _)
      · exact .inl (goto_length _ _ _)
      · exact .inr ⟨by simp, by simp [create]⟩

theorem Recorded.next {s t : State} {a : Action V} (hs : Recorded s) (h : next reading classify s a = some t) : Recorded t := by
  obtain ⟨new, hlog, _, _⟩ := next_log h
  have hkept : ∀ x, x < s.streams.length → Event.submitted x ∈ t.log := by
    intro x hlt
    rw [hlog]
    exact List.mem_append_left _ (hs.submitted x hlt)
  have hgrown : t.streams.length = s.streams.length ∨
      t.streams.length = s.streams.length + 1 ∧ Event.submitted s.streams.length ∈ t.log := by
    cases a with
    | submit source sessionId started =>
        simp only [Streams.next] at h
        split at h
        · cases h
        · cases h
          exact .inr ⟨create_length _ _, by simp [create]⟩
    | thread x input =>
        simp only [Streams.next] at h
        obtain ⟨q, hx, hstep⟩ := Option.bind_eq_some_iff.mp h
        exact threadStep_submitted hx hstep
    | abort =>
        cases h
        exact .inl (by simp [cancelPending])
    | abortStep call =>
        simp only [Streams.next] at h
        split at h <;> cases h <;> exact .inl rfl
    | shutdown =>
        cases h
        exact .inl rfl
  refine ⟨?_, ?_⟩
  · intro x hlt
    rcases hgrown with hsame | ⟨hmore, hmem⟩
    · exact hkept x (hsame ▸ hlt)
    · rw [hmore] at hlt
      rcases Nat.lt_succ_iff_lt_or_eq.mp hlt with hlt | rfl
      · exact hkept x hlt
      · exact hmem
  · intro call hmem
    cases a with
    | submit source sessionId started =>
        simp only [Streams.next] at h
        split at h
        · cases h
        · cases h
          exact hs.returned call (by simpa [create] using hmem)
    | thread x input =>
        simp only [Streams.next] at h
        obtain ⟨q, _, hstep⟩ := Option.bind_eq_some_iff.mp h
        obtain ⟨new, hlog, hnoted⟩ := threadStep_log hstep
        rw [hlog] at hmem
        rw [(threadStep_quiet hstep).aborts]
        exact hs.returned call ((List.mem_append.mp hmem).elim id fun hnew => absurd hnew (hnoted.no_return call))
    | abort =>
        cases h
        have hlt := hs.returned call (by simpa using hmem)
        simpa using Nat.lt_succ_of_lt hlt
    | abortStep other =>
        simp only [Streams.next] at h
        split at h
        · cases h
          simpa using hs.returned call (by simpa using hmem)
        · rename_i hother
          cases h
          rw [List.length_set]
          rcases List.mem_append.mp hmem with hold | hnew
          · exact hs.returned call hold
          · cases List.mem_singleton.mp hnew
            exact (List.getElem?_eq_some_iff.mp hother).1
        · cases h
    | shutdown =>
        cases h
        exact hs.returned call hmem

-- Between the submission of a stream and the call of `agent.abort` for it.
inductive Stopping (p : Stream) (c : StreamId) : Prop
  | submitted (haborted : p.aborted = true) (hpc : p.pc = .starting c ∨ p.pc = .linking c ∨ p.pc = .rechecking)
  | seen (hpc : p.pc = .aborting)

theorem Stopping.mark {p : Stream} {c : StreamId} (h : Stopping p c) {b : Bool} (hb : p.aborted = true → b = true) :
    Stopping { p with aborted := b } c := by
  cases h with
  | submitted haborted hpc => exact .submitted (hb haborted) hpc
  | seen hpc => exact .seen hpc

theorem Stopping.not_unstarted {p : Stream} {c : StreamId} (h : Stopping p c) : p.pc ≠ .unstarted := by
  intro hpc
  cases h with
  | submitted _ hwhere =>
      rw [hpc] at hwhere
      rcases hwhere with hwhere | hwhere | hwhere <;> cases hwhere
  | seen hwhere =>
      rw [hpc] at hwhere
      cases hwhere

theorem starting_called {s : State} {x c : StreamId} {p : Stream} (hs : Chained s) (hx : s.streams[x]? = some p)
    (hpc : p.pc = .starting c) :
    ∃ t, threadStep reading classify s x p (.call true) = some t ∧ t.log = s.log ∧
      t.streams[x]? = some { p with pc := .linking c } := by
  have hother : c ≠ x := by
    rintro rfl
    obtain ⟨k, hk, _, hunstarted⟩ := hs.child c p c hx hpc
    rw [hx] at hk
    cases hk
    rw [hpc] at hunstarted
    cases hunstarted
  unfold threadStep
  rw [hpc]
  refine ⟨_, rfl, rfl, ?_⟩
  rw [if_pos rfl, goto_self]
  simp only [State.goto, State.update]
  rw [List.getElem?_modify_ne _ _ hother, hx]
  rfl

theorem Stopping.step {s t : State} {x c : StreamId} {p : Stream} {input : Input V} (hs : Chained s) (hstop : Stopping p c)
    (hstarts : Starts s (.thread x input)) (hx : s.streams[x]? = some p)
    (hstep : threadStep reading classify s x p input = some t) :
    t.log = s.log ++ [.agentAbort] ∨ ∃ q, t.streams[x]? = some q ∧ Stopping q c := by
  have hlt := (List.getElem?_eq_some_iff.mp hx).1
  cases hstop with
  | submitted haborted hpc =>
      rcases hpc with hpc | hpc | hpc
      · have hcall : input = .call true := by
          unfold threadStep at hstep
          rw [hpc] at hstep
          cases input with
          | call ok =>
              have hok := hstarts c (by rw [hx, Option.map_some, hpc])
              rw [hok]
          | _ => cases hstep
        obtain ⟨u, hu, _, hx'⟩ := @starting_called V reading classify s x c p hs hx hpc
        rw [hcall, hu] at hstep
        cases hstep
        exact .inr ⟨_, hx', .submitted haborted (.inr (.inl rfl))⟩
      all_goals
        unfold threadStep at hstep
        rw [hpc] at hstep
      · cases input with
        | step =>
            cases hstep
            refine .inr ⟨{ p with continuation := some c, pc := .rechecking }, ?_, .submitted haborted (.inr (.inr rfl))⟩
            rw [update_streams hx, List.getElem?_set_self hlt]
        | _ => cases hstep
      · cases input with
        | step =>
            cases hstep
            refine .inr ⟨{ p with pc := .aborting }, ?_, .seen rfl⟩
            rw [goto_self, if_pos haborted, State.discard, hx]
            rfl
        | _ => cases hstep
  | seen hpc =>
      unfold threadStep at hstep
      rw [hpc] at hstep
      cases input with
      | step =>
          cases hstep
          exact .inl rfl
      | _ => cases hstep

-- A stream that is submitted after an `abort` has returned is followed by a call of `agent.abort`, or will be.
def Answered (s : State) : Prop :=
  ∀ (c : StreamId) (k : Stream) (x : StreamId), s.streams[c]? = some k → k.retryOf = some x →
    (∀ call, ¬ [Event.submitted k.logicalId, .abortReturned call, .submitted c].Sublist s.log) ∨
    [Event.submitted c, .agentAbort].Sublist s.log ∨ ∃ p, s.streams[x]? = some p ∧ Stopping p c

theorem Stopping.next {s t : State} {a : Action V} {x c : StreamId} {p : Stream} (hstop : Stopping p c) (hs : Chained s)
    (hstarts : Starts s a) (hx : s.streams[x]? = some p) (h : Streams.next reading classify s a = some t) :
    t.log = s.log ++ [.agentAbort] ∨ ∃ q, t.streams[x]? = some q ∧ Stopping q c := by
  by_cases hacts : ∃ input, a = .thread x input
  · obtain ⟨input, rfl⟩ := hacts
    simp only [Streams.next] at h
    rw [hx, Option.bind_some] at h
    exact hstop.step hs hstarts hx h
  · obtain ⟨b, hx', hb⟩ := bystander hs h hx (fun input heq => hacts ⟨input, heq⟩) hstop.not_unstarted
    exact .inr ⟨_, hx', hstop.mark hb⟩

theorem successor_logicalId (h : Stream) (x : StreamId) (kind : Kind) : (h.successor x kind).logicalId = h.logicalId := by
  cases kind <;> rfl

theorem Answered.next {s t : State} {a : Action V} (hs : Answered s) (hchained : Chained s) (hheld : Held s)
    (hrecorded : Recorded s) (htimely : Timely s a) (h : Streams.next reading classify s a = some t) : Answered t := by
  have hchange := next_change h
  obtain ⟨new, hlog, hnew, hreturned⟩ := next_log h
  intro c z x hz hretry
  rcases hchange.stream hz with ⟨k, hk, hevolves⟩ | ⟨rfl, _⟩
  · have hlt := (List.getElem?_eq_some_iff.mp hk).1
    have hlogical : z.logicalId = k.logicalId := congrArg Identity.logicalId hevolves.identity
    rcases hs c k x hk (hevolves.retryOf ▸ hretry) with hnone | hcalled | ⟨p, hp, hstop⟩
    · refine .inl fun call hsub => hnone call ?_
      rw [hlogical, hlog] at hsub
      exact Lib.triple_of_append hsub fun hmem => Nat.ne_of_lt hlt (hnew c hmem)
    · rw [hlog]
      exact .inr (.inl (Lib.ordered_grow hcalled))
    · rcases hstop.next hchained htimely.1 hp h with hcalled | hstop
      · rw [hcalled]
        exact .inr (.inl (Lib.pair_of_mem (hrecorded.submitted c hlt) (by simp)))
      · exact .inr (.inr hstop)
  · rcases hchange.new hz with ⟨hnone, _⟩ | ⟨y, p, kind, hy, hpc, rfl, hy'⟩
    · rw [hnone] at hretry
      cases hretry
    · rw [successor_retryOf] at hretry
      cases hretry
      rcases hheld x p hy (by rw [hpc]; rfl) with haborted | ⟨_, hclean⟩
      · exact .inr (.inr ⟨_, hy', .submitted haborted (.inl rfl)⟩)
      · refine .inl fun call hsub => ?_
        have hnot : Event.abortReturned call ∉ new := by
          intro hmem
          rw [hreturned call hmem, List.getElem?_eq_none (Nat.le_refl _)] at hz
          cases hz
        have hpair : [Event.submitted p.logicalId, .abortReturned call].Sublist s.log := by
          rw [hlog, successor_logicalId] at hsub
          exact Lib.pair_of_append (List.Sublist.trans (by simp) hsub) hnot
        exact hclean.2 call (hrecorded.returned call (hpair.subset (by simp))) hpair

structure Stoppable (s : State) : Prop where
  chained : Chained s
  held : Held s
  recorded : Recorded s
  answered : Answered s

theorem stoppable_start : Stoppable {} where
  chained := chained_start
  held := fun x h hx _ => by simp at hx
  recorded := recorded_start
  answered := fun c k x hc _ => by simp at hc

theorem Stoppable.next {s t : State} {a : Action V} (hs : Stoppable s) (htimely : Timely s a)
    (h : Streams.next reading classify s a = some t) : Stoppable t where
  chained := hs.chained.next (next_change h)
  held := hs.held.next htimely h
  recorded := hs.recorded.next h
  answered := hs.answered.next hs.chained hs.held hs.recorded htimely h

theorem reachable_stoppable {s : State} (hs : ((machine reading classify).restrict Timely).Reachable s) : Stoppable s :=
  hs.invariant stoppable_start fun s a t hs h => by
    obtain ⟨htimely, hnext⟩ := Lib.Machine.restrict_next h
    exact hs.next htimely hnext

section Calls

variable (M : Lib.Machine State (Action V))

-- The thread of `x`, left alone, calls `agent.abort` after the submission of `c`.
def CallsAbort (s : State) (x c : StreamId) : Prop :=
  ∃ (inputs : List (Input V)) (t : State), M.run s (inputs.map (.thread x)) = some t ∧
    [Event.submitted c, .agentAbort].Sublist t.log

end Calls

theorem CallsAbort.cons {M : Lib.Machine State (Action V)} {s t : State} {x c : StreamId} {input : Input V}
    (h : M.next s (.thread x input) = some t) (hrest : CallsAbort M t x c) : CallsAbort M s x c := by
  obtain ⟨inputs, u, hrun, hcalled⟩ := hrest
  refine ⟨input :: inputs, u, ?_, hcalled⟩
  simp only [List.map_cons, Lib.Machine.run]
  rw [h, Option.bind_some]
  exact hrun

theorem restricted_step {s t : State} {x : StreamId} {p : Stream} {input : Input V} (hx : s.streams[x]? = some p)
    (htimely : Timely s (.thread x input)) (hstep : threadStep reading classify s x p input = some t) :
    ((machine reading classify).restrict Timely).next s (.thread x input) = some t := by
  have hnext : next reading classify s (.thread x input) = some t := by
    simp only [next]
    rw [hx, Option.bind_some]
    exact hstep
  simp only [Lib.Machine.restrict, machine]
  rw [if_pos htimely]
  exact hnext

theorem timely_step {s : State} {x : StreamId} {p : Stream} (hx : s.streams[x]? = some p) (hpc : p.pc.registers = false) :
    Timely s (.thread x .step : Action V) := by
  refine ⟨trivial, fun h hh hregisters => ?_⟩
  rw [hx] at hh
  cases hh
  rw [hpc] at hregisters
  cases hregisters

section Finish

variable {s : State} {x c : StreamId} {p : Stream} (hx : s.streams[x]? = some p) (hc : Event.submitted c ∈ s.log)

include hx hc

theorem calls_aborting (hpc : p.pc = .aborting) : CallsAbort ((machine reading classify).restrict Timely) s x c := by
  have hstep : threadStep reading classify s x p .step = some ((s.note .agentAbort).goto x .ending) := by
    unfold threadStep
    rw [hpc]
  refine .cons (restricted_step hx (timely_step hx (by rw [hpc]; rfl)) hstep) ⟨[], _, rfl, ?_⟩
  exact Lib.pair_of_mem hc (by simp)

theorem calls_rechecking (hpc : p.pc = .rechecking) (haborted : p.aborted = true) :
    CallsAbort ((machine reading classify).restrict Timely) s x c := by
  have hstep : threadStep reading classify s x p .step = some ((s.discard x).goto x .aborting) := by
    unfold threadStep
    rw [hpc, haborted]
    rfl
  refine .cons (restricted_step hx (timely_step hx (by rw [hpc]; rfl)) hstep) (calls_aborting (p := { p with pc := .aborting }) ?_ hc rfl)
  rw [goto_self, State.discard, hx]
  rfl

theorem calls_linking {child : StreamId} (hpc : p.pc = .linking child) (haborted : p.aborted = true) :
    CallsAbort ((machine reading classify).restrict Timely) s x c := by
  have hstep : threadStep reading classify s x p .step =
      some (s.update x fun h => { h with continuation := some child, pc := .rechecking }) := by
    unfold threadStep
    rw [hpc]
  refine .cons (restricted_step hx (timely_step hx (by rw [hpc]; rfl)) hstep)
    (calls_rechecking (p := { p with continuation := some child, pc := .rechecking }) ?_ hc rfl haborted)
  rw [update_streams hx, List.getElem?_set_self (List.getElem?_eq_some_iff.mp hx).1]

end Finish

theorem Stopping.calls {s : State} {x c : StreamId} {p : Stream} (hs : Chained s) (hx : s.streams[x]? = some p)
    (hc : Event.submitted c ∈ s.log) (hstop : Stopping p c) :
    CallsAbort ((machine reading classify).restrict Timely) s x c := by
  cases hstop with
  | seen hpc => exact calls_aborting hx hc hpc
  | submitted haborted hpc =>
      rcases hpc with hpc | hpc | hpc
      · obtain ⟨t, hstep, hlog, hx'⟩ := @starting_called V reading classify s x c p hs hx hpc
        have htimely : Timely s (.thread x (.call true) : Action V) := ⟨fun _ _ => rfl, trivial⟩
        exact .cons (restricted_step hx htimely hstep) (calls_linking hx' (hlog ▸ hc) rfl haborted)
      · exact calls_linking hx hc hpc haborted
      · exact calls_rechecking hx hc hpc haborted

-- No run springs back to life: what it submits after an `abort` has returned is stopped again.
theorem no_resurrection {s : State} (hs : ((machine reading classify).restrict Timely).Reachable s) {r c : StreamId}
    {k : Stream} {call : Nat} (hc : s.streams[c]? = some k) (hrun : k.logicalId = r) (hfurther : c ≠ r)
    (hafter : [Event.submitted r, .abortReturned call, .submitted c].Sublist s.log) :
    [Event.submitted c, .agentAbort].Sublist s.log ∨
      ∃ x p, k.retryOf = some x ∧ s.streams[x]? = some p ∧ Stopping p c ∧
        CallsAbort ((machine reading classify).restrict Timely) s x c := by
  have hstoppable := reachable_stoppable hs
  cases hretry : k.retryOf with
  | none => exact absurd ((hstoppable.chained.root c k hc hretry).1.symm.trans hrun) hfurther
  | some x =>
      rcases hstoppable.answered c k x hc hretry with hnone | hcalled | ⟨p, hx, hstop⟩
      · rw [hrun] at hnone
        exact absurd hafter (hnone call)
      · exact .inl hcalled
      · exact .inr ⟨x, p, rfl, hx, hstop, hstop.calls hstoppable.chained hx (hafter.subset (by simp))⟩

-- Between the last look at the snapshot and the submission of the retry, somebody stops the session.
def stoppedLate : List (Action Unit) :=
  [Action.submit "webui" "s" true] ++ finishes 0 "!!!Error: HTTP 503" ++
    [Action.thread 0 .step, .thread 0 (.wake true), .thread 0 .step, .thread 0 (.config none 1), .thread 0 .step,
      .abort, .abortStep 0, .abortStep 0, .thread 0 (.call true), .thread 0 (.call true)]

theorem no_resurrection_late : ∃ (s : State) (k : Stream),
    ((machine plainReading gatewayError).restrict Timely).run {} stoppedLate = some s ∧
      s.streams[1]? = some k ∧ k.logicalId = 0 ∧
      [Event.submitted 0, .abortReturned 0, .submitted 1].Sublist s.log ∧
      ([Event.submitted 1, .agentAbort].Sublist s.log ∨ ∃ x p, k.retryOf = some x ∧ s.streams[x]? = some p ∧ Stopping p 1 ∧
        CallsAbort ((machine plainReading gatewayError).restrict Timely) s x 1) := by
  have hrun : (((machine plainReading gatewayError).restrict Timely).run {} stoppedLate).map
      (fun s => (s.streams[1]?.map Stream.logicalId,
        decide ([Event.submitted 0, .abortReturned 0, .submitted 1].Sublist s.log))) = some (some 0, true) := by
    decide +kernel
  obtain ⟨s, hrun, hfacts⟩ := Option.map_eq_some_iff.mp hrun
  obtain ⟨hstream, hafter⟩ := Prod.mk.inj hfacts
  obtain ⟨k, hk, hlogical⟩ := Option.map_eq_some_iff.mp hstream
  have hafter := of_decide_eq_true hafter
  exact ⟨s, k, hrun, hk, hlogical, hafter, no_resurrection ⟨stoppedLate, hrun⟩ hk hlogical (by decide) hafter⟩

-- The session is stopped between the end of the answer and the decision to retry it.
def stoppedEarly : List (Action Unit) :=
  [Action.submit "webui" "s" true, .thread 0 (.done "!!!Error: HTTP 503"), .thread 0 .step, .thread 0 .step,
    .abort, .abortStep 0, .abortStep 0, .thread 0 (.config none 1)] ++ retries 0 ++ ends 0

theorem ended_silent {s : State} {x c : StreamId} {p : Stream} (hx : s.streams[x]? = some p) (hpc : p.pc = .ended)
    (hcalls : CallsAbort (machine reading classify) s x c) : [Event.submitted c, .agentAbort].Sublist s.log := by
  obtain ⟨inputs, t, hrun, hcalled⟩ := hcalls
  cases inputs with
  | nil =>
      cases hrun
      exact hcalled
  | cons input inputs =>
      have hnone : (machine reading classify).next s (.thread x input) = none := by
        simp only [machine, next]
        rw [hx, Option.bind_some]
        unfold threadStep
        rw [hpc]
      simp only [List.map_cons, Lib.Machine.run] at hrun
      rw [hnone] at hrun
      cases hrun

theorem stopped_run_revived : ¬ ∀ (s : State) (r c : StreamId) (k : Stream) (call : Nat),
    (machine plainReading gatewayError).Reachable s → s.streams[c]? = some k → k.logicalId = r → c ≠ r →
    [Event.submitted r, .abortReturned call, .submitted c].Sublist s.log →
    [Event.submitted c, .agentAbort].Sublist s.log ∨
      ∃ x p, k.retryOf = some x ∧ s.streams[x]? = some p ∧ CallsAbort (machine plainReading gatewayError) s x c := by
  intro h
  have hrun : ((machine plainReading gatewayError).run {} stoppedEarly).map
      (fun s => (s.streams[1]?.map (fun h => (h.logicalId, h.retryOf)), s.streams[0]?.map Stream.pc,
        decide ([Event.submitted 0, .abortReturned 0, .submitted 1].Sublist s.log),
        decide ([Event.submitted 1, .agentAbort].Sublist s.log))) =
      some (some (0, some 0), some .ended, true, false) := by decide +kernel
  obtain ⟨s, hrun, hfacts⟩ := Option.map_eq_some_iff.mp hrun
  obtain ⟨hstream, hrest⟩ := Prod.mk.inj hfacts
  obtain ⟨hended, hrest⟩ := Prod.mk.inj hrest
  obtain ⟨hafter, hsilent⟩ := Prod.mk.inj hrest
  obtain ⟨k, hk, hstream⟩ := Option.map_eq_some_iff.mp hstream
  obtain ⟨hlogical, hretry⟩ := Prod.mk.inj hstream
  obtain ⟨p, hp, hpc⟩ := Option.map_eq_some_iff.mp hended
  have hsilent := of_decide_eq_false hsilent
  rcases h s 0 1 k 0 ⟨stoppedEarly, hrun⟩ hk hlogical (by decide) (of_decide_eq_true hafter) with hcalled | ⟨x, q, hx, hq, hcalls⟩
  · exact hsilent hcalled
  · rw [hretry] at hx
    cases hx
    rw [hp] at hq
    cases hq
    exact hsilent (ended_silent hp hpc hcalls)

end GaHub.Streams
