import GaHub.Streams.Chain

namespace GaHub.Streams

variable {V : Type} {reading : Reading V} {classify : String → Option RecoverableErrorMatch}

section Walks

variable (s : State)

def lastFrom : Nat → StreamId → Option Stream
  | 0, _ => none
  | n + 1, x => s.streams[x]?.bind fun h =>
      match h.continuation with
      | none => some h
      | some y => lastFrom n y

def finishedFrom : Nat → StreamId → Bool
  | 0, _ => false
  | n + 1, x => s.streams[x]?.any fun h =>
      h.fanoutDone && match h.continuation with
        | none => true
        | some y => finishedFrom n y

def runFinalText (x : StreamId) : Option String := (lastFrom s s.streams.length x).map Stream.finalText

def runFinished (x : StreamId) : Bool := finishedFrom s s.streams.length x

def runOutcome (x : StreamId) : Option Outcome :=
  if runFinished s x then (lastFrom s s.streams.length x).bind Stream.outcome else none

end Walks

def Starts (s : State) : Action V → Prop
  | .thread x (.call ok) => ∀ child, s.streams[x]?.map Stream.pc = some (.starting child) → ok = true
  | _ => True

instance (s : State) (a : Action V) : Decidable (Starts s a) := by
  unfold Starts
  split
  · rename_i x ok
    cases ok with
    | true => exact isTrue fun _ _ => rfl
    | false =>
        cases hpc : s.streams[x]?.map Stream.pc with
        | none => exact isTrue (by simp)
        | some pc =>
            cases pc <;> first
              | exact isFalse fun h => by simpa using h _ rfl
              | exact isTrue (by simp)
  · infer_instance

-- The links of the chains: a stream is linked to the one it continues, or about to be.
structure Linked (s : State) : Prop where
  child : ∀ (y : StreamId) (k : Stream) (x : StreamId), s.streams[y]? = some k → k.retryOf = some x →
    ∃ p, s.streams[x]? = some p ∧ (p.pc = .starting y ∨ p.pc = .linking y ∨ p.continuation = some y)
  continuation : ∀ (x : StreamId) (p : Stream) (y : StreamId), s.streams[x]? = some p →
    p.continuation = some y ∨ p.pc = .linking y → ∃ k, s.streams[y]? = some k ∧ k.retryOf = some x
  done : ∀ (x : StreamId) (p : Stream), s.streams[x]? = some p → p.fanoutDone = true → p.pc = .ended

theorem linked_start : Linked {} where
  child := by simp
  continuation := by simp
  done := by simp

theorem goto_self (s : State) (x : StreamId) (pc : Pc) :
    (s.goto x pc).streams[x]? = s.streams[x]?.map fun h => { h with pc } := List.getElem?_modify_eq _ _ _

theorem ThreadChange.other {s t : State} {x y : StreamId} {p q : Stream} (h : ThreadChange classify s t y q) (hne : x ≠ y)
    (hx : s.streams[x]? = some p) :
    t.streams[x]? = some p ∨ (q.pc = .starting x ∧ t.streams[x]? = some { p with pc := .draining }) := by
  cases h with
  | same _ ht => exact .inl (ht ▸ hx)
  | own q' _ ht =>
      rw [ht, List.getElem?_set_ne (Ne.symm hne)]
      exact .inl hx
  | created kind _ ht =>
      have hlt := (List.getElem?_eq_some_iff.mp hx).1
      rw [ht, List.getElem?_append_left (by simpa using hlt), List.getElem?_set_ne (Ne.symm hne)]
      exact .inl hx
  | started child hpc ht =>
      rw [ht, List.getElem?_set_ne (Ne.symm hne)]
      by_cases hchild : child = x
      · rw [hchild, List.getElem?_modify_eq, hx]
        exact .inr ⟨hchild ▸ hpc, rfl⟩
      · rw [List.getElem?_modify_ne _ _ hchild]
        exact .inl hx

theorem call_failed {s t : State} {a : Action V} {x c : StreamId} {p p' : Stream} (h : next reading classify s a = some t)
    (hx : s.streams[x]? = some p) (hp : p.pc = .starting c) (hx' : t.streams[x]? = some p') (hp' : p'.pc = .failing) :
    a = .thread x (.call false) := by
  have hsame : p'.pc ≠ p.pc := by simp [hp, hp']
  cases a with
  | submit source sessionId started =>
      simp only [next] at h
      split at h
      · cases h
      · cases h
        simp only [create] at hx'
        rw [List.getElem?_append_left (List.getElem?_eq_some_iff.mp hx).1, hx] at hx'
        cases hx'
        exact absurd rfl hsame
  | abort =>
      cases h
      simp only [cancelPending] at hx'
      rw [List.getElem?_mapIdx, hx] at hx'
      cases hx'
      exact absurd (by split <;> rfl) hsame
  | abortStep call =>
      simp only [next] at h
      split at h <;> cases h
      all_goals
        rw [hx] at hx'
        cases hx'
        exact absurd rfl hsame
  | shutdown =>
      cases h
      rw [hx] at hx'
      cases hx'
      exact absurd rfl hsame
  | thread y input =>
      simp only [next] at h
      obtain ⟨q, hy, hstep⟩ := Option.bind_eq_some_iff.mp h
      by_cases hxy : x = y
      · subst hxy
        rw [hx] at hy
        cases hy
        cases input with
        | call ok =>
            cases ok with
            | false => rfl
            | true =>
                unfold threadStep at hstep
                rw [hp] at hstep
                cases hstep
                rw [if_pos rfl, goto_self] at hx'
                obtain ⟨_, _, rfl⟩ := Option.map_eq_some_iff.mp hx'
                cases hp'
        | _ =>
            unfold threadStep at hstep
            rw [hp] at hstep
            cases hstep
      · rcases (threadStep_change hy hstep).other hxy hx with hsame' | ⟨_, hdraining⟩
        · rw [hx'] at hsame'
          cases hsame'
          exact absurd rfl hsame
        · rw [hx'] at hdraining
          cases hdraining
          cases hp'

theorem starting_step {s t : State} {a : Action V} {x c : StreamId} {p : Stream} (hs : Chained s)
    (h : next reading classify s a = some t) (hstarts : Starts s a) (hx : s.streams[x]? = some p) (hp : p.pc = .starting c) :
    ∃ p', t.streams[x]? = some p' ∧ (p'.pc = .starting c ∨ p'.pc = .linking c) := by
  obtain ⟨p', hx', hevolves⟩ := (next_change h).keeps hx
  refine ⟨p', hx', ?_⟩
  cases hevolves with
  | same => exact .inl hp
  | marked _ => exact .inl hp
  | starts hpc =>
      rw [hp] at hpc
      cases hpc
      exact .inr rfl
  | submits hpc _ =>
      rw [hp] at hpc
      cases hpc
  | started hw hpc _ =>
      obtain ⟨k, hk, _, hunstarted⟩ := hs.child _ _ x hw hpc
      rw [hx] at hk
      cases hk
      rw [hp] at hunstarted
      cases hunstarted
  | own hlocal =>
      cases hlocal with
      | move hmoves =>
          rw [hp] at hmoves
          cases hmoves with
          | lost =>
              have hcall := call_failed h hx hp hx' rfl
              rw [hcall] at hstarts
              exact absurd (hstarts c (by rw [hx, Option.map_some, hp])) (by decide)
      | crash hpc =>
          rw [hp] at hpc
          rcases hpc with hpc | ⟨_, hpc⟩ <;> cases hpc
      | chunk hpc | read hpc | shutDown hpc | commit hpc | conclude hpc | link hpc | signal hpc =>
          rw [hp] at hpc
          cases hpc

theorem Local.not_ended {h h' : Stream} (hlocal : Local classify h h') : h.pc ≠ .ended := by
  intro hpc
  cases hlocal with
  | move hmoves =>
      rw [hpc] at hmoves
      cases hmoves
  | crash hpc' =>
      rw [hpc] at hpc'
      rcases hpc' with hpc' | ⟨_, hpc'⟩ <;> cases hpc'
  | chunk hpc' | read hpc' | shutDown hpc' | commit hpc' | conclude hpc' | link hpc' | signal hpc' =>
      rw [hpc] at hpc'
      cases hpc'

theorem Local.continuation {h h' : Stream} (hlocal : Local classify h h') :
    h'.continuation = h.continuation ∨ ∃ child, h.pc = .linking child ∧ h'.continuation = some child := by
  cases hlocal with
  | link hpc => exact .inr ⟨_, hpc, rfl⟩
  | _ => exact .inl rfl

theorem Local.fanoutDone {h h' : Stream} (hlocal : Local classify h h') (hdone : h'.fanoutDone = true) :
    h.fanoutDone = true ∨ h'.pc = .ended := by
  cases hlocal with
  | signal _ => exact .inr rfl
  | _ => exact .inl hdone

theorem Evolves.continuation {s t : State} {y : StreamId} {h z : Stream} (hevolves : Evolves classify s t y h z) :
    z.continuation = h.continuation ∨ ∃ child, h.pc = .linking child ∧ z.continuation = some child := by
  cases hevolves with
  | own hlocal => exact hlocal.continuation
  | _ => exact .inl rfl

theorem Evolves.linking {s t : State} {y child : StreamId} {h z : Stream} (hevolves : Evolves classify s t y h z)
    (hpc : z.pc = .linking child) : h.pc = .linking child ∨ h.pc = .starting child := by
  cases hevolves with
  | same => exact .inl hpc
  | marked _ => exact .inl hpc
  | own hlocal =>
      cases hlocal with
      | chunk _ => exact .inl hpc
      | move hmoves =>
          cases hpc
          generalize h.pc = before at hmoves
          cases hmoves
      | _ => cases hpc
  | submits _ _ => cases hpc
  | started _ _ _ => cases hpc
  | starts hbefore =>
      cases hpc
      exact .inr hbefore

theorem Evolves.linked {s t : State} {y child : StreamId} {h z : Stream} (hevolves : Evolves classify s t y h z) (hs : Chained s)
    (hy : s.streams[y]? = some h) (hpc : h.pc = .linking child) : z.pc = .linking child ∨ z.continuation = some child := by
  cases hevolves with
  | same => exact .inl hpc
  | marked _ => exact .inl hpc
  | own hlocal =>
      cases hlocal with
      | chunk _ => exact .inl hpc
      | link hpc' =>
          rw [hpc] at hpc'
          cases hpc'
          exact .inr rfl
      | move hmoves =>
          rw [hpc] at hmoves
          cases hmoves
      | crash hpc' =>
          rw [hpc] at hpc'
          rcases hpc' with hpc' | ⟨_, hpc'⟩ <;> cases hpc'
      | read hpc' | shutDown hpc' | commit hpc' | conclude hpc' | signal hpc' =>
          rw [hpc] at hpc'
          cases hpc'
  | submits hpc' _ =>
      rw [hpc] at hpc'
      cases hpc'
  | starts hpc' =>
      rw [hpc] at hpc'
      cases hpc'
  | started hw hpc' _ =>
      obtain ⟨k, hk, _, hunstarted⟩ := hs.child _ _ y hw hpc'
      rw [hy] at hk
      cases hk
      rw [hpc] at hunstarted
      cases hunstarted

theorem Evolves.ended {s t : State} {y : StreamId} {h z : Stream} (hevolves : Evolves classify s t y h z) (hs : Chained s)
    (hy : s.streams[y]? = some h) (hpc : h.pc = .ended) : z = h ∨ z = { h with aborted := true } := by
  cases hevolves with
  | same => exact .inl rfl
  | marked _ => exact .inr rfl
  | own hlocal => exact absurd hpc hlocal.not_ended
  | submits hpc' _ =>
      rw [hpc] at hpc'
      cases hpc'
  | starts hpc' =>
      rw [hpc] at hpc'
      cases hpc'
  | started hw hpc' _ =>
      obtain ⟨k, hk, _, hunstarted⟩ := hs.child _ _ y hw hpc'
      rw [hy] at hk
      cases hk
      rw [hpc] at hunstarted
      cases hunstarted

-- A link leads to a stream that continues this one, and a thread that has signalled has ended.
structure Joined (s : State) : Prop where
  continuation : ∀ (x : StreamId) (p : Stream) (y : StreamId), s.streams[x]? = some p →
    p.continuation = some y ∨ p.pc = .linking y → ∃ k, s.streams[y]? = some k ∧ k.retryOf = some x
  done : ∀ (x : StreamId) (p : Stream), s.streams[x]? = some p → p.fanoutDone = true → p.pc = .ended

theorem Joined.next {s t : State} (hs : Joined s) (hchained : Chained s) (hchange : Change classify s t) : Joined t where
  continuation := by
    have hkeeps : ∀ {y : StreamId} {k : Stream} {x : StreamId}, s.streams[y]? = some k → k.retryOf = some x →
        ∃ z, t.streams[y]? = some z ∧ z.retryOf = some x := by
      intro y k x hk hretry
      obtain ⟨z, hz, hevolves⟩ := hchange.keeps hk
      exact ⟨z, hz, hevolves.retryOf.trans hretry⟩
    intro x z y hz hlink
    rcases hchange.stream hz with ⟨p, hp, hevolves⟩ | ⟨rfl, happears⟩
    · have hbefore : p.continuation = some y ∨ p.pc = .linking y ∨ p.pc = .starting y := by
        rcases hlink with hcontinuation | hpc
        · rcases hevolves.continuation with hsame | ⟨child, hpc, hset⟩
          · exact .inl (hsame ▸ hcontinuation)
          · rw [hset] at hcontinuation
            cases hcontinuation
            exact .inr (.inl hpc)
        · exact .inr (hevolves.linking hpc)
      rcases hbefore with hbefore | hbefore | hbefore
      · obtain ⟨k, hk, hretry⟩ := hs.continuation x p y hp (.inl hbefore)
        exact hkeeps hk hretry
      · obtain ⟨k, hk, hretry⟩ := hs.continuation x p y hp (.inr hbefore)
        exact hkeeps hk hretry
      · obtain ⟨k, hk, hretry, _⟩ := hchained.child x p y hp hbefore
        exact hkeeps hk hretry
    · cases happears with
      | root hpc =>
          rcases hlink with hlink | hlink
          · cases hlink
          · rcases hpc with rfl | rfl <;> cases hlink
      | successor _ _ => rename_i kind _ _; cases kind <;> rcases hlink with hlink | hlink <;> cases hlink
  done := by
    intro x z hz hdone
    rcases hchange.stream hz with ⟨p, hp, hevolves⟩ | ⟨rfl, happears⟩
    · have hkept : p.fanoutDone = true → z.pc = .ended := by
        intro hdone
        have hpc := hs.done x p hp hdone
        rcases hevolves.ended hchained hp hpc with rfl | rfl <;> exact hpc
      cases hevolves with
      | own hlocal => exact (hlocal.fanoutDone hdone).elim hkept id
      | _ => exact hkept hdone
    · cases happears with
      | root hpc => cases hdone
      | successor _ _ => rename_i kind _ _; cases kind <;> cases hdone

theorem reachable_joined {s : State} (hs : (machine reading classify).Reachable s) : Joined s :=
  hs.invariant_with (Q := Chained) reachable_chained ⟨by simp [machine], by simp [machine]⟩ fun _ _ _ hj hc ha =>
    hj.next hc (next_change ha)

theorem Linked.next {s t : State} {a : Action V} (hs : Linked s) (hchained : Chained s)
    (h : next reading classify s a = some t) (hstarts : Starts s a) : Linked t := by
  have hchange := next_change h
  obtain ⟨hcontinuation, hdone⟩ := Joined.next ⟨hs.continuation, hs.done⟩ hchained hchange
  refine ⟨?_, hcontinuation, hdone⟩
  intro y z x hz hretry
  rcases hchange.stream hz with ⟨k, hk, hevolves⟩ | ⟨rfl, _⟩
  · obtain ⟨p, hp, hlink⟩ := hs.child y k x hk (hevolves.retryOf ▸ hretry)
    obtain ⟨p', hp', hparent⟩ := hchange.keeps hp
    rcases hlink with hstarting | hlinking | hcontinuation
    · obtain ⟨p₂, hp₂, hnext⟩ := starting_step hchained h hstarts hp hstarting
      exact ⟨p₂, hp₂, hnext.imp_right .inl⟩
    · exact ⟨p', hp', .inr (hparent.linked hchained hp hlinking)⟩
    · refine ⟨p', hp', .inr (.inr ?_)⟩
      rcases hparent.continuation with hsame | ⟨child, hpc, hset⟩
      · exact hsame.trans hcontinuation
      · -- what the thread links now continues the same stream
        obtain ⟨l, hl, hretry'⟩ := hs.continuation x p child hp (.inr hpc)
        have heq := hchained.unique child y l k x hl hk hretry' (hevolves.retryOf ▸ hretry)
        rw [hset, heq]
  · rcases hchange.new hz with ⟨hnone, _⟩ | ⟨w, parent, kind, _, _, rfl, hw'⟩
    · rw [hnone] at hretry
      cases hretry
    · rw [successor_retryOf] at hretry
      cases hretry
      exact ⟨_, hw', .inl rfl⟩

theorem reachable_linked {s : State} (hs : ((machine reading classify).restrict Starts).Reachable s) : Linked s :=
  hs.invariant_with (Q := Chained) (fun hs => reachable_chained hs.of_restrict) linked_start fun _ _ _ hl hc ha =>
    hl.next hc (Lib.Machine.restrict_next ha).2 (Lib.Machine.restrict_next ha).1

-- The chain from a stream on has ended, with the last stream of it.
inductive Closed (s : State) : StreamId → Stream → Prop
  | last {x : StreamId} {h : Stream} (hx : s.streams[x]? = some h) (hdone : h.fanoutDone = true)
      (hnone : h.continuation = none) : Closed s x h
  | on {x y : StreamId} {h k : Stream} (hx : s.streams[x]? = some h) (hdone : h.fanoutDone = true)
      (hnext : h.continuation = some y) (hlt : x < y) (hrest : Closed s y k) : Closed s x k

theorem Linked.next_stream {s : State} (hs : Linked s) (hchained : Chained s) {x y : StreamId} {h : Stream}
    (hx : s.streams[x]? = some h) (hnext : h.continuation = some y) :
    x < y ∧ ∃ k, s.streams[y]? = some k ∧ k.logicalId = h.logicalId := by
  obtain ⟨k, hy, hretry⟩ := hs.continuation x h y hx (.inl hnext)
  obtain ⟨hlt, parent, hx', _, hcontinues⟩ := hchained.link y k x hy hretry
  rw [hx] at hx'
  cases hx'
  exact ⟨hlt, k, hy, hcontinues.steps.1⟩

theorem Closed.walks {s : State} {x : StreamId} {k : Stream} (h : Closed s x k) {n : Nat} (hn : s.streams.length ≤ n + x) :
    finishedFrom s n x = true ∧ lastFrom s n x = some k := by
  induction h generalizing n with
  | last hx hdone hnone =>
      have hlt := (List.getElem?_eq_some_iff.mp hx).1
      obtain ⟨m, rfl⟩ : ∃ m, n = m + 1 := ⟨n - 1, by omega⟩
      simp [finishedFrom, lastFrom, hx, hdone, hnone]
  | on hx hdone hnext hlt hrest ih =>
      have hlt' := (List.getElem?_eq_some_iff.mp hx).1
      obtain ⟨m, rfl⟩ : ∃ m, n = m + 1 := ⟨n - 1, by omega⟩
      have hstep := Nat.succ_le_of_lt hlt
      have hrest := ih (n := m) (by omega)
      simp [finishedFrom, lastFrom, hx, hdone, hnext, hrest]

theorem Closed.values {s : State} {x : StreamId} {k : Stream} (h : Closed s x k) :
    runFinished s x = true ∧ runOutcome s x = k.outcome ∧ runFinalText s x = some k.finalText := by
  obtain ⟨hfinished, hlast⟩ := h.walks (n := s.streams.length) (by omega)
  refine ⟨hfinished, ?_, ?_⟩
  · rw [runOutcome, runFinished, hfinished, hlast]
    rfl
  · rw [runFinalText, hlast]
    rfl

theorem Closed.all {s : State} (hs : Linked s) (hchained : Chained s) {r : StreamId} {k : Stream} (h : Closed s r k)
    (y : StreamId) (stream : Stream) (hy : s.streams[y]? = some stream) (hrun : stream.logicalId = r) : ∃ l, Closed s y l := by
  induction y using Nat.strong_induction_on generalizing stream with
  | _ y ih =>
      cases hretry : stream.retryOf with
      | none =>
          have hself := (hchained.root y stream hy hretry).1
          rw [hrun] at hself
          exact ⟨k, hself ▸ h⟩
      | some x =>
          obtain ⟨hlt, parent, hx, _, hcontinues⟩ := hchained.link y stream x hy hretry
          obtain ⟨l, hclosed⟩ := ih x hlt parent hx (hcontinues.steps.1.symm.trans hrun)
          obtain ⟨p, hx', hlink⟩ := hs.child y stream x hy hretry
          rw [hx] at hx'
          cases hx'
          have hended : parent.fanoutDone = true → parent.continuation = some y := by
            intro hdone
            have hpc := hs.done x parent hx hdone
            rcases hlink with hlink | hlink | hlink
            · rw [hpc] at hlink
              cases hlink
            · rw [hpc] at hlink
              cases hlink
            · exact hlink
          cases hclosed with
          | last hx' hdone hnone =>
              rw [hx] at hx'
              cases hx'
              rw [hended hdone] at hnone
              cases hnone
          | on hx' hdone hnext _ hrest =>
              rw [hx] at hx'
              cases hx'
              rw [hended hdone] at hnext
              cases hnext
              exact ⟨l, hrest⟩

theorem Closed.ended {s : State} (hs : Linked s) {x : StreamId} {k h : Stream} (hclosed : Closed s x k)
    (hx : s.streams[x]? = some h) : h.fanoutDone = true ∧ h.pc = .ended := by
  have hdone : h.fanoutDone = true := by
    cases hclosed with
    | last hx' hdone _ =>
        rw [hx] at hx'
        cases hx'
        exact hdone
    | on hx' hdone _ _ _ =>
        rw [hx] at hx'
        cases hx'
        exact hdone
  exact ⟨hdone, hs.done x h hx hdone⟩

structure RunKept (r : StreamId) (s t : State) : Prop where
  kept : ∀ (x : StreamId) (h : Stream), s.streams[x]? = some h → h.logicalId = r →
    ∃ b, t.streams[x]? = some { h with aborted := b }
  only : ∀ (x : StreamId) (z : Stream), t.streams[x]? = some z → z.logicalId = r →
    ∃ h, s.streams[x]? = some h ∧ h.logicalId = r

def RunEnded (s : State) (r : StreamId) : Prop :=
  ∀ (x : StreamId) (h : Stream), s.streams[x]? = some h → h.logicalId = r → h.pc = .ended

theorem RunKept.refl (r : StreamId) (s : State) : RunKept r s s :=
  ⟨fun _ h hx _ => ⟨h.aborted, hx⟩, fun _ z hx hrun => ⟨z, hx, hrun⟩⟩

theorem RunKept.trans {r : StreamId} {s t u : State} (h : RunKept r s t) (h' : RunKept r t u) : RunKept r s u where
  kept := by
    intro x stream hx hrun
    obtain ⟨b, hb⟩ := h.kept x stream hx hrun
    obtain ⟨c, hc⟩ := h'.kept x _ hb hrun
    exact ⟨c, hc⟩
  only := by
    intro x z hz hrun
    obtain ⟨y, hy, hrun'⟩ := h'.only x z hz hrun
    exact h.only x y hy hrun'

theorem RunEnded.step {s t : State} {r : StreamId} (hs : Chained s) (hr : r < s.streams.length) (hended : RunEnded s r)
    (h : Change classify s t) : RunKept r s t where
  kept := by
    intro x stream hx hrun
    obtain ⟨z, hz, hevolves⟩ := h.keeps hx
    rcases hevolves.ended hs hx (hended x stream hx hrun) with rfl | rfl
    · exact ⟨z.aborted, hz⟩
    · exact ⟨true, hz⟩
  only := by
    intro x z hz hrun
    rcases h.stream hz with ⟨old, hold, hevolves⟩ | ⟨rfl, _⟩
    · exact ⟨old, hold, (congrArg Identity.logicalId hevolves.identity).symm.trans hrun⟩
    · rcases h.new hz with ⟨_, hself, _⟩ | ⟨w, parent, kind, hw, hpc, rfl, _⟩
      · exact absurd (hrun.symm.trans hself) (Nat.ne_of_lt hr)
      · -- a stream of the run would still have to submit
        have hparent : parent.logicalId = r := by
          rw [← hrun]
          cases kind <;> rfl
        have hpc' := hended w parent hw hparent
        rw [hpc] at hpc'
        cases hpc'

theorem RunKept.ended {s t : State} {r : StreamId} (h : RunKept r s t) (hended : RunEnded s r) : RunEnded t r := by
  intro x z hz hrun
  obtain ⟨old, hold, hrun'⟩ := h.only x z hz hrun
  obtain ⟨b, hb⟩ := h.kept x old hold hrun'
  rw [hz] at hb
  cases hb
  exact hended x old hold hrun'

theorem run_kept {s t : State} {r : StreamId} (hs : Chained s) (hr : r < s.streams.length) (hended : RunEnded s r)
    {as : List (Action V)} (h : (machine reading classify).run s as = some t) : Chained t ∧ RunKept r s t := by
  have hkept := Lib.Machine.run_invariant
    (P := fun t => Chained t ∧ r < t.streams.length ∧ RunKept r s t)
    (fun u a v hbefore ha => by
      obtain ⟨hu, hlt, hkept⟩ := hbefore
      have hstep := (hkept.ended hended).step hu hlt (next_change ha)
      refine ⟨hu.next (next_change ha), ?_, hkept.trans hstep⟩
      obtain ⟨z, hz, _⟩ := (next_change ha).keeps (List.getElem?_eq_getElem hlt)
      exact (List.getElem?_eq_some_iff.mp hz).1) as ⟨hs, hr, RunKept.refl r s⟩ h
  exact ⟨hkept.1, hkept.2.2⟩

-- How a reader of a handle walks its chain: one field at a time, while the service goes on.
section Readers

variable (M : Lib.Machine State (Action V))

inductive ReadsFinished : State → StreamId → Bool → State → Prop
  | running {s : State} {x : StreamId} {h : Stream} (hx : s.streams[x]? = some h) (hdone : h.fanoutDone = false) :
      ReadsFinished s x false s
  | last {s t : State} {x : StreamId} {h k : Stream} {as : List (Action V)} (hx : s.streams[x]? = some h)
      (hdone : h.fanoutDone = true) (hrun : M.run s as = some t) (hx' : t.streams[x]? = some k)
      (hnone : k.continuation = none) : ReadsFinished s x true t
  | on {s t u v : State} {x y : StreamId} {h k : Stream} {b : Bool} {as bs : List (Action V)}
      (hx : s.streams[x]? = some h) (hdone : h.fanoutDone = true) (hrun : M.run s as = some t)
      (hx' : t.streams[x]? = some k) (hnext : k.continuation = some y) (hrun' : M.run t bs = some u)
      (hrest : ReadsFinished u y b v) : ReadsFinished s x b v

inductive ReadsLast : State → StreamId → StreamId → State → Prop
  | last {s : State} {x : StreamId} {h : Stream} (hx : s.streams[x]? = some h) (hnone : h.continuation = none) :
      ReadsLast s x x s
  | on {s t u : State} {x y z : StreamId} {h : Stream} {as : List (Action V)} (hx : s.streams[x]? = some h)
      (hnext : h.continuation = some y) (hrun : M.run s as = some t) (hrest : ReadsLast t y z u) : ReadsLast s x z u

-- `run_final_text`
def ReadsText (s : State) (x : StreamId) (text : String) : Prop :=
  ∃ z t as u h, ReadsLast M s x z t ∧ M.run t as = some u ∧ u.streams[z]? = some h ∧ text = h.finalText

-- `run_outcome`
def ReadsOutcome (s : State) (x : StreamId) (outcome : Option Outcome) : Prop :=
  ∃ z t as u b v bs w h, ReadsLast M s x z t ∧ M.run t as = some u ∧ ReadsFinished M u x b v ∧ M.run v bs = some w ∧
    w.streams[z]? = some h ∧ outcome = if b then h.outcome else none

end Readers

theorem ReadsFinished.run {M : Lib.Machine State (Action V)} {s t : State} {x : StreamId} {b : Bool}
    (h : ReadsFinished M s x b t) : ∃ as, M.run s as = some t := by
  induction h with
  | running _ _ => exact ⟨[], rfl⟩
  | last _ _ hrun _ _ => exact ⟨_, hrun⟩
  | on _ _ hrun _ _ hrun' _ ih =>
      obtain ⟨cs, hcs⟩ := ih
      exact ⟨_, Lib.Machine.run_trans hrun (Lib.Machine.run_trans hrun' hcs)⟩

theorem ReadsLast.run {M : Lib.Machine State (Action V)} {s t : State} {x z : StreamId} (h : ReadsLast M s x z t) :
    ∃ as, M.run s as = some t := by
  induction h with
  | last _ _ => exact ⟨[], rfl⟩
  | on _ _ hrun _ ih =>
      obtain ⟨cs, hcs⟩ := ih
      exact ⟨_, Lib.Machine.run_trans hrun hcs⟩

theorem ended_kept {s t : State} {x : StreamId} {h : Stream} (hs : Chained s) (hx : s.streams[x]? = some h)
    (hpc : h.pc = .ended) {as : List (Action V)} (hrun : (machine reading classify).run s as = some t) :
    ∃ b, t.streams[x]? = some { h with aborted := b } := by
  have hkept := Lib.Machine.run_invariant
    (P := fun t => Chained t ∧ ∃ b, t.streams[x]? = some { h with aborted := b })
    (fun u a v hu ha => by
      obtain ⟨hu, b, hb⟩ := hu
      obtain ⟨z, hz, hevolves⟩ := (next_change ha).keeps hb
      refine ⟨hu.next (next_change ha), ?_⟩
      rcases hevolves.ended hu hb hpc with rfl | rfl
      · exact ⟨b, hz⟩
      · exact ⟨true, hz⟩) as ⟨hs, h.aborted, hx⟩ hrun
  exact hkept.2

theorem ReadsFinished.closed {s t : State} {x : StreamId}
    (h : ReadsFinished ((machine reading classify).restrict Starts) s x true t)
    (hs : ((machine reading classify).restrict Starts).Reachable s) : ∃ k, Closed t x k := by
  generalize hb : true = b at h
  induction h with
  | running _ _ => cases hb
  | last hx hdone hrun hx' hnone =>
      have hpc := (reachable_linked hs).done _ _ hx hdone
      obtain ⟨c, hc⟩ := ended_kept (reachable_chained hs.of_restrict) hx hpc (Lib.Machine.run_of_restrict hrun)
      rw [hx'] at hc
      cases hc
      exact ⟨_, .last hx' hdone hnone⟩
  | on hx hdone hrun hx' hnext hrun' hrest ih =>
      have hchained := reachable_chained hs.of_restrict
      have hpc := (reachable_linked hs).done _ _ hx hdone
      have ht := hs.run hrun
      have hu := ht.run hrun'
      obtain ⟨k, hk⟩ := ih hu hb
      obtain ⟨cs, hcs⟩ := hrest.run
      obtain ⟨c, hc⟩ := ended_kept hchained hx hpc (Lib.Machine.run_of_restrict hrun)
      rw [hx'] at hc
      cases hc
      have hlt := ((reachable_linked ht).next_stream (reachable_chained ht.of_restrict) hx' hnext).1
      obtain ⟨d, hd⟩ := ended_kept (reachable_chained ht.of_restrict) hx' hpc (Lib.Machine.run_of_restrict hrun')
      obtain ⟨e, he⟩ := ended_kept (reachable_chained hu.of_restrict) hd hpc (Lib.Machine.run_of_restrict hcs)
      exact ⟨k, .on he hdone hnext hlt hk⟩

structure Finished (s : State) (r : StreamId) (k : Stream) : Prop where
  chained : Chained s
  linked : Linked s
  root : r < s.streams.length
  closed : Closed s r k

namespace Finished

variable {s : State} {r : StreamId} {k : Stream}

theorem ended (h : Finished s r k) : RunEnded s r := by
  intro x stream hx hrun
  obtain ⟨l, hl⟩ := h.closed.all h.linked h.chained x stream hx hrun
  exact (hl.ended h.linked hx).2

theorem kept (h : Finished s r k) {t : State} {as : List (Action V)} (hrun : (machine reading classify).run s as = some t) :
    RunKept r s t := (run_kept h.chained h.root h.ended hrun).2

theorem later (h : Finished s r k) {t : State} {as : List (Action V)} (hrun : (machine reading classify).run s as = some t)
    {x : StreamId} {stream z : Stream} (hx : s.streams[x]? = some stream) (hmem : stream.logicalId = r)
    (hz : t.streams[x]? = some z) : ∃ b, z = { stream with aborted := b } := by
  obtain ⟨b, hb⟩ := (h.kept hrun).kept x stream hx hmem
  rw [hz] at hb
  cases hb
  exact ⟨b, rfl⟩

theorem closed_later (h : Finished s r k) {t : State} {as : List (Action V)}
    (hrun : (machine reading classify).run s as = some t) {x : StreamId} {stream l : Stream} (hclosed : Closed s x l)
    (hx : s.streams[x]? = some stream) (hmem : stream.logicalId = r) : ∃ b, Closed t x { l with aborted := b } := by
  induction hclosed generalizing stream with
  | @last x l hx' hdone hnone =>
      rw [hx'] at hx
      cases hx
      obtain ⟨b, hb⟩ := (h.kept hrun).kept x l hx' hmem
      exact ⟨b, .last hb hdone hnone⟩
  | @on x y l m hx' hdone hnext hlt hrest ih =>
      rw [hx'] at hx
      cases hx
      obtain ⟨b, hb⟩ := (h.kept hrun).kept x l hx' hmem
      obtain ⟨_, next, hy, hsame⟩ := h.linked.next_stream h.chained hx' hnext
      obtain ⟨c, hc⟩ := ih hy (hsame.trans hmem)
      exact ⟨c, .on hb hdone hnext hlt hc⟩

theorem reads_finished (h : Finished s r k) {u v : State} {x : StreamId} {b : Bool} {stream l : Stream}
    (hread : ReadsFinished (machine reading classify) u x b v) {as : List (Action V)}
    (hrun : (machine reading classify).run s as = some u) (hclosed : Closed s x l) (hx : s.streams[x]? = some stream)
    (hmem : stream.logicalId = r) : b = true := by
  induction hread generalizing stream as with
  | running hx' hdone =>
      obtain ⟨c, rfl⟩ := h.later hrun hx hmem hx'
      rw [(hclosed.ended h.linked hx).1] at hdone
      cases hdone
  | last _ _ _ _ _ => rfl
  | on _ _ hrun₁ hx' hnext hrun₂ _ ih =>
      have hrun₁ := Lib.Machine.run_trans hrun hrun₁
      obtain ⟨c, rfl⟩ := h.later hrun₁ hx hmem hx'
      obtain ⟨_, next, hy, hsame⟩ := h.linked.next_stream h.chained hx hnext
      obtain ⟨m, hm⟩ := h.closed.all h.linked h.chained _ next hy (hsame.trans hmem)
      cases hclosed with
      | last hx'' _ hnone =>
          rw [hx] at hx''
          cases hx''
          rw [hnext] at hnone
          cases hnone
      | on hx'' _ hnext' _ hrest =>
          rw [hx] at hx''
          cases hx''
          rw [hnext] at hnext'
          cases hnext'
          exact ih (Lib.Machine.run_trans hrun₁ hrun₂) hrest hy (hsame.trans hmem)

theorem reads_last (h : Finished s r k) {u v : State} {x z : StreamId} {stream l : Stream}
    (hread : ReadsLast (machine reading classify) u x z v) {as : List (Action V)}
    (hrun : (machine reading classify).run s as = some u) (hclosed : Closed s x l) (hx : s.streams[x]? = some stream)
    (hmem : stream.logicalId = r) : s.streams[z]? = some l ∧ l.logicalId = r := by
  induction hread generalizing stream as with
  | last hx' hnone =>
      obtain ⟨c, rfl⟩ := h.later hrun hx hmem hx'
      cases hclosed with
      | last hx'' _ _ =>
          rw [hx] at hx''
          cases hx''
          exact ⟨hx, hmem⟩
      | on hx'' _ hnext _ _ =>
          rw [hx] at hx''
          cases hx''
          rw [hnext] at hnone
          cases hnone
  | on hx' hnext hrun₁ _ ih =>
      obtain ⟨c, rfl⟩ := h.later hrun hx hmem hx'
      obtain ⟨_, next, hy, hsame⟩ := h.linked.next_stream h.chained hx hnext
      cases hclosed with
      | last hx'' _ hnone =>
          rw [hx] at hx''
          cases hx''
          rw [hnext] at hnone
          cases hnone
      | on hx'' _ hnext' _ hrest =>
          rw [hx] at hx''
          cases hx''
          rw [hnext] at hnext'
          cases hnext'
          exact ih (Lib.Machine.run_trans hrun hrun₁) hrest hy (hsame.trans hmem)

end Finished

theorem identity_kept {s t : State} {x : StreamId} {h : Stream} (hx : s.streams[x]? = some h) {as : List (Action V)}
    (hrun : (machine reading classify).run s as = some t) : ∃ z, t.streams[x]? = some z ∧ z.identity = h.identity :=
  Lib.Machine.run_invariant (P := fun t => ∃ z, t.streams[x]? = some z ∧ z.identity = h.identity)
    (fun u a v hu ha => by
      obtain ⟨y, hy, hsame⟩ := hu
      obtain ⟨z, hz, hevolves⟩ := (next_change ha).keeps hy
      exact ⟨z, hz, hevolves.identity.trans hsame⟩) as ⟨h, hx, rfl⟩ hrun

-- The completion of a run, once a reader has seen it, is final.
theorem completion_final {s₀ s : State} {r : StreamId} {root : Stream}
    (hs : ((machine reading classify).restrict Starts).Reachable s₀) (hr : s₀.streams[r]? = some root)
    (hroot : root.retryOf = none) (hread : ReadsFinished ((machine reading classify).restrict Starts) s₀ r true s) :
    -- no stream of the run has anything left to do
    (∀ (x : StreamId) (h : Stream), s.streams[x]? = some h → h.logicalId = r → h.fanoutDone = true ∧ h.pc = .ended) ∧
    ∀ as t, (machine reading classify).run s as = some t →
      -- the handle says the same from now on, and the run gets no more streams
      (runFinished t r = true ∧ runOutcome t r = runOutcome s r ∧ runFinalText t r = runFinalText s r ∧
        runStreams t r = runStreams s r) ∧
      -- and so does every reader that starts from now on
      (∀ b u, ReadsFinished (machine reading classify) t r b u → b = true) ∧
      (∀ o, ReadsOutcome (machine reading classify) t r o → o = runOutcome s r) ∧
      ∀ text, ReadsText (machine reading classify) t r text → some text = runFinalText s r := by
  obtain ⟨as₀, hrun₀⟩ := hread.run
  have hs' := hs.run hrun₀
  obtain ⟨k, hclosed⟩ := hread.closed hs
  have hchained := reachable_chained hs'.of_restrict
  obtain ⟨root', hr', hsame⟩ := identity_kept hr (Lib.Machine.run_of_restrict hrun₀)
  have hself := (hchained.root r root' hr' ((congrArg Identity.retryOf hsame).trans hroot)).1
  have hfinished : Finished s r k :=
    ⟨hchained, reachable_linked hs', (List.getElem?_eq_some_iff.mp hr').1, hclosed⟩
  obtain ⟨_, houtcome, htext⟩ := hclosed.values
  refine ⟨?_, ?_⟩
  · intro x h hx hrun
    obtain ⟨l, hl⟩ := hclosed.all hfinished.linked hchained x h hx hrun
    exact hl.ended hfinished.linked hx
  · intro as t hrun
    obtain ⟨b, hclosed'⟩ := hfinished.closed_later hrun hclosed hr' hself
    obtain ⟨hvalue, houtcome', htext'⟩ := hclosed'.values
    refine ⟨⟨hvalue, houtcome'.trans houtcome.symm, htext'.trans htext.symm, ?_⟩, ?_, ?_, ?_⟩
    · ext x
      rw [mem_runStreams, mem_runStreams]
      constructor
      · rintro ⟨z, hz, hmem⟩
        exact (hfinished.kept hrun).only x z hz hmem
      · rintro ⟨h, hx, hmem⟩
        obtain ⟨c, hc⟩ := (hfinished.kept hrun).kept x h hx hmem
        exact ⟨_, hc, hmem⟩
    · intro c u hagain
      exact hfinished.reads_finished hagain hrun hclosed hr' hself
    · rintro o ⟨z, t', bs, u, c, v, cs, w, h, hlast, hrun₁, hagain, hrun₂, hz, rfl⟩
      obtain ⟨ds, hds⟩ := hlast.run
      obtain ⟨es, hes⟩ := hagain.run
      have hrun₁ := Lib.Machine.run_trans hrun (Lib.Machine.run_trans hds hrun₁)
      have hrun₂ := Lib.Machine.run_trans hrun₁ (Lib.Machine.run_trans hes hrun₂)
      obtain ⟨hz', hmem⟩ := hfinished.reads_last hlast hrun hclosed hr' hself
      rw [hfinished.reads_finished hagain hrun₁ hclosed hr' hself, houtcome]
      obtain ⟨d, rfl⟩ := hfinished.later hrun₂ hz' hmem hz
      rfl
    · rintro text ⟨z, t', bs, u, h, hlast, hrun₁, hz, rfl⟩
      obtain ⟨ds, hds⟩ := hlast.run
      have hrun₁ := Lib.Machine.run_trans hrun (Lib.Machine.run_trans hds hrun₁)
      obtain ⟨hz', hmem⟩ := hfinished.reads_last hlast hrun hclosed hr' hself
      obtain ⟨d, rfl⟩ := hfinished.later hrun₁ hz' hmem hz
      rw [htext]

theorem ReadsFinished.at_once {M : Lib.Machine State (Action V)} {s : State} {n : Nat} {x : StreamId}
    (h : finishedFrom s n x = true) : ReadsFinished M s x true s := by
  induction n generalizing x with
  | zero => cases h
  | succ n ih =>
      unfold finishedFrom at h
      cases hx : s.streams[x]? with
      | none => simp [hx] at h
      | some stream =>
          rw [hx, Option.any_some, Bool.and_eq_true] at h
          have hstay : M.run s [] = some s := rfl
          cases hnext : stream.continuation with
          | none => exact .last hx h.1 hstay hx hnext
          | some y =>
              rw [hnext] at h
              exact .on hx h.1 hstay hx hnext hstay (ih h.2)

-- A run of two streams: the second one ends well.
def retriedWell : List (Action Unit) :=
  [Action.submit "webui" "s" true] ++ finishes 0 "!!!Error: HTTP 503" ++ retries 0 ++ ends 0 ++ finishes 1 "done" ++
    [Action.thread 1 .step] ++ ends 1

theorem completion_final_retried : ∃ s : State,
    ((machine plainReading gatewayError).restrict Starts).run {} retriedWell = some s ∧
      runFinished s 0 = true ∧ runOutcome s 0 = some .completed ∧
      ∀ as t, (machine plainReading gatewayError).run s as = some t → runOutcome t 0 = runOutcome s 0 := by
  have hrun : (((machine plainReading gatewayError).restrict Starts).run {} retriedWell).map
      (fun s => (s.streams[0]?.map Stream.retryOf, runFinished s 0, runOutcome s 0)) =
      some (some none, true, some .completed) := by decide +kernel
  obtain ⟨s, hrun, hfacts⟩ := Option.map_eq_some_iff.mp hrun
  obtain ⟨hroot, hrest⟩ := Prod.mk.inj hfacts
  obtain ⟨hfinished, houtcome⟩ := Prod.mk.inj hrest
  obtain ⟨root, hr, hretry⟩ := Option.map_eq_some_iff.mp hroot
  have hfinal := completion_final ⟨retriedWell, hrun⟩ hr hretry (.at_once hfinished)
  exact ⟨s, hrun, hfinished, houtcome, fun as t ht => (hfinal.2 as t ht).1.2.1⟩

-- The thread of the retry does not start: the run counts as finished, with a stream that never ends.
def threadLost : List (Action Unit) :=
  [Action.submit "webui" "s" true] ++ finishes 0 "!!!Error: HTTP 503" ++
    [Action.thread 0 .step, .thread 0 (.wake true), .thread 0 .step, .thread 0 (.config none 1), .thread 0 .step,
      .thread 0 (.call true), .thread 0 (.call false), .thread 0 .step] ++ ends 0

theorem finished_with_lost_stream : ¬ ∀ (s : State) (r : StreamId) (root : Stream),
    (machine plainReading gatewayError).Reachable s → s.streams[r]? = some root → root.retryOf = none →
    runFinished s r = true → ∀ (x : StreamId) (h : Stream), s.streams[x]? = some h → h.logicalId = r → h.fanoutDone = true := by
  intro h
  have hrun : ((machine plainReading gatewayError).run {} threadLost).map
      (fun s => (s.streams[0]?.map Stream.retryOf, runFinished s 0, s.streams[1]?.map fun h => (h.logicalId, h.fanoutDone))) =
      some (some none, true, some (0, false)) := by decide +kernel
  obtain ⟨s, hrun, hfacts⟩ := Option.map_eq_some_iff.mp hrun
  obtain ⟨hroot, hrest⟩ := Prod.mk.inj hfacts
  obtain ⟨hfinished, hchild⟩ := Prod.mk.inj hrest
  obtain ⟨root, hr, hretry⟩ := Option.map_eq_some_iff.mp hroot
  obtain ⟨child, hx, hchild⟩ := Option.map_eq_some_iff.mp hchild
  obtain ⟨hlogical, hdone⟩ := Prod.mk.inj hchild
  have hended := h s 0 root ⟨threadLost, hrun⟩ hr hretry hfinished 1 child hx hlogical
  rw [hdone] at hended
  cases hended

end GaHub.Streams
