import Mathlib.Data.Finset.Card
import GaHub.Streams.Steps

namespace GaHub.Streams

variable {V : Type} {reading : Reading V} {classify : String → Option RecoverableErrorMatch}

structure Identity where
  source : String
  logicalId : StreamId
  retryOf : Option StreamId
  autoContinueCount : Nat
  errorRetryCount : Nat
  errorRetryOrigin : String

def Stream.identity (h : Stream) : Identity :=
  { source := h.source, logicalId := h.logicalId, retryOf := h.retryOf, autoContinueCount := h.autoContinueCount
    errorRetryCount := h.errorRetryCount, errorRetryOrigin := h.errorRetryOrigin }

theorem Local.identity {h h' : Stream} (hlocal : Local classify h h') : h'.identity = h.identity := by
  cases hlocal <;> rfl

theorem Evolves.identity {s t : State} {y : StreamId} {h z : Stream} (hevolves : Evolves classify s t y h z) :
    z.identity = h.identity := by
  cases hevolves with
  | own hlocal => exact hlocal.identity
  | _ => rfl

theorem Plan.Fits.congr {plan : Plan} {h h' : Stream} (hfits : plan.Fits h) (hsame : h'.identity = h.identity) :
    plan.Fits h' := by
  obtain ⟨heligible, horigin, hscheduled, hroom, hbounded⟩ := hfits
  simp only [Stream.identity, Identity.mk.injEq] at hsame
  obtain ⟨hsource, _, _, _, hcount, horigin'⟩ := hsame
  have hsame : h'.origin = h.origin := by
    unfold Stream.origin
    rw [hsource, horigin']
  exact ⟨hsource ▸ heligible, horigin.trans hsame.symm, by rw [hscheduled, hsame], hcount ▸ hroom, hbounded⟩

def Pc.plan? : Pc → Option Plan
  | .registering _ plan _ | .waiting _ plan | .woken _ plan | .reloading _ plan | .checking _ plan => some plan
  | .submitting (.retry plan) => some plan
  | _ => none

structure Stream.Ready (h : Stream) : Prop where
  retry : ∀ plan, h.pc.plan? = some plan → plan.Fits h
  autoContinue : h.pc = .enrolling ∨ h.pc = .submitting .autoContinue →
    h.source ∈ autoContinueSources ∧ h.autoContinueCount < autoContinueMax

theorem Moves.ready {h : Stream} {pc : Pc} (hready : h.Ready) (hmoves : Moves h h.pc pc) : ({ h with pc } : Stream).Ready := by
  have hplan := hready.retry
  have hauto := hready.autoContinue
  generalize hpc : h.pc = old at hmoves
  have hfits : ∀ plan : Plan, plan.Fits h → plan.Fits { h with pc } := fun plan hfits => hfits.congr rfl
  constructor
  · intro plan hnew
    cases hmoves with
    | plan hchosen =>
        cases hnew
        exact hfits _ hchosen
    | confirm hroom hbounded =>
        cases hnew
        obtain ⟨heligible, horigin, hscheduled, _, _⟩ := hplan _ (by rw [hpc]; rfl)
        exact hfits _ ⟨heligible, horigin, hscheduled, hroom, hbounded⟩
    | wait | hurry | wake | reload | alone =>
        cases hnew
        exact hfits _ (hplan _ (by rw [hpc]; rfl))
    | _ => cases hnew
  · intro hnew
    cases hmoves with
    | enroll heligible hroom => exact ⟨heligible, hroom⟩
    | «continue» => exact hauto (.inl hpc)
    | _ => rcases hnew with hnew | hnew <;> cases hnew

theorem Local.ready {h h' : Stream} (hready : h.Ready) (hlocal : Local classify h h') : h'.Ready := by
  have hidle : ∀ z : Stream, z.pc.plan? = none → z.pc ≠ .enrolling → z.pc ≠ .submitting .autoContinue → z.Ready := by
    intro z hplan henrolling hsubmitting
    refine ⟨fun plan hsome => ?_, fun hauto => ?_⟩
    · rw [hplan] at hsome
      cases hsome
    · rcases hauto with h | h
      · exact absurd h henrolling
      · exact absurd h hsubmitting
  cases hlocal with
  | chunk hpc => exact hidle _ (by simp [hpc, Pc.plan?]) (by simp [hpc]) (by simp [hpc])
  | read _ => exact hidle _ rfl (by simp) (by simp)
  | shutDown _ => exact hidle _ rfl (by simp [Stream.shutDown]) (by simp [Stream.shutDown])
  | crash _ => exact hidle _ rfl (by simp [Stream.crashed]) (by simp [Stream.crashed])
  | commit _ => exact hidle _ rfl (by simp) (by simp)
  | conclude _ => exact hidle _ rfl (by simp) (by simp)
  | move hpc => exact hpc.ready hready
  | link _ => exact hidle _ rfl (by simp) (by simp)
  | signal _ => exact hidle _ rfl (by simp) (by simp)

theorem Evolves.ready {s t : State} {y : StreamId} {h z : Stream} (hready : h.Ready)
    (hevolves : Evolves classify s t y h z) :
    z.Ready := by
  cases hevolves with
  | same => exact hready
  | own hlocal => exact hlocal.ready hready
  | submits _ _ => exact ⟨by simp [Pc.plan?], by simp⟩
  | starts _ => exact ⟨by simp [Pc.plan?], by simp⟩
  | started _ _ _ => exact ⟨by simp [Pc.plan?], by simp⟩
  | marked _ => exact ⟨fun plan hplan => (hready.retry plan hplan).congr rfl, hready.autoContinue⟩

theorem Appears.ready {s : State} {z : Stream} (h : Appears s z) : z.Ready := by
  cases h with
  | root hpc => rcases hpc with rfl | rfl <;> exact ⟨by simp [Pc.plan?], by simp⟩
  | @successor x h kind _ _ => cases kind <;> exact ⟨by simp [Stream.successor, Pc.plan?], by simp [Stream.successor]⟩

def Pc.spent : Pc → Bool
  | .starting _ | .linking _ | .rechecking | .aborting | .failing | .ending | .signalling | .ended => true
  | _ => false

theorem Moves.spent {h : Stream} {old new : Pc} (hmoves : Moves h old new) (hspent : old.spent = true) : new.spent = true := by
  cases hmoves <;> first | rfl | cases hspent

theorem Local.spent {h h' : Stream} (hlocal : Local classify h h') (hspent : h.pc.spent = true) : h'.pc.spent = true := by
  cases hlocal with
  | chunk hpc => exact hspent
  | move hpc => exact hpc.spent hspent
  | shutDown hpc => rfl
  | crash hpc => rfl
  | link hpc => rfl
  | signal hpc => rfl
  | read hpc | commit hpc | conclude hpc =>
      rw [hpc] at hspent
      cases hspent

-- What a stream is submitted for: to continue another one, which has room for it.
inductive Continues (x : StreamId) (parent h : Stream) : Prop
  | retry (plan : Plan) (hfits : plan.Fits parent) (hsame : h.identity = (parent.successor x (.retry plan)).identity)
  | autoContinue (heligible : parent.source ∈ autoContinueSources) (hroom : parent.autoContinueCount < autoContinueMax)
      (hsame : h.identity = (parent.successor x .autoContinue).identity)

theorem Continues.congr {x : StreamId} {parent parent' h h' : Stream} (hcontinues : Continues x parent h)
    (hparent : parent'.identity = parent.identity) (hchild : h'.identity = h.identity) : Continues x parent' h' := by
  have hfields := hparent
  simp only [Stream.identity, Identity.mk.injEq] at hfields
  obtain ⟨hsource, hlogical, _, hauto, herror, horigin⟩ := hfields
  cases hcontinues with
  | retry plan hfits hsame =>
      refine .retry plan (hfits.congr hparent) (hchild.trans (hsame.trans ?_))
      simp only [Stream.successor, Stream.identity, hlogical, hauto, herror]
  | autoContinue heligible hroom hsame =>
      refine .autoContinue (hsource ▸ heligible) (hauto ▸ hroom) (hchild.trans (hsame.trans ?_))
      simp only [Stream.successor, Stream.identity, hlogical, hauto, herror, horigin]

-- The streams of the service as chains: every stream but the first of a run continues another one, and is the only
-- one to do so.
structure Chained (s : State) : Prop where
  ready : ∀ (x : StreamId) (h : Stream), s.streams[x]? = some h → h.Ready
  root : ∀ (x : StreamId) (h : Stream), s.streams[x]? = some h → h.retryOf = none →
    h.logicalId = x ∧ h.errorRetryCount = 0 ∧ h.autoContinueCount = 0 ∧ h.errorRetryOrigin = ""
  link : ∀ (y : StreamId) (h : Stream) (x : StreamId), s.streams[y]? = some h → h.retryOf = some x →
    x < y ∧ ∃ parent, s.streams[x]? = some parent ∧ parent.pc.spent = true ∧ Continues x parent h
  unique : ∀ (y z : StreamId) (h k : Stream) (x : StreamId), s.streams[y]? = some h → s.streams[z]? = some k →
    h.retryOf = some x → k.retryOf = some x → y = z
  -- the stream whose thread is not started yet
  child : ∀ (x : StreamId) (h : Stream) (y : StreamId), s.streams[x]? = some h → h.pc = .starting y →
    ∃ k, s.streams[y]? = some k ∧ k.retryOf = some x ∧ k.pc = .unstarted

theorem chained_start : Chained {} where
  ready := by simp
  root := by simp
  link := by simp
  unique := by simp
  child := by simp

theorem Evolves.retryOf {s t : State} {y : StreamId} {h z : Stream} (hevolves : Evolves classify s t y h z) :
    z.retryOf = h.retryOf := congrArg Identity.retryOf hevolves.identity

theorem Evolves.spent {s t : State} {y : StreamId} {h z : Stream} (hevolves : Evolves classify s t y h z)
    (hchild : ∀ (x : StreamId) (parent : Stream), s.streams[x]? = some parent → parent.pc = .starting y → h.pc = .unstarted)
    (hspent : h.pc.spent = true) : z.pc.spent = true := by
  cases hevolves with
  | same => exact hspent
  | own hlocal => exact hlocal.spent hspent
  | submits _ _ => rfl
  | starts _ => rfl
  | started hx hpc _ =>
      rw [hchild _ _ hx hpc] at hspent
      cases hspent
  | marked _ => exact hspent

section Step

variable {s t : State} (hs : Chained s) (h : Change classify s t)

include hs h

theorem Chained.spent_step {x : StreamId} {parent : Stream} (hx : s.streams[x]? = some parent) (hspent : parent.pc.spent = true) :
    ∃ z, t.streams[x]? = some z ∧ z.identity = parent.identity ∧ z.pc.spent = true := by
  obtain ⟨z, hz, hevolves⟩ := h.keeps hx
  refine ⟨z, hz, hevolves.identity, hevolves.spent (fun w p hw hp => ?_) hspent⟩
  obtain ⟨k, hk, _, hunstarted⟩ := hs.child w p x hw hp
  rw [hx] at hk
  cases hk
  exact hunstarted

end Step

theorem Change.new {s t : State} (h : Change classify s t) {z : Stream} (hz : t.streams[s.streams.length]? = some z) :
    (z.retryOf = none ∧ z.logicalId = s.streams.length ∧ z.errorRetryCount = 0 ∧ z.autoContinueCount = 0 ∧
      z.errorRetryOrigin = "") ∨
    ∃ (x : StreamId) (parent : Stream) (kind : Kind), s.streams[x]? = some parent ∧ parent.pc = .submitting kind ∧
      z = parent.successor x kind ∧ t.streams[x]? = some { parent with pc := .starting s.streams.length } := by
  have hnone : s.streams[s.streams.length]? = none := List.getElem?_eq_none (Nat.le_refl _)
  cases h with
  | same ht =>
      rw [ht, hnone] at hz
      cases hz
  | own x h h' hx _ ht =>
      rw [ht, List.getElem?_eq_none (by simp)] at hz
      cases hz
  | created x h kind hx hpc ht =>
      have hlt := (List.getElem?_eq_some_iff.mp hx).1
      rw [ht, List.getElem?_append_right (by simp), List.length_set, Nat.sub_self] at hz
      cases hz
      refine .inr ⟨x, h, kind, hx, hpc, rfl, ?_⟩
      rw [ht, List.getElem?_append_left (by simpa using hlt), List.getElem?_set_self hlt]
  | started x h child hx hpc ht =>
      rw [ht, List.getElem?_eq_none (by simp)] at hz
      cases hz
  | root source sessionId pc hpc ht =>
      rw [ht, List.getElem?_concat_length] at hz
      cases hz
      exact .inl ⟨rfl, rfl, rfl, rfl, rfl⟩
  | cancelled ht =>
      rw [ht, List.getElem?_eq_none (by simp)] at hz
      cases hz

theorem Stream.Ready.continues {x : StreamId} {parent : Stream} {kind : Kind} (hready : parent.Ready)
    (hpc : parent.pc = .submitting kind) : Continues x parent (parent.successor x kind) := by
  cases kind with
  | retry plan => exact .retry plan (hready.retry plan (by rw [hpc]; rfl)) rfl
  | autoContinue =>
      obtain ⟨heligible, hroom⟩ := hready.autoContinue (.inr hpc)
      exact .autoContinue heligible hroom rfl

theorem successor_retryOf (h : Stream) (x : StreamId) (kind : Kind) : (h.successor x kind).retryOf = some x := by
  cases kind <;> rfl

theorem Chained.unstarted_kept {s t : State} (hs : Chained s) (h : Change classify s t) {x y : StreamId} {p' k : Stream}
    (hx' : t.streams[x]? = some p') (hp' : p'.pc = .starting y) (hk : s.streams[y]? = some k)
    (hretry : k.retryOf = some x) (hunstarted : k.pc = .unstarted) :
    ∃ k', t.streams[y]? = some k' ∧ k'.retryOf = some x ∧ k'.pc = .unstarted := by
  obtain ⟨k', hk', hevolves⟩ := h.keeps hk
  refine ⟨k', hk', hevolves.retryOf.trans hretry, ?_⟩
  cases hevolves with
  | same => exact hunstarted
  | own hlocal =>
      cases hlocal <;> rename_i hpc
      case move =>
        rw [hunstarted] at hpc
        cases hpc
      case crash =>
        rw [hunstarted] at hpc
        rcases hpc with hpc | ⟨_, hpc⟩ <;> cases hpc
      all_goals
        rw [hunstarted] at hpc
        cases hpc
  | submits hpc _ =>
      rw [hunstarted] at hpc
      cases hpc
  | starts hpc =>
      rw [hunstarted] at hpc
      cases hpc
  | marked _ => exact hunstarted
  | started hw hpc hw' =>
      -- its thread was started by the stream it continues, which has gone on
      obtain ⟨l, hl, hretry', _⟩ := hs.child _ _ y hw hpc
      rw [hk] at hl
      cases hl
      rw [hretry] at hretry'
      cases hretry'
      rw [hx'] at hw'
      cases hw'
      cases hp'

theorem Chained.next {s t : State} (hs : Chained s) (h : Change classify s t) : Chained t where
  ready := by
    intro x z hz
    rcases h.stream hz with ⟨old, hold, hevolves⟩ | ⟨_, happears⟩
    · exact hevolves.ready (hs.ready x old hold)
    · exact happears.ready
  root := by
    intro x z hz hretry
    rcases h.stream hz with ⟨old, hold, hevolves⟩ | ⟨rfl, _⟩
    · have hidentity := hevolves.identity
      simp only [Stream.identity, Identity.mk.injEq] at hidentity
      obtain ⟨_, hlogical, hretry', hauto, herror, horigin⟩ := hidentity
      obtain ⟨h1, h2, h3, h4⟩ := hs.root x old hold (hretry' ▸ hretry)
      exact ⟨hlogical.trans h1, herror.trans h2, hauto.trans h3, horigin.trans h4⟩
    · rcases h.new hz with ⟨_, hroot⟩ | ⟨w, parent, kind, _, _, rfl, _⟩
      · exact hroot
      · rw [successor_retryOf] at hretry
        cases hretry
  link := by
    intro y z x hz hretry
    rcases h.stream hz with ⟨old, hold, hevolves⟩ | ⟨rfl, _⟩
    · obtain ⟨hlt, parent, hx, hspent, hcontinues⟩ := hs.link y old x hold (hevolves.retryOf ▸ hretry)
      obtain ⟨parent', hx', hidentity, hspent'⟩ := hs.spent_step h hx hspent
      exact ⟨hlt, parent', hx', hspent', hcontinues.congr hidentity hevolves.identity⟩
    · rcases h.new hz with ⟨hnone, _⟩ | ⟨w, parent, kind, hw, hpc, rfl, hw'⟩
      · rw [hnone] at hretry
        cases hretry
      · rw [successor_retryOf] at hretry
        cases hretry
        exact ⟨(List.getElem?_eq_some_iff.mp hw).1, _, hw', rfl, ((hs.ready x parent hw).continues hpc).congr rfl rfl⟩
  unique := by
    -- a stream that is about to submit has no successor yet
    have hnew : ∀ {z k : Stream} {y x : StreamId}, t.streams[s.streams.length]? = some z → z.retryOf = some x →
        s.streams[y]? = some k → k.retryOf = some x → False := by
      intro z k y x hz hretry hk hretry'
      rcases h.new hz with ⟨hnone, _⟩ | ⟨w, parent, kind, hw, hpc, rfl, _⟩
      · rw [hnone] at hretry
        cases hretry
      · rw [successor_retryOf] at hretry
        cases hretry
        obtain ⟨_, parent', hw', hspent, _⟩ := hs.link y k x hk hretry'
        rw [hw] at hw'
        cases hw'
        rw [hpc] at hspent
        cases hspent
    intro y z k l x hk hl hretry hretry'
    rcases h.stream hk with ⟨k₀, hk₀, hevolves⟩ | ⟨rfl, _⟩
    · rcases h.stream hl with ⟨l₀, hl₀, hevolves'⟩ | ⟨rfl, _⟩
      · exact hs.unique y z k₀ l₀ x hk₀ hl₀ (hevolves.retryOf ▸ hretry) (hevolves'.retryOf ▸ hretry')
      · exact absurd (hnew hl hretry' hk₀ (hevolves.retryOf ▸ hretry)) id
    · rcases h.stream hl with ⟨l₀, hl₀, hevolves'⟩ | ⟨rfl, _⟩
      · exact absurd (hnew hk hretry hl₀ (hevolves'.retryOf ▸ hretry')) id
      · rfl
  child := by
    intro x z y hz hpc
    rcases h.stream hz with ⟨old, hold, hevolves⟩ | ⟨rfl, happears⟩
    · -- the thread was there before, or has just submitted
      have hbefore : old.pc = .starting y ∨ ∃ kind, t.streams[y]? = some (old.successor x kind) := by
        cases hevolves with
        | same => exact .inl hpc
        | own hlocal =>
            cases hlocal with
            | chunk _ => exact .inl hpc
            | move hmoves =>
                cases hpc
                generalize old.pc = before at hmoves
                cases hmoves
            | _ => cases hpc
        | submits _ hchild =>
            cases hpc
            exact .inr ⟨_, hchild⟩
        | starts _ => cases hpc
        | started _ _ _ => cases hpc
        | marked _ => exact .inl hpc
      rcases hbefore with hbefore | ⟨kind, hchild⟩
      · obtain ⟨k, hk, hretry, hunstarted⟩ := hs.child x old y hold hbefore
        exact hs.unstarted_kept h hz hpc hk hretry hunstarted
      · refine ⟨_, hchild, successor_retryOf old x kind, ?_⟩
        cases kind <;> rfl
    · cases happears with
      | root hstart => rcases hstart with rfl | rfl <;> cases hpc
      | successor _ _ => rename_i kind _ _; cases kind <;> cases hpc

theorem reachable_chained {s : State} (hs : (machine reading classify).Reachable s) : Chained s :=
  hs.invariant chained_start fun _ _ _ h ha => h.next (next_change ha)

def Steps (parent h : Stream) : Prop :=
  (h.errorRetryCount = parent.errorRetryCount + 1 ∧ h.autoContinueCount = parent.autoContinueCount) ∨
    (h.errorRetryCount = parent.errorRetryCount ∧ h.autoContinueCount = parent.autoContinueCount + 1)

theorem Continues.steps {x : StreamId} {parent h : Stream} (hcontinues : Continues x parent h) :
    h.logicalId = parent.logicalId ∧ Steps parent h := by
  cases hcontinues with
  | retry plan _ hsame =>
      simp only [Stream.identity, Stream.successor, Identity.mk.injEq] at hsame
      exact ⟨hsame.2.1, .inl ⟨hsame.2.2.2.2.1, hsame.2.2.2.1⟩⟩
  | autoContinue _ _ hsame =>
      simp only [Stream.identity, Stream.successor, Identity.mk.injEq] at hsame
      exact ⟨hsame.2.1, .inr ⟨hsame.2.2.2.2.1, hsame.2.2.2.1⟩⟩

theorem Chained.bounded {s : State} (hs : Chained s) (y : StreamId) (h : Stream) (hy : s.streams[y]? = some h) :
    (h.errorRetryCount : Int) ≤ maxScheduledConfigAttempts ∧ h.autoContinueCount ≤ autoContinueMax := by
  induction y using Nat.strong_induction_on generalizing h with
  | _ y ih =>
      cases hretry : h.retryOf with
      | none =>
          obtain ⟨_, herror, hauto, _⟩ := hs.root y h hy hretry
          rw [herror, hauto]
          decide
      | some x =>
          obtain ⟨hlt, parent, hx, _, hcontinues⟩ := hs.link y h x hy hretry
          obtain ⟨herror, hauto⟩ := ih x hlt parent hx
          cases hcontinues with
          | retry plan hfits hsame =>
              simp only [Stream.identity, Stream.successor, Identity.mk.injEq] at hsame
              rw [hsame.2.2.2.1, hsame.2.2.2.2.1]
              have hroom := hfits.room
              have hbounded := hfits.bounded
              exact ⟨by push_cast; omega, hauto⟩
          | autoContinue _ hroom hsame =>
              simp only [Stream.identity, Stream.successor, Identity.mk.injEq] at hsame
              rw [hsame.2.2.2.1, hsame.2.2.2.2.1]
              exact ⟨herror, hroom⟩

def runStreams (s : State) (r : StreamId) : Finset StreamId :=
  (Finset.range s.streams.length).filter fun x => s.streams[x]?.map Stream.logicalId = some r

theorem mem_runStreams {s : State} {r x : StreamId} :
    x ∈ runStreams s r ↔ ∃ h, s.streams[x]? = some h ∧ h.logicalId = r := by
  unfold runStreams
  rw [Finset.mem_filter, Finset.mem_range]
  constructor
  · rintro ⟨_, hrun⟩
    exact Option.map_eq_some_iff.mp hrun
  · rintro ⟨h, hx, hrun⟩
    exact ⟨(List.getElem?_eq_some_iff.mp hx).1, Option.map_eq_some_iff.mpr ⟨h, hx, hrun⟩⟩

theorem Chained.same_depth {s : State} (hs : Chained s) (n : Nat) {y z : StreamId} {h k : Stream}
    (hy : s.streams[y]? = some h) (hz : s.streams[z]? = some k) (hrun : h.logicalId = k.logicalId)
    (hn : h.errorRetryCount + h.autoContinueCount = n) (hn' : k.errorRetryCount + k.autoContinueCount = n) : y = z := by
  induction n generalizing y z h k with
  | zero =>
      have hfirst : ∀ {x : StreamId} {l : Stream}, s.streams[x]? = some l → l.errorRetryCount + l.autoContinueCount = 0 →
          l.logicalId = x := by
        intro x l hx hzero
        cases hretry : l.retryOf with
        | none => exact (hs.root x l hx hretry).1
        | some w =>
            obtain ⟨_, parent, _, _, hcontinues⟩ := hs.link x l w hx hretry
            rcases hcontinues.steps.2 with hsteps | hsteps <;> omega
      rw [← hfirst hy hn, ← hfirst hz hn', hrun]
  | succ n ih =>
      have hlater : ∀ {x : StreamId} {l : Stream}, s.streams[x]? = some l → l.errorRetryCount + l.autoContinueCount = n + 1 →
          ∃ w parent, l.retryOf = some w ∧ s.streams[w]? = some parent ∧ l.logicalId = parent.logicalId ∧
            parent.errorRetryCount + parent.autoContinueCount = n := by
        intro x l hx hcount
        cases hretry : l.retryOf with
        | none =>
            obtain ⟨_, herror, hauto, _⟩ := hs.root x l hx hretry
            omega
        | some w =>
            obtain ⟨_, parent, hw, _, hcontinues⟩ := hs.link x l w hx hretry
            refine ⟨w, parent, rfl, hw, hcontinues.steps.1, ?_⟩
            rcases hcontinues.steps.2 with hsteps | hsteps <;> omega
      obtain ⟨v, parent, hretry, hv, hsame, hcount⟩ := hlater hy hn
      obtain ⟨w, parent', hretry', hw, hsame', hcount'⟩ := hlater hz hn'
      have hparents := ih hv hw (by rw [← hsame, hrun, hsame']) hcount hcount'
      subst hparents
      exact hs.unique y z h k v hy hz hretry hretry'

theorem Chained.run_size {s : State} (hs : Chained s) (r : StreamId) :
    (runStreams s r).card ≤ 1 + maxScheduledConfigAttempts.toNat + autoContinueMax := by
  let depth : StreamId → Nat := fun x => (s.streams[x]?.map fun h => h.errorRetryCount + h.autoContinueCount).getD 0
  have hdepth : ∀ {x : StreamId} {h : Stream}, s.streams[x]? = some h → depth x = h.errorRetryCount + h.autoContinueCount := by
    intro x h hx
    simp only [depth, hx, Option.map_some, Option.getD_some]
  have hrange : ∀ x ∈ runStreams s r, depth x ∈ Finset.range (1 + maxScheduledConfigAttempts.toNat + autoContinueMax) := by
    intro x hx
    obtain ⟨h, hx, _⟩ := mem_runStreams.mp hx
    obtain ⟨herror, hauto⟩ := hs.bounded x h hx
    rw [hdepth hx, Finset.mem_range]
    omega
  have hinjective : Set.InjOn depth (runStreams s r) := by
    intro x hx y hy heq
    obtain ⟨h, hx, hrun⟩ := mem_runStreams.mp hx
    obtain ⟨k, hy, hrun'⟩ := mem_runStreams.mp hy
    rw [hdepth hx, hdepth hy] at heq
    exact hs.same_depth _ hx hy (hrun.trans hrun'.symm) rfl heq.symm
  calc (runStreams s r).card ≤ (Finset.range (1 + maxScheduledConfigAttempts.toNat + autoContinueMax)).card :=
        Finset.card_le_card_of_injOn depth hrange hinjective
    _ = 1 + maxScheduledConfigAttempts.toNat + autoContinueMax := Finset.card_range _

-- Whatever is stored as configuration and whatever the texts are, a run is a short chain.
theorem chains_bounded {s : State} (hs : (machine reading classify).Reachable s) :
    (∀ (y x : StreamId) (h : Stream), s.streams[y]? = some h → h.retryOf = some x →
      ∃ parent, s.streams[x]? = some parent ∧ h.logicalId = parent.logicalId ∧ Steps parent h) ∧
    (∀ h ∈ s.streams, (h.errorRetryCount : Int) ≤ maxScheduledConfigAttempts ∧ h.autoContinueCount ≤ autoContinueMax) ∧
    ∀ r, (runStreams s r).card ≤ 1 + maxScheduledConfigAttempts.toNat + autoContinueMax := by
  have hchained := reachable_chained hs
  refine ⟨?_, ?_, hchained.run_size⟩
  · intro y x h hy hretry
    obtain ⟨_, parent, hx, _, hcontinues⟩ := hchained.link y h x hy hretry
    exact ⟨parent, hx, hcontinues.steps⟩
  · intro h hmem
    obtain ⟨y, hy⟩ := List.mem_iff_getElem?.mp hmem
    exact hchained.bounded y h hy

-- A reading of configurations that hold nothing, and the errors of a gateway.
def plainReading : Reading Unit where
  int _ := .error .invalid
  float _ := none
  bool _ := true

def gatewayError (text : String) : Option RecoverableErrorMatch :=
  if text = "!!!Error: HTTP 503" then some { label := "HTTPError", delayScale := 2 } else none

def finishes (x : StreamId) (text : String) : List (Action Unit) :=
  [.thread x (.done text), .thread x .step, .thread x .step, .thread x (.config none 1)]

-- The way from the decision to a retry, and from a truncated answer to its continuation.
def retries (x : StreamId) : List (Action Unit) :=
  [.thread x .step, .thread x (.wake true), .thread x .step, .thread x (.config none 1), .thread x .step,
    .thread x (.call true), .thread x (.call true), .thread x .step, .thread x .step]

def continues (x : StreamId) : List (Action Unit) :=
  [.thread x .step, .thread x .step, .thread x (.call true), .thread x (.call true), .thread x .step, .thread x .step]

-- `finally`
def ends (x : StreamId) : List (Action Unit) := [.thread x .step, .thread x .step]

def mixedChain : List (Action Unit) :=
  [Action.submit "webui" "s" true] ++ finishes 0 "!!!Error: HTTP 503" ++ retries 0 ++ ends 0 ++
    finishes 1 "[!!! Response truncated: max_tokens" ++ continues 1 ++ ends 1 ++ finishes 2 "done"

theorem chains_bounded_mixed : ∃ s : State, (machine plainReading gatewayError).run {} mixedChain = some s ∧
    s.streams.map (fun h => (h.errorRetryCount, h.autoContinueCount)) = [(0, 0), (1, 0), (1, 1)] ∧
    (runStreams s 0).card ≤ 13 := by
  have hrun : ((machine plainReading gatewayError).run {} mixedChain).map
      (fun s => s.streams.map fun h => (h.errorRetryCount, h.autoContinueCount)) = some [(0, 0), (1, 0), (1, 1)] := by
    decide +kernel
  obtain ⟨s, hrun, hcounts⟩ := Option.map_eq_some_iff.mp hrun
  exact ⟨s, hrun, hcounts, (chains_bounded ⟨mixedChain, hrun⟩).2.2 0⟩

end GaHub.Streams
