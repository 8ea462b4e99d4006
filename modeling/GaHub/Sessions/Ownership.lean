import GaHub.Sessions.Admission
import GaHub.Lib.Log

namespace GaHub.Sessions

open Lib

-- The `_runtime_for_session` a call is in, with its session.
def Call.creation : Call → Option (SessionId × Creation)
  | .submit session _ (.creating creation) => some (session, creation)
  | .control session _ (.creating creation) => some (session, creation)
  | .sideQuestion session (.creating creation) => some (session, creation)
  | .ensureRuntime session creation => some (session, creation)
  | _ => none

def Progress.creation (session : SessionId) : Progress → Option (SessionId × Creation)
  | .goesOn creation => some (session, creation)
  | _ => none

-- Between entering the creation gate and leaving it.
def Creation.inside : Creation → Bool
  | .lookup | .waiting _ => false
  | _ => true

def Creation.epoch : Creation → Option Nat
  | .waiting epoch | .holding epoch | .building epoch _ | .built epoch _ => some epoch
  | _ => none

-- A runtime that may still be installed, with the epoch it was asked for in.
def Creation.pending : Creation → Option (Nat × RuntimeId)
  | .building epoch runtime | .built epoch runtime => some (epoch, runtime)
  | _ => none

def Call.reserved : Call → Option (SessionId × String)
  | .control session operation _ => some (session, operation)
  | _ => none

-- A release between its unlocked pop and its epoch bump.
def Call.unbumped (session : SessionId) : Call → Bool
  | .control s _ (.detached _ _) => decide (s = session)
  | _ => false

def World.Creating (w : World) (i : CallId) (session : SessionId) (creation : Creation) : Prop :=
  ∃ call, w.calls[i]? = some call ∧ call.creation = some (session, creation)

def Effect.Plain : Effect → Prop
  | .submitCalled _ _ | .abortCalled _ | .shutdownCalled _ | .disposerCalled _ | .stopAccepted _
  | .handleFinished _ | .stateChanged _ | .shutdownReturned _ => True
  | _ => False

theorem Effect.Silent.plain {e : Effect} (h : e.Silent) : e.Plain := by
  cases e <;> trivial

theorem RuntimeCall.plain (c : RuntimeCall) : c.effect.Plain := by cases c <;> trivial

section Turns

variable {w : World} {me : CallId} {o : Outcome} {call : Call} {t : Turn}

theorem creation_turn {session : SessionId} {creation : Creation}
    (hc : call.creation = some (session, creation)) (h : call.next w me o = some t) :
    ∃ ct, CreationStep w.co w.serial me session creation ct ∧ t.co = ct.co ∧ t.log = ct.log ∧
      t.spawned = none ∧ t.call.creation = ct.progress.creation session ∧
      t.call.reserved = call.reserved ∧ ∀ s, t.call.unbumped s = false := by
  cases call with
  | submit s run pc =>
      cases pc <;> cases hc
      simp only [Call.next] at h
      cases submit_step h with
      | creating hct =>
          rename_i ct
          refine ⟨ct, hct, rfl, rfl, rfl, ?_, ?_, fun s => ?_⟩ <;>
            cases hp : ct.progress <;> simp [CreationTurn.turn, submitProgress, hp, Call.creation,
              Progress.creation, Call.reserved, Call.unbumped]
      | failed hbusy _ _ => exact absurd rfl (hbusy _)
      | ended hbusy _ => exact absurd rfl (hbusy _)
  | control s operation pc =>
      cases pc <;> cases hc
      simp only [Call.next] at h
      cases control_step h with
      | creating hct =>
          rename_i ct
          refine ⟨ct, hct, rfl, rfl, rfl, ?_, ?_, fun s => ?_⟩ <;>
            cases hp : ct.progress <;> simp [CreationTurn.turn, rewindProgress, hp, Call.creation,
              Progress.creation, Call.reserved, Call.unbumped]
      | worked hpc => simp at hpc
  | sideQuestion s pc =>
      cases pc <;> cases hc
      simp only [Call.next] at h
      cases btw_step h with
      | creating hct =>
          rename_i ct
          refine ⟨ct, hct, rfl, rfl, rfl, ?_, ?_, fun s => ?_⟩ <;>
            cases hp : ct.progress <;> simp [CreationTurn.turn, btwProgress, hp, Call.creation,
              Progress.creation, Call.reserved, Call.unbumped]
  | ensureRuntime s c =>
      cases hc
      obtain ⟨ct, hct, rfl⟩ := ensure_step h
      refine ⟨ct, hct, rfl, rfl, rfl, ?_, ?_, fun s => ?_⟩ <;>
        cases hp : ct.progress <;> simp [CreationTurn.turn, ensureProgress, hp, Call.creation,
          Progress.creation, Call.reserved, Call.unbumped]
  | _ => cases hc

structure SameMaps (co co' : SessionCoordinator) : Prop where
  runtimes : co'.runtimes = co.runtimes
  gates : co'.creationGates = co.creationGates
  epochs : co'.runtimeEpoch = co.runtimeEpoch
  requested : co'.shutdownRequested = co.shutdownRequested

theorem SameMaps.of_eq {co co' : SessionCoordinator} (hr : co'.runtimes = co.runtimes)
    (hg : co'.creationGates = co.creationGates) (he : co'.runtimeEpoch = co.runtimeEpoch)
    (hq : co'.shutdownRequested = co.shutdownRequested) : SameMaps co co' := ⟨hr, hg, he, hq⟩

-- A step outside `_runtime_for_session`, by what it does to the maps that govern creation.
inductive OtherStep (co : SessionCoordinator) (call : Call) (t : Turn) : Prop where
  | plain (hco : SameMaps co t.co) (hlog : ∀ e ∈ t.log, e.Plain)
      (hun : ∀ s, t.call.unbumped s = call.unbumped s)
  | requested (hco : SameMaps { co with shutdownRequested := true } t.co)
      (hlog : t.log = [.shutdownRequested])
      (hun : ∀ s, t.call.unbumped s = call.unbumped s)
  | detached (session : SessionId) (operation : String) (shutdown : Bool)
      (hcall : call = .control session operation (.detaching shutdown))
      (hco : SameMaps { co with runtimes := co.runtimes.erase session } t.co)
      (hlog : t.log = .released session :: removal session (co.runtimes.get? session))
      (hun : ∀ s, t.call.unbumped s = decide (session = s))
  | bumped (session : SessionId) (operation : String) (previous : Option RuntimeId) (shutdown : Bool)
      (hcall : call = .control session operation (.detached previous shutdown))
      (hco : SameMaps (co.bumpEpoch session) t.co)
      (hlog : t.log = [.invalidated session]) (hun : ∀ s, t.call.unbumped s = false)
  | replaced (session : SessionId) (operation : String) (prepared : Nat) (shutdown : Bool)
      (hcall : call = .control session operation (.replacing prepared shutdown))
      (hco : SameMaps { co.bumpEpoch session with
        runtimes := co.runtimes.set session (.prepared prepared) } t.co)
      (hlog : t.log = .replaced session :: removal session (co.runtimes.get? session))
      (hun : ∀ s, t.call.unbumped s = false)
  | cleared (hactive : co.activeBySession.keys = [])
      (hco : SameMaps { co with runtimes := .empty } t.co)
      (hlog : t.log = co.runtimes.entries.map (fun e => .removed e.1 e.2) ++ [.shutdownReturned true])
      (hun : ∀ s, t.call.unbumped s = call.unbumped s)

theorem sameMaps_closeWatcher (co : SessionCoordinator) (run : RunId) (thread : CallId) :
    SameMaps co (co.closeWatcher run thread) := by
  unfold SessionCoordinator.closeWatcher
  split <;> exact .of_eq rfl rfl rfl rfl

theorem sameMaps_leaveControl (co : SessionCoordinator) (session : SessionId) (operation : String) :
    SameMaps co (co.leaveControl session operation) := by
  unfold SessionCoordinator.leaveControl
  split <;> exact .of_eq rfl rfl rfl rfl

theorem sameMaps_releaseReservation (co : SessionCoordinator) (session : SessionId) (run : RunId) :
    SameMaps co (co.releaseReservation session run) := by
  unfold SessionCoordinator.releaseReservation
  dsimp only
  split <;> exact .of_eq rfl rfl rfl rfl

theorem sameMaps_rollbackWatcher (co : SessionCoordinator) (session : SessionId) (run : RunId) :
    SameMaps co (co.rollbackWatcher session run) := by
  unfold SessionCoordinator.rollbackWatcher
  dsimp only
  split <;> exact .of_eq rfl rfl rfl rfl

theorem submit_other {session : SessionId} {run : RunId} {pc : SubmitPc}
    (hpc : ∀ creation, pc ≠ .creating creation)
    (h : SubmitStep w.co w.serial me w.calls.length session run pc t) :
    OtherStep w.co (.submit session run pc) t := by
  cases h with
  | creating hc => exact absurd rfl (hpc _)
  | called => exact .plain (.of_eq rfl rfl rfl rfl) (by simp [Effect.Plain]) fun s => rfl
  | orphaned hr => exact .plain (.of_eq rfl rfl rfl rfl) (by simp [Effect.Plain]) fun s => rfl
  | unwatched =>
      exact .plain (sameMaps_rollbackWatcher w.co session run) (by simp [Effect.Plain]) fun s => rfl
  | failed _ _ hlog => exact .plain (.of_eq rfl rfl rfl rfl) (fun e he => (hlog e he).plain) fun s => rfl
  | ended _ hlog => exact .plain (.of_eq rfl rfl rfl rfl) (fun e he => (hlog e he).plain) fun s => rfl
  | released =>
      exact .plain (sameMaps_releaseReservation w.co session run) (by simp) fun s => rfl
  | _ => exact .plain (.of_eq rfl rfl rfl rfl) (by simp) fun s => rfl

theorem control_other {session : SessionId} {operation : String} {pc : ControlPc}
    (hpc : ∀ creation, pc ≠ .creating creation)
    (h : ControlStep w.co w.serial me session operation pc t) :
    OtherStep w.co (.control session operation pc) t := by
  cases h with
  | creating hc => exact absurd rfl (hpc _)
  | worked hpc' =>
      refine .plain (.of_eq rfl rfl rfl rfl) (fun e he => ?_) fun s => ?_
      · simp only [Option.mem_toList, Option.map_eq_some_iff] at he
        obtain ⟨c, _, rfl⟩ := he
        exact c.plain
      · rcases hpc' with rfl | ⟨runtime, rfl⟩ | ⟨call, rfl⟩ <;> rfl
  | detached => exact .detached session operation _ rfl (.of_eq rfl rfl rfl rfl) rfl fun s => rfl
  | bumped => exact .bumped session operation _ _ rfl (.of_eq rfl rfl rfl rfl) rfl fun s => rfl
  | replaced => exact .replaced session operation _ _ rfl (.of_eq rfl rfl rfl rfl) rfl fun s => rfl
  | left =>
      exact .plain (sameMaps_leaveControl w.co session operation) (by simp) fun s => rfl

theorem other_turn (hc : call.creation = none) (h : call.next w me o = some t) :
    OtherStep w.co call t := by
  cases call with
  | submit session run pc =>
      refine submit_other (fun creation hpc => ?_) (submit_step h)
      subst hpc
      cases hc
  | control session operation pc =>
      refine control_other (fun creation hpc => ?_) (control_step h)
      subst hpc
      cases hc
  | sideQuestion session pc =>
      cases btw_step h with
      | creating hct => cases hc
      | answered => exact .plain (.of_eq rfl rfl rfl rfl) (by simp) fun s => rfl
      | left => exact .plain (.of_eq rfl rfl rfl rfl) (by simp) fun s => rfl
  | ensureRuntime session creation => cases hc
  | watcher session run pc =>
      cases watcher_step h with
      | moved hlog => exact .plain (.of_eq rfl rfl rfl rfl) (fun e he => (hlog e he).plain) fun s => rfl
      | expired _ _ _ => exact .plain (.of_eq rfl rfl rfl rfl) (by simp) fun s => rfl
      | completed _ => exact .plain (.of_eq rfl rfl rfl rfl) (by simp [Effect.Plain]) fun s => rfl
      | closed =>
          exact .plain (sameMaps_closeWatcher w.co run me) (by simp) fun s => rfl
  | worker job pc =>
      obtain ⟨pc', log, hlog, rfl⟩ := worker_step h
      refine .plain (.of_eq rfl rfl rfl rfl) (fun e he => ?_) fun s => rfl
      rcases hlog with rfl | rfl
      · simp at he
      · rw [List.mem_singleton.mp he]
        exact job.plain
  | shutdown pc =>
      cases shutdown_step h with
      | requested => exact .requested (.of_eq rfl rfl rfl rfl) rfl fun s => rfl
      | marked _ _ _ _ _ => exact .plain (.of_eq rfl rfl rfl rfl) (by simp) fun s => rfl
      | moved hco _ =>
          exact .plain (.of_eq hco.runtimes hco.gates hco.epochs hco.requested) (by simp) fun s => rfl
      | ended hco hlog _ =>
          exact .plain (.of_eq hco.runtimes hco.gates hco.epochs hco.requested)
            (fun e he => (hlog e he).plain) fun s => rfl
      | cleared hactive hco =>
          exact .cleared hactive (.of_eq hco.runtimes hco.gates hco.epochs hco.requested) rfl fun s => rfl
  | done => cases h

theorem other_calls (hc : call.creation = none) (h : call.next w me o = some t) :
    t.call.creation = none ∧ (∀ r, t.call.reserved = some r → call.reserved = some r) ∧
      ∀ c, t.spawned = some c → c.creation = none ∧ c.reserved = none ∧ ∀ s, c.unbumped s = false := by
  cases call with
  | submit session run pc =>
      cases submit_step h with
      | creating hct => cases hc
      | failed _ hpc _ => rcases hpc with rfl | rfl <;> simp [Call.creation, Call.reserved]
      | _ => simp [Call.creation, Call.reserved, Call.unbumped]
  | control session operation pc =>
      cases control_step h with
      | creating hct => cases hc
      | _ => simp [Call.creation, Call.reserved]
  | sideQuestion session pc =>
      cases btw_step h with
      | creating hct => cases hc
      | _ => simp [Call.creation, Call.reserved]
  | ensureRuntime session creation => cases hc
  | watcher session run pc => cases watcher_step h <;> simp [Call.creation, Call.reserved]
  | worker job pc =>
      obtain ⟨pc', log, _, rfl⟩ := worker_step h
      simp [Call.creation, Call.reserved]
  | shutdown pc =>
      cases shutdown_step h with
      | moved _ hspawned | ended _ _ hspawned =>
          refine ⟨rfl, by simp [Call.reserved], fun c hcs => ?_⟩
          obtain ⟨job, wpc, rfl⟩ := hspawned c hcs
          exact ⟨rfl, rfl, fun s => rfl⟩
      | _ => simp [Call.creation, Call.reserved]
  | done => cases h

end Turns

-- A step taken from outside: a call enters, or an abort passes through.
structure Entered (w w' : World) : Prop where
  maps : SameMaps w.co w'.co
  calls : w'.calls = w.calls ∨ ∃ call, w'.calls = w.calls ++ [call] ∧
    (∀ s c, call.creation = some (s, c) → c = .lookup) ∧ ∀ s, call.unbumped s = false
  log : ∃ more, w'.log = w.log ++ more ∧ ∀ e ∈ more, e.Plain
  serial : w.serial ≤ w'.serial

theorem abortCalls_plain (co : SessionCoordinator) (active : RuntimeState) :
    ∀ e ∈ abortCalls co active, e.Plain := by
  intro e he
  simp only [abortCalls, Option.mem_toList, Option.map_eq_some_iff] at he
  obtain ⟨runtime, _, rfl⟩ := he
  trivial

theorem AbortStep.entered {w w' : World} {active : RuntimeState} {raises : Bool}
    (h : AbortStep w active raises w') :
    Entered w w' := by
  cases h with
  | raised =>
      exact ⟨.of_eq rfl rfl rfl rfl, Or.inl rfl, ⟨_, rfl, abortCalls_plain _ _⟩, Nat.le_refl _⟩
  | again _ hlog =>
      refine ⟨.of_eq rfl rfl rfl rfl, Or.inl rfl, ⟨_, rfl, fun e he => ?_⟩, Nat.le_refl _⟩
      obtain ⟨run, rfl, _⟩ := hlog e he
      trivial
  | marked _ _ _ =>
      refine ⟨.of_eq rfl rfl rfl rfl, Or.inl rfl, ⟨_, rfl, fun e he => ?_⟩, Nat.le_refl _⟩
      rcases List.mem_append.mp he with he | he
      · exact abortCalls_plain _ _ e he
      · rw [List.mem_singleton.mp he]
        trivial

theorem WorldStep.view {w w' : World} {a : Action} (h : WorldStep w a w') :
    Entered w w' ∨ ∃ me o call t, a = .step me o ∧ w.calls[me]? = some call ∧
      call.next w me o = some t ∧ w' = w.turn me t := by
  have hnone : ∃ more : List Effect, w.log = w.log ++ more ∧ ∀ e ∈ more, e.Plain :=
    ⟨[], by simp, by simp⟩
  cases h with
  | refused => exact Or.inl ⟨.of_eq rfl rfl rfl rfl, Or.inl rfl, hnone, Nat.le_refl _⟩
  | admitted _ _ _ | asked _ | ensured =>
      exact Or.inl ⟨.of_eq rfl rfl rfl rfl, Or.inr ⟨_, rfl, by simp [Call.creation], fun s => rfl⟩,
        hnone, Nat.le_succ _⟩
  | controlled hpc _ _ _ =>
      refine Or.inl ⟨.of_eq rfl rfl rfl rfl, Or.inr ⟨_, rfl, ?_, ?_⟩, hnone, Nat.le_succ _⟩ <;>
        rcases hpc with hpc | ⟨shutdown, rfl⟩ | ⟨prepared, shutdown, rfl⟩
      · rcases List.mem_cons.mp hpc with rfl | hpc
        · simp [Call.creation]
        · rw [List.mem_singleton.mp hpc]
          simp [Call.creation]
      · simp [Call.creation]
      · simp [Call.creation]
      · rcases List.mem_cons.mp hpc with rfl | hpc
        · exact fun s => rfl
        · rw [List.mem_singleton.mp hpc]
          exact fun s => rfl
      · exact fun s => rfl
      · exact fun s => rfl
  | aborted _ habort => exact Or.inl habort.entered
  | routed =>
      refine Or.inl ⟨.of_eq rfl rfl rfl rfl, Or.inl rfl, ⟨_, rfl, fun e he => ?_⟩, Nat.le_refl _⟩
      rw [List.mem_singleton.mp he]
      trivial
  | stopping =>
      exact Or.inl ⟨.of_eq rfl rfl rfl rfl, Or.inr ⟨_, rfl, by simp [Call.creation], fun s => rfl⟩,
        hnone, Nat.le_succ _⟩
  | stepped hcall hnext => exact Or.inr ⟨_, _, _, _, rfl, hcall, hnext, rfl⟩

theorem Entered.creating {w w' : World} (h : Entered w w') {i : CallId} {s : SessionId} {c : Creation}
    (hc : w'.Creating i s c) : w.Creating i s c ∨ c = .lookup := by
  obtain ⟨call, hi, hcr⟩ := hc
  rcases h.calls with heq | ⟨new, heq, hnew, _⟩
  · rw [heq] at hi
    exact Or.inl ⟨call, hi, hcr⟩
  · rw [heq] at hi
    rcases getElem?_concat_cases hi with hi | ⟨_, rfl⟩
    · exact Or.inl ⟨call, hi, hcr⟩
    · exact Or.inr (hnew s c hcr)

theorem creating_turn {w : World} {me i : CallId} {t : Turn} {s : SessionId} {c : Creation}
    (hspawned : ∀ d, t.spawned = some d → d.creation = none) (hc : (w.turn me t).Creating i s c) :
    (i = me ∧ t.call.creation = some (s, c)) ∨ (i ≠ me ∧ w.Creating i s c) := by
  obtain ⟨call, hi, hcr⟩ := hc
  rcases replaceSlot_cases hi with ⟨rfl, rfl⟩ | ⟨hne, hi⟩ | ⟨_, hsp⟩
  · exact Or.inl ⟨rfl, hcr⟩
  · exact Or.inr ⟨hne, call, hi, hcr⟩
  · rw [hspawned call hsp] at hcr
    cases hcr

-- Who is inside a creation gate, and what its captured epoch protects.
structure Owned (w : World) : Prop where
  gated : ∀ i s c, w.Creating i s c → c.inside = true →
    w.co.creationGates.get? s = some (some i)
  epochs : ∀ i s c e, w.Creating i s c → c.epoch = some e → e ≤ w.co.epoch s
  vacant : ∀ i s c e rt, w.Creating i s c → c.pending = some (e, rt) →
    w.co.runtimes.get? s = none ∨ e < w.co.epoch s

theorem epoch_congr {co co' : SessionCoordinator} (h : co'.runtimeEpoch = co.runtimeEpoch)
    (s : SessionId) : co'.epoch s = co.epoch s := by
  rw [SessionCoordinator.epoch, h, SessionCoordinator.epoch]

theorem epoch_bump (co : SessionCoordinator) (session s : SessionId) :
    (co.bumpEpoch session).epoch s = if s = session then co.epoch s + 1 else co.epoch s := by
  rw [SessionCoordinator.epoch, SessionCoordinator.bumpEpoch, Dict.get?_set]
  split
  · rename_i hs
    rw [hs]
    rfl
  · rfl

-- A step that opens no gate: creations stay as they were, epochs only grow,
-- and a session that gains a runtime gains an epoch with it.
theorem Owned.frame {w w' : World} (h : Owned w) (hg : w'.co.creationGates = w.co.creationGates)
    (he : ∀ s, w.co.epoch s ≤ w'.co.epoch s)
    (hv : ∀ s, w.co.runtimes.get? s = none →
      w'.co.runtimes.get? s = none ∨ w.co.epoch s < w'.co.epoch s)
    (hc : ∀ i s c, w'.Creating i s c → w.Creating i s c ∨ c = .lookup) : Owned w' := by
  refine ⟨fun i s c hcr hin => ?_, fun i s c e hcr hep => ?_, fun i s c e rt hcr hp => ?_⟩
  · rcases hc i s c hcr with hcr | rfl
    · rw [hg]
      exact h.gated i s c hcr hin
    · cases hin
  · rcases hc i s c hcr with hcr | rfl
    · exact Nat.le_trans (h.epochs i s c e hcr hep) (he s)
    · cases hep
  · rcases hc i s c hcr with hcr | rfl
    · have hle : e ≤ w.co.epoch s := by
        refine h.epochs i s c e hcr ?_
        cases c <;> cases hp <;> rfl
      rcases h.vacant i s c e rt hcr hp with hnone | hlt
      · exact (hv s hnone).imp_right fun hlt => Nat.lt_of_le_of_lt hle hlt
      · exact Or.inr (Nat.lt_of_lt_of_le hlt (he s))
    · cases hp

-- A step inside `_runtime_for_session`. Whoever else is inside a gate is
-- inside that of another session.
theorem Owned.create {w : World} (h : Owned w) {me : CallId} {t : Turn} {session : SessionId}
    {creation : Creation} {ct : CreationTurn} (hme : w.Creating me session creation)
    (hstep : CreationStep w.co w.serial me session creation ct) (hco : t.co = ct.co)
    (hspawned : t.spawned = none) (hcall : t.call.creation = ct.progress.creation session) :
    Owned (w.turn me t) := by
  have hother : ∀ i s c, i ≠ me → w.Creating i s c → c.inside = true → creation.inside = true →
      s ≠ session := by
    rintro i s c hne hcr hin hmein rfl
    have hi := h.gated i s c hcr hin
    rw [h.gated me s creation hme hmein] at hi
    exact hne (Option.some.inj (Option.some.inj hi)).symm
  have hsplit : ∀ i s c, (w.turn me t).Creating i s c →
      (i = me ∧ s = session ∧ ct.progress = .goesOn c) ∨ (i ≠ me ∧ w.Creating i s c) := by
    intro i s c hcr
    refine (creating_turn (fun d hd => by rw [hspawned] at hd; cases hd) hcr).imp_left
      fun ⟨hi, hc⟩ => ⟨hi, ?_⟩
    rw [hcall] at hc
    cases hp : ct.progress <;> rw [hp] at hc <;> cases hc
    exact ⟨rfl, rfl⟩
  have hepoch : ∀ s, (w.turn me t).co.epoch s = w.co.epoch s := by
    intro s
    change t.co.epoch s = w.co.epoch s
    rw [hco]
    cases hstep <;> rfl
  refine ⟨fun i s c hcr hin => ?_, fun i s c e hcr hep => ?_, fun i s c e rt hcr hp => ?_⟩
  · change t.co.creationGates.get? s = _
    rw [hco]
    rcases hsplit i s c hcr with ⟨rfl, rfl, hgo⟩ | ⟨hne, hcr⟩
    · have hmine := h.gated i s creation hme
      cases hstep with
      | entered _ =>
          cases hgo
          exact Dict.get?_set_self ..
      | started _ | returned | rejected _ => exact hmine rfl
      | queued _ _ =>
          cases hgo
          cases hin
      | _ => cases hgo
    · have hi := h.gated i s c hcr hin
      cases hstep with
      | queued _ hg =>
          rcases hg s with heq | ⟨hnone, _⟩
          · exact heq.trans hi
          · rw [hnone] at hi
            cases hi
      | entered hg =>
          refine (Dict.get?_set_ne _ _ ?_).trans hi
          rintro rfl
          rw [hg] at hi
          cases hi
      | refound _ | raised | installed _ _ | discarded =>
          exact (Dict.get?_set_ne _ _ (hother i s c hne hcr hin rfl)).trans hi
      | _ => exact hi
  · rw [hepoch]
    rcases hsplit i s c hcr with ⟨rfl, rfl, hgo⟩ | ⟨_, hcr⟩
    · have hmine := h.epochs i s creation e hme
      cases hstep with
      | queued _ _ =>
          cases hgo
          cases hep
          exact Nat.le_refl _
      | entered _ | started _ | returned =>
          cases hgo
          exact hmine hep
      | rejected _ =>
          cases hgo
          cases hep
      | _ => cases hgo
    · exact h.epochs i s c e hcr hep
  · rw [hepoch]
    change t.co.runtimes.get? s = none ∨ _
    rw [hco]
    rcases hsplit i s c hcr with ⟨rfl, rfl, hgo⟩ | ⟨hne, hcr⟩
    · have hmine := h.vacant i s creation e rt hme
      cases hstep with
      | started hr => exact Or.inl hr
      | returned =>
          cases hgo
          exact hmine hp
      | queued _ _ | entered _ | rejected _ =>
          cases hgo
          cases hp
      | _ => cases hgo
    · have hi := h.vacant i s c e rt hcr hp
      cases hstep with
      | installed _ _ =>
          have hin : c.inside = true := by cases c <;> cases hp <;> rfl
          exact hi.imp_left fun hnone =>
            (Dict.get?_set_ne _ _ (hother i s c hne hcr hin rfl)).trans hnone
      | _ => exact hi

theorem Owned.other {w : World} (h : Owned w) {me : CallId} {call : Call} {t : Turn}
    (hstep : OtherStep w.co call t) (hcall : t.call.creation = none)
    (hspawned : ∀ d, t.spawned = some d → d.creation = none) : Owned (w.turn me t) := by
  have hcreating : ∀ i s c, (w.turn me t).Creating i s c → w.Creating i s c ∨ c = .lookup := by
    intro i s c hcr
    rcases creating_turn hspawned hcr with ⟨_, hc⟩ | ⟨_, hcr⟩
    · rw [hcall] at hc
      cases hc
    · exact Or.inl hcr
  have hsame : t.co.runtimeEpoch = w.co.runtimeEpoch → ∀ s, w.co.epoch s ≤ t.co.epoch s :=
    fun heq s => Nat.le_of_eq (epoch_congr heq s).symm
  have hbump : ∀ session, t.co.runtimeEpoch = (w.co.bumpEpoch session).runtimeEpoch →
      ∀ s, w.co.epoch s ≤ t.co.epoch s := fun session heq s => by
    rw [epoch_congr heq s, epoch_bump]
    split <;> omega
  cases hstep with
  | plain hco _ _ | requested hco _ _ =>
      refine h.frame hco.gates (hsame hco.epochs) (fun s hn => Or.inl ?_) hcreating
      exact (congrArg (Dict.get? · s) hco.runtimes).trans hn
  | detached session _ _ _ hco _ _ =>
      refine h.frame hco.gates (hsame hco.epochs) (fun s hn => Or.inl ?_) hcreating
      refine (congrArg (Dict.get? · s) hco.runtimes).trans ((Dict.get?_erase ..).trans ?_)
      split
      · rfl
      · exact hn
  | bumped session _ _ _ _ hco _ _ =>
      refine h.frame hco.gates (hbump session hco.epochs) (fun s hn => Or.inl ?_) hcreating
      exact (congrArg (Dict.get? · s) hco.runtimes).trans hn
  | replaced session _ runtime _ _ hco _ _ =>
      refine h.frame hco.gates (hbump session hco.epochs) (fun s hn => ?_) hcreating
      by_cases hs : s = session
      · refine Or.inr ?_
        have hnew : t.co.runtimeEpoch = (w.co.bumpEpoch session).runtimeEpoch := hco.epochs
        change w.co.epoch s < t.co.epoch s
        rw [epoch_congr hnew s, epoch_bump, if_pos hs]
        exact Nat.lt_succ_self _
      · exact Or.inl ((congrArg (Dict.get? · s) hco.runtimes).trans
          ((Dict.get?_set_ne _ _ hs).trans hn))
  | cleared _ hco _ _ =>
      refine h.frame hco.gates (hsame hco.epochs) (fun s hn => Or.inl ?_) hcreating
      exact congrArg (Dict.get? · s) hco.runtimes

theorem next_owned {w w' : World} (h : Owned w) {a : Action} (hstep : w.next a = some w') :
    Owned w' := by
  rcases (world_step hstep).view with henter | ⟨me, o, call, t, _, hcall, hnext, rfl⟩
  · refine h.frame henter.maps.gates
      (fun s => Nat.le_of_eq (epoch_congr henter.maps.epochs s).symm) (fun s hn => ?_)
      fun i s c hcr => henter.creating hcr
    exact Or.inl ((congrArg (Dict.get? · s) henter.maps.runtimes).trans hn)
  · cases hc : call.creation with
    | none =>
        obtain ⟨hcr, _, hspawned⟩ := other_calls hc hnext
        exact h.other (other_turn hc hnext) hcr fun d hd => (hspawned d hd).1
    | some sc =>
        obtain ⟨ct, hct, hco, _, hspawned, hcr, _⟩ := creation_turn hc hnext
        exact h.create ⟨call, hcall, hc⟩ hct hco hspawned hcr

theorem reachable_owned {capacity : Nat} {abortTimeout : Time} {w : World}
    (h : (sessionMachine capacity abortTimeout).Reachable w) : Owned w := by
  refine h.invariant ⟨?_, ?_, ?_⟩ fun s a t hs hstep => next_owned hs hstep
  · rintro i s c ⟨call, hi, _⟩
    cases hi
  · rintro i s c e ⟨call, hi, _⟩
    cases hi
  · rintro i s c e rt ⟨call, hi, _⟩
    cases hi

-- Every control in `_exclusive_controls` that a call relies on is its own.
structure Reserved (w : World) : Prop where
  held : ∀ call ∈ w.calls, ∀ s op, call.reserved = some (s, op) →
    w.co.exclusiveControls.get? s = some op
  apart : Exclusive (fun call => call.reserved.map Prod.fst) w.calls

theorem turn_controls {w : World} {me : CallId} {o : Outcome} {call : Call} {t : Turn}
    (h : call.next w me o = some t) :
    t.co.exclusiveControls = w.co.exclusiveControls ∨
      ∃ s op, call = .control s op .leaving ∧ t.call = .done ∧
        t.co.exclusiveControls = (w.co.leaveControl s op).exclusiveControls := by
  cases call with
  | submit session run pc => exact Or.inl (submit_step h).shrinks.controls
  | control session operation pc =>
      cases control_step h with
      | creating hct => exact Or.inl hct.shrinks.controls
      | left => exact Or.inr ⟨session, operation, rfl, rfl, rfl⟩
      | _ => exact Or.inl rfl
  | sideQuestion session pc =>
      cases btw_step h with
      | creating hct => exact Or.inl hct.shrinks.controls
      | _ => exact Or.inl rfl
  | ensureRuntime session creation =>
      obtain ⟨ct, hct, rfl⟩ := ensure_step h
      exact Or.inl hct.shrinks.controls
  | watcher session run pc => exact Or.inl (watcher_step h).shrinks.controls
  | worker job pc =>
      obtain ⟨pc', log, _, rfl⟩ := worker_step h
      exact Or.inl rfl
  | shutdown pc => exact Or.inl (shutdown_step h).shrinks.controls
  | done => cases h

theorem turn_reserved {w : World} {me : CallId} {o : Outcome} {call : Call} {t : Turn}
    (h : call.next w me o = some t) :
    (∀ r, t.call.reserved = some r → call.reserved = some r) ∧
      ∀ c, t.spawned = some c → c.reserved = none := by
  cases hc : call.creation with
  | none =>
      obtain ⟨_, hr, hspawned⟩ := other_calls hc h
      exact ⟨hr, fun c hcs => (hspawned c hcs).2.1⟩
  | some sc =>
      obtain ⟨ct, _, _, _, hspawned, _, hr, _⟩ := creation_turn hc h
      refine ⟨fun r hr' => hr ▸ hr', fun c hcs => ?_⟩
      rw [hspawned] at hcs
      cases hcs

theorem Reserved.turn {w : World} (h : Reserved w) {me : CallId} {o : Outcome} {call : Call}
    {t : Turn} (hcall : w.calls[me]? = some call) (hnext : call.next w me o = some t) :
    Reserved (w.turn me t) := by
  obtain ⟨hkeep, hspawned⟩ := turn_reserved hnext
  refine ⟨fun c hc s op hr => ?_, h.apart.replaceSlot hcall (fun s hs => ?_) fun c s hcs hs => ?_⟩
  · obtain ⟨i, hi⟩ := List.mem_iff_getElem?.mp hc
    change t.co.exclusiveControls.get? s = some op
    -- a call that leaves takes only its own control with it
    have hold : ∃ c₀ j, w.calls[j]? = some c₀ ∧ c₀.reserved = some (s, op) ∧
        (j = me → t.call.reserved = some (s, op)) := by
      rcases replaceSlot_cases hi with ⟨rfl, rfl⟩ | ⟨hne, hi⟩ | ⟨_, hsp⟩
      · exact ⟨call, i, hcall, hkeep _ hr, fun _ => hr⟩
      · exact ⟨c, i, hi, hr, fun hj => absurd hj hne⟩
      · rw [hspawned c hsp] at hr
        cases hr
    obtain ⟨c₀, j, hj, hr₀, hme⟩ := hold
    have hheld := h.held c₀ (List.mem_of_getElem? hj) s op hr₀
    rcases turn_controls hnext with heq | ⟨s', op', rfl, hdone, heq⟩
    · rw [heq]
      exact hheld
    · have hne : s ≠ s' := by
        rintro rfl
        have hjme := h.apart j me _ _ s hj hcall (by simp [hr₀]) rfl
        have := hme hjme
        rw [hdone] at this
        cases this
      rw [heq, SessionCoordinator.leaveControl]
      split
      · rw [Dict.get?_erase_ne _ hne]
        exact hheld
      · exact hheld
  · obtain ⟨r, hr, rfl⟩ := Option.map_eq_some_iff.mp hs
    simp [hkeep r hr]
  · simp [hspawned c hcs] at hs

theorem Reserved.enter {w : World} (h : Reserved w) {co : SessionCoordinator} {call : Call}
    {log : List Effect} {serial : Nat} (hctl : co.exclusiveControls = w.co.exclusiveControls)
    (hcall : call.reserved = none) :
    Reserved { co, calls := w.calls ++ [call], serial, log } := by
  refine ⟨fun c hc s op hr => ?_, h.apart.append fun s hs => by simp [hcall] at hs⟩
  rcases List.mem_append.mp hc with hc | hc
  · exact hctl ▸ h.held c hc s op hr
  · rw [List.mem_singleton.mp hc, hcall] at hr
    cases hr

theorem next_reserved {w w' : World} (h : Reserved w) {a : Action} (hstep : w.next a = some w') :
    Reserved w' := by
  cases world_step hstep with
  | refused => exact h
  | admitted _ _ _ | asked _ | ensured | stopping => exact h.enter rfl rfl
  | @controlled _ session operation pc _ hctl _ _ =>
      have hfree : ∀ c ∈ w.calls, ∀ op, c.reserved ≠ some (session, op) := fun c hc op hr => by
        rw [h.held c hc session op hr] at hctl
        cases hctl
      refine ⟨fun c hc s op hr => ?_, h.apart.append fun s hs c hc hs' => ?_⟩
      · change (w.co.exclusiveControls.set session operation).get? s = some op
        rcases List.mem_append.mp hc with hold | hc
        · have hne : s ≠ session := fun hs => hfree c hold op (hs ▸ hr)
          rw [Dict.get?_set_ne _ _ hne]
          exact h.held c hold s op hr
        · rw [List.mem_singleton.mp hc] at hr
          cases hr
          exact Dict.get?_set_self ..
      · cases hs
        obtain ⟨⟨s', op⟩, hr, rfl⟩ := Option.map_eq_some_iff.mp hs'
        exact hfree c hc op hr
  | aborted _ habort => cases habort <;> exact ⟨h.held, h.apart⟩
  | routed => exact ⟨h.held, h.apart⟩
  | stepped hcall hnext => exact h.turn hcall hnext

theorem reachable_reserved {capacity : Nat} {abortTimeout : Time} {w : World}
    (h : (sessionMachine capacity abortTimeout).Reachable w) : Reserved w := by
  refine h.invariant ⟨?_, .nil _⟩ fun s a t hs hstep => next_reserved hs hstep
  intro call hcall
  cases hcall

end GaHub.Sessions
