import GaHub.Sessions.Steps

namespace GaHub.Sessions

open Lib

-- A BTW call counts from its reservation to its `finally`.
def Call.asks (session : SessionId) : Call → Bool
  | .sideQuestion s _ => decide (s = session)
  | _ => false

structure Admitted (capacity : Nat) (w : World) : Prop where
  fixed : w.co.capacity = capacity
  bounded : w.co.activeBySession.size ≤ capacity
  named : ∀ s st, w.co.activeBySession.get? s = some st → st.sessionId = s
  apart : ∀ s st, w.co.activeBySession.get? s = some st → w.co.exclusiveControls.get? s = none
  quiet : ∀ s op, w.co.exclusiveControls.get? s = some op → w.co.sideCount s = 0
  counted : ∀ s, w.co.sideCount s = w.calls.countP (Call.asks s)

-- Entries may be rewritten or dropped, but the other reservations stay.
structure Shrinks (co co' : SessionCoordinator) : Prop where
  capacity : co'.capacity = co.capacity
  controls : co'.exclusiveControls = co.exclusiveControls
  questions : co'.sideQuestions = co.sideQuestions
  size : co'.activeBySession.size ≤ co.activeBySession.size
  entries : ∀ s st', co'.activeBySession.get? s = some st' →
    ∃ st, co.activeBySession.get? s = some st ∧ (st.sessionId = s → st'.sessionId = s)

namespace Shrinks

variable {co co' : SessionCoordinator}

theorem of_eq (hcap : co'.capacity = co.capacity)
    (hctl : co'.exclusiveControls = co.exclusiveControls)
    (hside : co'.sideQuestions = co.sideQuestions)
    (hact : co'.activeBySession = co.activeBySession) : Shrinks co co' :=
  ⟨hcap, hctl, hside, Nat.le_of_eq (by rw [hact]), fun s st' h => ⟨st', hact ▸ h, id⟩⟩

theorem refl (co : SessionCoordinator) : Shrinks co co := of_eq rfl rfl rfl rfl

theorem of_set {session : SessionId} {st st' : RuntimeState} (hcap : co'.capacity = co.capacity)
    (hctl : co'.exclusiveControls = co.exclusiveControls)
    (hside : co'.sideQuestions = co.sideQuestions)
    (hact : co'.activeBySession = co.activeBySession.set session st')
    (hs : co.activeBySession.get? session = some st)
    (hid : st.sessionId = session → st'.sessionId = session) : Shrinks co co' := by
  refine ⟨hcap, hctl, hside, Nat.le_of_eq ?_, fun s st₁ h₁ => ?_⟩
  · rw [Dict.size_eq_length_keys, Dict.size_eq_length_keys, hact,
      Dict.keys_set_of_mem _ (Dict.mem_keys_of_get? hs)]
  · rw [hact] at h₁
    by_cases hne : s = session
    · subst hne
      rw [Dict.get?_set_self] at h₁
      cases h₁
      exact ⟨st, hs, hid⟩
    · rw [Dict.get?_set_ne _ _ hne] at h₁
      exact ⟨st₁, h₁, id⟩

theorem of_erase {session : SessionId} (hcap : co'.capacity = co.capacity)
    (hctl : co'.exclusiveControls = co.exclusiveControls)
    (hside : co'.sideQuestions = co.sideQuestions)
    (hact : co'.activeBySession = co.activeBySession.erase session) : Shrinks co co' := by
  refine ⟨hcap, hctl, hside, ?_, fun s st h => ?_⟩
  · rw [hact]
    exact Dict.size_filter_le _ _
  · rw [hact, Dict.get?_erase] at h
    split at h
    · cases h
    · exact ⟨st, h, id⟩

end Shrinks

theorem reservation_eq_some {co : SessionCoordinator} {session : SessionId} {run : RunId}
    {active : RuntimeState} (h : co.reservation session run = some active) :
    co.activeBySession.get? session = some active ∧ active.runId = some run := by
  obtain ⟨ha, hr⟩ := Option.filter_eq_some_iff.mp h
  exact ⟨ha, of_decide_eq_true hr⟩

section Steps

variable {co : SessionCoordinator} {fresh : Nat} {me spawnId : CallId} {session : SessionId}

theorem CreationStep.shrinks {creation : Creation} {t : CreationTurn}
    (h : CreationStep co fresh me session creation t) : Shrinks co t.co := by
  cases h <;> exact .of_eq rfl rfl rfl rfl

theorem SubmitStep.shrinks {run : RunId} {pc : SubmitPc} {t : Turn}
    (h : SubmitStep co fresh me spawnId session run pc t) : Shrinks co t.co := by
  cases h with
  | creating hc => exact hc.shrinks
  | settled hr _ => exact .of_erase rfl rfl rfl rfl
  | running hr _ => exact .of_set rfl rfl rfl rfl (reservation_eq_some hr).1 fun _ => rfl
  | unwatched =>
      dsimp only [SessionCoordinator.rollbackWatcher]
      split
      · exact .of_erase rfl rfl rfl rfl
      · exact .of_eq rfl rfl rfl rfl
  | released =>
      dsimp only [SessionCoordinator.releaseReservation]
      split
      · exact .of_erase rfl rfl rfl rfl
      · exact .of_eq rfl rfl rfl rfl
  | _ => exact .of_eq rfl rfl rfl rfl

theorem WatcherStep.shrinks {run : RunId} {pc : WatcherPc} {t : Turn}
    (h : WatcherStep co me session run pc t) : Shrinks co t.co := by
  cases h with
  | moved _ => exact .refl co
  | expired hr _ hstate =>
      refine .of_set rfl rfl rfl rfl (reservation_eq_some hr).1 fun hid => ?_
      rw [hstate]
      exact hid
  | completed _ => exact .of_erase rfl rfl rfl rfl
  | closed =>
      dsimp only [SessionCoordinator.closeWatcher]
      split <;> exact .of_eq rfl rfl rfl rfl

theorem ShutdownStep.shrinks {pc : ShutdownPc} {t : Turn} (h : ShutdownStep co pc t) :
    Shrinks co t.co := by
  cases h with
  | requested => exact .of_eq rfl rfl rfl rfl
  | marked hc _ _ _ hstate =>
      refine .of_set rfl rfl rfl rfl hc fun hid => ?_
      rw [hstate]
      exact hid
  | moved hco _ => exact .of_eq hco.capacity hco.controls hco.questions hco.active
  | ended hco _ _ => exact .of_eq hco.capacity hco.controls hco.questions hco.active
  | cleared _ hco => exact .of_eq hco.capacity hco.controls hco.questions hco.active

end Steps

theorem Admitted.shrink {capacity : Nat} {w w' : World} (h : Admitted capacity w) (hco : Shrinks w.co w'.co)
    (hcalls : ∀ s, w'.calls.countP (Call.asks s) = w.calls.countP (Call.asks s)) : Admitted capacity w' := by
  have hside : ∀ s, w'.co.sideCount s = w.co.sideCount s := fun s => by
    rw [SessionCoordinator.sideCount, hco.questions, SessionCoordinator.sideCount]
  refine ⟨hco.capacity.trans h.fixed, Nat.le_trans hco.size h.bounded, fun s st' hs => ?_, fun s st' hs => ?_,
    fun s op hs => ?_, fun s => ?_⟩
  · obtain ⟨st, hst, hid⟩ := hco.entries s st' hs
    exact hid (h.named s st hst)
  · obtain ⟨st, hst, _⟩ := hco.entries s st' hs
    exact hco.controls ▸ h.apart s st hst
  · exact (hside s).trans (h.quiet s op (hco.controls ▸ hs))
  · rw [hside, h.counted, hcalls]

section Turns

variable {capacity : Nat} {w : World} {me : CallId} {call : Call} {t : Turn}

theorem Admitted.turn (h : Admitted capacity w) (hcall : w.calls[me]? = some call) (hco : Shrinks w.co t.co)
    (hspawned : ∀ c, t.spawned = some c → ∀ s, c.asks s = false)
    (hsame : ∀ s, t.call.asks s = call.asks s) : Admitted capacity (w.turn me t) := by
  refine h.shrink hco fun s => ?_
  have hcount := countP_replaceSlot t.call t.spawned (Call.asks s) hcall fun c hc => hspawned c hc s
  rw [hsame s] at hcount
  exact Nat.add_right_cancel hcount

theorem submit_admitted (h : Admitted capacity w) {session : SessionId} {run : RunId} {pc : SubmitPc}
    (hcall : w.calls[me]? = some (.submit session run pc))
    (hstep : SubmitStep w.co w.serial me w.calls.length session run pc t) :
    Admitted capacity (w.turn me t) := by
  refine h.turn hcall hstep.shrinks ?_ ?_
  · cases hstep <;> rintro c ⟨⟩ s
    rfl
  · intro s
    cases hstep with
    | creating hc => cases hc <;> rfl
    | _ => rfl

theorem ensure_admitted (h : Admitted capacity w) {session : SessionId} {creation : Creation}
    {ct : CreationTurn} (hcall : w.calls[me]? = some (.ensureRuntime session creation))
    (hstep : CreationStep w.co w.serial me session creation ct) :
    Admitted capacity (w.turn me (ct.turn (ensureProgress session))) := by
  refine h.turn hcall hstep.shrinks ?_ fun s => ?_
  · rintro c ⟨⟩
  · cases hstep <;> rfl

theorem watcher_admitted (h : Admitted capacity w) {session : SessionId} {run : RunId} {pc : WatcherPc}
    (hcall : w.calls[me]? = some (.watcher session run pc))
    (hstep : WatcherStep w.co me session run pc t) : Admitted capacity (w.turn me t) := by
  refine h.turn hcall hstep.shrinks ?_ fun s => ?_
  · cases hstep <;> rintro c ⟨⟩
  · cases hstep <;> rfl

theorem shutdown_admitted (h : Admitted capacity w) {pc : ShutdownPc}
    (hcall : w.calls[me]? = some (.shutdown pc)) (hstep : ShutdownStep w.co pc t) :
    Admitted capacity (w.turn me t) := by
  refine h.turn hcall hstep.shrinks ?_ fun s => ?_
  · cases hstep with
    | moved _ hspawned | ended _ _ hspawned =>
        rintro c hc s
        obtain ⟨job, wpc, rfl⟩ := hspawned c hc
        rfl
    | _ => rintro c ⟨⟩
  · cases hstep <;> rfl

theorem leaveControl_admitted (h : Admitted capacity w) {session : SessionId} {operation : String}
    (hcall : w.calls[me]? = some (.control session operation .leaving)) :
    Admitted capacity (w.turn me { co := w.co.leaveControl session operation, call := .done }) := by
  have hcalls : ∀ s, (replaceSlot w.calls me .done none).countP (Call.asks s) =
      w.calls.countP (Call.asks s) := fun s => by
    have hcount := countP_replaceSlot .done none (Call.asks s) hcall fun c hc => by cases hc
    exact Nat.add_right_cancel hcount
  simp only [SessionCoordinator.leaveControl]
  split
  · -- fewer controls, and nothing else changed
    have hctl : ∀ s op, (w.co.exclusiveControls.erase session).get? s = some op →
        w.co.exclusiveControls.get? s = some op := fun s op hs => by
      rw [Dict.get?_erase] at hs
      split at hs
      · cases hs
      · exact hs
    refine ⟨h.fixed, h.bounded, h.named, fun s st hs => ?_, fun s op hs => h.quiet s op (hctl s op hs),
      fun s => (h.counted s).trans (hcalls s).symm⟩
    cases hop : (w.co.exclusiveControls.erase session).get? s with
    | none => exact hop
    | some op => exact absurd (hctl s op hop) (by simp [h.apart s st hs])
  · exact h.shrink (.refl _) hcalls

theorem control_admitted (h : Admitted capacity w) {session : SessionId} {operation : String} {pc : ControlPc}
    (hcall : w.calls[me]? = some (.control session operation pc))
    (hstep : ControlStep w.co w.serial me session operation pc t) : Admitted capacity (w.turn me t) := by
  cases hstep with
  | creating hc =>
      refine h.turn hcall hc.shrinks (by rintro c ⟨⟩) fun s => ?_
      cases hc <;> rfl
  | left => exact leaveControl_admitted h hcall
  | _ => exact h.turn hcall (.of_eq rfl rfl rfl rfl) (by rintro c ⟨⟩) fun s => rfl

theorem leaveSideQuestion_count (co : SessionCoordinator) (session s : SessionId) :
    (co.leaveSideQuestion session).sideCount s =
      if s = session then co.sideCount s - 1 else co.sideCount s := by
  by_cases hleft : 0 < co.sideCount session - 1
  · simp only [SessionCoordinator.leaveSideQuestion, if_pos hleft]
    rw [SessionCoordinator.sideCount, Dict.get?_set]
    split
    · rename_i hs
      rw [hs]
      rfl
    · rfl
  · simp only [SessionCoordinator.leaveSideQuestion, if_neg hleft]
    rw [SessionCoordinator.sideCount, Dict.get?_erase]
    split
    · rename_i hs
      rw [hs, Option.getD_none]
      omega
    · rfl

theorem leaveSideQuestion_admitted (h : Admitted capacity w) {session : SessionId}
    (hcall : w.calls[me]? = some (.sideQuestion session .leaving)) :
    Admitted capacity (w.turn me { co := w.co.leaveSideQuestion session, call := .done }) := by
  have hcount := leaveSideQuestion_count w.co session
  refine ⟨h.fixed, h.bounded, h.named, h.apart, fun s op hs => ?_, fun s => ?_⟩
  · have hzero := h.quiet s op hs
    change (w.co.leaveSideQuestion session).sideCount s = 0
    rw [hcount]
    split <;> omega
  · have hcalls := countP_replaceSlot .done none (Call.asks s) hcall fun c hc => by cases hc
    change (w.co.leaveSideQuestion session).sideCount s = (replaceSlot w.calls me .done none).countP _
    rw [hcount, h.counted]
    by_cases hs : s = session
    · subst hs
      simp only [Call.asks, decide_true, if_true, Bool.false_eq_true, if_false] at hcalls ⊢
      omega
    · simpa [Call.asks, hs, Ne.symm hs] using hcalls.symm

theorem btw_admitted (h : Admitted capacity w) {session : SessionId} {pc : BtwPc}
    (hcall : w.calls[me]? = some (.sideQuestion session pc))
    (hstep : BtwStep w.co w.serial me session pc t) : Admitted capacity (w.turn me t) := by
  cases hstep with
  | creating hc =>
      refine h.turn hcall hc.shrinks (by rintro c ⟨⟩) fun s => ?_
      cases hc <;> rfl
  | answered => exact h.turn hcall (.refl _) (by rintro c ⟨⟩) fun s => rfl
  | left => exact leaveSideQuestion_admitted h hcall

theorem step_admitted (h : Admitted capacity w) {o : Outcome} (hcall : w.calls[me]? = some call)
    (hstep : call.next w me o = some t) : Admitted capacity (w.turn me t) := by
  cases call with
  | submit session run pc => exact submit_admitted h hcall (submit_step hstep)
  | control session operation pc => exact control_admitted h hcall (control_step hstep)
  | sideQuestion session pc => exact btw_admitted h hcall (btw_step hstep)
  | ensureRuntime session creation =>
      obtain ⟨ct, hct, rfl⟩ := ensure_step hstep
      exact ensure_admitted h hcall hct
  | watcher session run pc => exact watcher_admitted h hcall (watcher_step hstep)
  | worker job pc =>
      obtain ⟨pc', log, _, rfl⟩ := worker_step hstep
      exact h.turn hcall (.refl _) (by rintro c ⟨⟩) fun s => rfl
  | shutdown pc => exact shutdown_admitted h hcall (shutdown_step hstep)
  | done => cases hstep

end Turns

section Entering

variable {capacity : Nat} {w w' : World}

theorem enter_run_admitted (h : Admitted capacity w) {session : SessionId}
    (hctl : w.co.exclusiveControls.get? session = none)
    (hfree : w.co.activeBySession.get? session = none)
    (hroom : w.co.activeBySession.size < w.co.capacity) {st : RuntimeState}
    (hid : st.sessionId = session) (hco : w'.co = w.co.project session st)
    (hcalls : ∀ s, w'.calls.countP (Call.asks s) = w.calls.countP (Call.asks s)) :
    Admitted capacity w' := by
  have hget : ∀ s, w'.co.activeBySession.get? s =
      if s = session then some st else w.co.activeBySession.get? s := fun s => by
    rw [hco, SessionCoordinator.project, Dict.get?_set]
  have hnew : session ∉ w.co.activeBySession.keys := Dict.get?_eq_none_iff.mp hfree
  refine ⟨hco ▸ h.fixed, ?_, fun s st' hs => ?_, fun s st' hs => ?_, fun s op hs => ?_, fun s => ?_⟩
  · rw [Dict.size_eq_length_keys, h.fixed] at hroom
    rw [hco, Dict.size_eq_length_keys, SessionCoordinator.project, Dict.keys_set_of_not_mem _ hnew,
      List.length_append]
    exact hroom
  · rw [hget] at hs
    split at hs
    · cases hs
      exact hid.trans (Eq.symm ‹_›)
    · exact h.named s st' hs
  · rw [hco]
    rw [hget] at hs
    split at hs
    · rename_i heq
      exact heq ▸ hctl
    · exact h.apart s st' hs
  · rw [hco] at hs ⊢
    exact h.quiet s op hs
  · rw [hco, hcalls]
    exact h.counted s

theorem enter_control_admitted (h : Admitted capacity w) {session : SessionId} {operation : String}
    (hfree : w.co.activeBySession.get? session = none) (hquiet : w.co.sideCount session = 0)
    (hco : w'.co = { w.co with exclusiveControls := w.co.exclusiveControls.set session operation })
    (hcalls : ∀ s, w'.calls.countP (Call.asks s) = w.calls.countP (Call.asks s)) :
    Admitted capacity w' := by
  have hget : ∀ s, w'.co.exclusiveControls.get? s =
      if s = session then some operation else w.co.exclusiveControls.get? s := fun s => by
    rw [hco, Dict.get?_set]
  refine ⟨hco ▸ h.fixed, hco ▸ h.bounded, fun s st hs => ?_, fun s st hs => ?_, fun s op hs => ?_,
    fun s => ?_⟩
  · rw [hco] at hs
    exact h.named s st hs
  · rw [hco] at hs
    rw [hget]
    split
    · rename_i heq
      rw [heq, hfree] at hs
      cases hs
    · exact h.apart s st hs
  · rw [hget] at hs
    rw [hco]
    split at hs
    · rename_i heq
      exact heq ▸ hquiet
    · exact h.quiet s op hs
  · rw [hco, hcalls]
    exact h.counted s

theorem enter_btw_admitted (h : Admitted capacity w) {session : SessionId}
    (hctl : w.co.exclusiveControls.get? session = none)
    (hco : w'.co = { w.co with
      sideQuestions := w.co.sideQuestions.set session (w.co.sideCount session + 1) })
    (hcalls : ∀ s, w'.calls.countP (Call.asks s) =
      w.calls.countP (Call.asks s) + if s = session then 1 else 0) : Admitted capacity w' := by
  have hcount : ∀ s, w'.co.sideCount s = w.co.sideCount s + if s = session then 1 else 0 := fun s => by
    rw [hco, SessionCoordinator.sideCount, Dict.get?_set]
    split
    · rename_i heq
      rw [heq]
      rfl
    · rfl
  refine ⟨hco ▸ h.fixed, hco ▸ h.bounded, fun s st hs => ?_, fun s st hs => ?_, fun s op hs => ?_,
    fun s => ?_⟩
  · rw [hco] at hs
    exact h.named s st hs
  · rw [hco] at hs ⊢
    exact h.apart s st hs
  · rw [hco] at hs
    have hne : s ≠ session := by
      rintro rfl
      rw [hctl] at hs
      cases hs
    rw [hcount, if_neg hne]
    exact h.quiet s op hs
  · rw [hcount, hcalls, h.counted]

theorem abortEntry_admitted (h : Admitted capacity w) {session : SessionId} {active : RuntimeState}
    (ha : w.co.activeBySession.get? session = some active) {w' : World}
    {raises : Bool} (hstep : AbortStep w active raises w') : Admitted capacity w' := by
  cases hstep with
  | raised => exact h.shrink (.refl _) fun s => rfl
  | again _ _ => exact h.shrink (.refl _) fun s => rfl
  | marked _ _ hstate =>
      refine h.shrink (.of_set rfl rfl rfl rfl ((h.named _ _ ha).symm ▸ ha) fun hid => ?_) fun s => rfl
      rw [hstate]

end Entering

theorem next_admitted {capacity : Nat} {w w' : World} (h : Admitted capacity w) {a : Action}
    (hstep : w.next a = some w') : Admitted capacity w' := by
  cases world_step hstep with
  | refused => exact h
  | admitted hctl hfree hroom =>
      exact enter_run_admitted h hctl hfree hroom rfl rfl fun s => by simp [Call.asks]
  | controlled _ _ hfree hquiet =>
      exact enter_control_admitted h hfree hquiet rfl fun s => by simp [Call.asks]
  | asked hctl =>
      exact enter_btw_admitted h hctl rfl fun s => by simp [List.countP_append, Call.asks, eq_comm]
  | ensured => exact h.shrink (.refl _) fun s => by simp [Call.asks]
  | aborted ha habort => exact abortEntry_admitted h ha habort
  | routed => exact h.shrink (.refl _) fun s => rfl
  | stopping => exact h.shrink (.of_eq rfl rfl rfl rfl) fun s => by simp [Call.asks]
  | stepped hcall hnext => exact step_admitted h hcall hnext

theorem reachable_admitted {capacity : Nat} {abortTimeout : Time} {w : World}
    (h : (sessionMachine capacity abortTimeout).Reachable w) : Admitted capacity w := by
  refine h.invariant ⟨rfl, Nat.zero_le _, ?_, ?_, ?_, fun s => rfl⟩ fun s a t hs hstep =>
    next_admitted hs hstep <;> simp [sessionMachine]

-- Runs, exclusive controls and side questions never overbook a session or the process.
theorem reservations_safe {capacity : Nat} {abortTimeout : Time} {w : World}
    (h : (sessionMachine capacity abortTimeout).Reachable w) :
    w.co.activeBySession.size ≤ capacity ∧
    w.co.activeBySession.keys.Nodup ∧
    (∀ s st, w.co.activeBySession.get? s = some st → st.sessionId = s) ∧
    (∀ s, ¬((w.co.activeBySession.get? s).isSome ∧ (w.co.exclusiveControls.get? s).isSome)) ∧
    (∀ s, ¬((w.co.exclusiveControls.get? s).isSome ∧ 0 < w.co.sideCount s)) ∧
    (∀ s, w.co.sideCount s = w.calls.countP (Call.asks s)) := by
  have hinv := reachable_admitted h
  refine ⟨hinv.bounded, Dict.keys_nodup _, hinv.named, ?_, ?_, hinv.counted⟩
  · rintro s ⟨ha, hc⟩
    obtain ⟨st, hst⟩ := Option.isSome_iff_exists.mp ha
    rw [hinv.apart s st hst] at hc
    cases hc
  · rintro s ⟨hc, hpos⟩
    obtain ⟨op, hop⟩ := Option.isSome_iff_exists.mp hc
    rw [hinv.quiet s op hop] at hpos
    exact Nat.lt_irrefl 0 hpos

-- A run, two side questions and a rewind on three sessions; a second run and a
-- rewind of the questioned session are refused.
def mixedRun : List Action :=
  [.submitStream "a", .sideQuestion "b", .sideQuestion "b", .rewind "c", .submitStream "d", .rewind "b"]

theorem reservations_safe_mixedRun :
    ∃ w, (sessionMachine 1 10).run (sessionMachine 1 10).start mixedRun = some w ∧
      w.co.activeBySession.size = 1 ∧ w.co.sideCount "b" = 2 ∧
      w.co.exclusiveControls.get? "c" = some "rewind" ∧ w.calls.countP (Call.asks "b") = 2 ∧
      w.co.activeBySession.size ≤ 1 := by
  refine ⟨_, rfl, by decide, by decide, by decide, by decide, ?_⟩
  exact (@reservations_safe 1 10 _ ⟨mixedRun, rfl⟩).1

end GaHub.Sessions
