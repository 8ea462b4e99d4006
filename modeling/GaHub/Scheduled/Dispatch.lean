import GaHub.Lib.Log
import GaHub.Scheduled

namespace GaHub.Scheduled

open Lib

def Call.held (c : Call) : Option TaskId :=
  match c.phase with
  | .submitting id | .settling id _ => some id
  | .next | .returned | .raised => none

def State.Admitted (s : State) (id : TaskId) : Prop := ∃ request, Entry.admitted id request ∈ s.log

-- The session's model is confirmed, and nothing raises once the coordinator has admitted the run.
def Backend.dependable (b : Backend) : Bool :=
  match b.row with
  | .error _ => true
  | .ok row =>
      match effectiveLlmKey row b.preference with
      | .error .unconfirmed => false
      | .error (.failed _) => true
      | .ok _ =>
          match b.submission with
          | .refused _ => true
          | .withdrawn _ => false
          | .admitted => b.touch.isOk

-- Where a section of `take` does not save, `saved` says nothing.
def Dependable (_ : State) : Action → Prop
  | .take _ saved => saved = true
  | .submit _ _ b => b.dependable = true
  | _ => True

instance : ∀ s a, Decidable (Dependable s a)
  | _, .take _ saved => inferInstanceAs (Decidable (saved = true))
  | _, .submit _ _ b => inferInstanceAs (Decidable (b.dependable = true))
  | _, .create .. | _, .cancel .. | _, .start _ | _, .settle .. => inferInstanceAs (Decidable True)

section Fields

variable (s : State) (saved : Bool) (id : TaskId) (task : ScheduledChat) (i : Nat) (c : Call)

@[simp] theorem saveLocked_tasks : (s.saveLocked saved).tasks = s.tasks := by
  cases saved <;> rfl

@[simp] theorem saveLocked_calls : (s.saveLocked saved).calls = s.calls := by
  cases saved <;> rfl

@[simp] theorem saveLocked_log : (s.saveLocked saved).log = s.log := by
  cases saved <;> rfl

@[simp] theorem setTask_tasks : (s.setTask id task).tasks = s.tasks.set id task := rfl

@[simp] theorem setTask_calls : (s.setTask id task).calls = s.calls := rfl

@[simp] theorem setTask_log : (s.setTask id task).log = s.log := rfl

@[simp] theorem setCall_tasks : (s.setCall i c).tasks = s.tasks := rfl

@[simp] theorem setCall_calls : (s.setCall i c).calls = s.calls.set i c := rfl

@[simp] theorem setCall_log : (s.setCall i c).log = s.log := rfl

end Fields

theorem dispatch_cases {b : Backend} (hb : b.dependable = true) (task : ScheduledChat) :
    (∃ error, dispatchScheduledChat b task = ⟨none, some error⟩) ∨
      ∃ request, dispatchScheduledChat b task = ⟨some request, none⟩ := by
  unfold Backend.dependable at hb
  unfold dispatchScheduledChat
  cases hrow : b.row with
  | error error => exact Or.inl ⟨error, rfl⟩
  | ok row =>
      simp only [hrow] at hb ⊢
      cases hkey : effectiveLlmKey row b.preference with
      | error e =>
          cases e with
          | unconfirmed => simp [hkey] at hb
          | failed error => exact Or.inl ⟨error, rfl⟩
      | ok llmKey =>
          simp only [hkey] at hb ⊢
          cases hsub : b.submission with
          | refused error => exact Or.inl ⟨error, rfl⟩
          | withdrawn error => simp [hsub] at hb
          | admitted =>
              simp only [hsub] at hb ⊢
              cases htouch : b.touch with
              | error error => simp [htouch, Except.isOk, Except.toBool] at hb
              | ok u => exact Or.inr ⟨_, rfl⟩

-- What one step does, as far as the status of a task and the place of a call go.
inductive Moves (s t : State) : Prop where
  | started (c : Call) (hc : c.held = none) (htasks : t.tasks = s.tasks) (hcalls : t.calls = s.calls ++ [c])
      (hlog : t.log = s.log)
  | passed (htasks : t.tasks = s.tasks) (hcalls : t.calls = s.calls) (hlog : t.log = s.log)
  | skipped (i : Nat) (c c' : Call) (hi : s.calls[i]? = some c) (hc : c.held = none) (hc' : c'.held = none)
      (htasks : t.tasks = s.tasks) (hcalls : t.calls = s.calls.set i c') (hlog : t.log = s.log)
  | created (id : TaskId) (task : ScheduledChat) (hfresh : s.tasks.get? id = none) (hstatus : task.status = .pending)
      (htasks : t.tasks = s.tasks.set id task) (hcalls : t.calls = s.calls) (hlog : t.log = s.log)
  | cancelled (id : TaskId) (task task' : ScheduledChat) (hid : s.tasks.get? id = some task)
      (hstatus : task.status = .pending) (hstatus' : task'.status = .cancelled)
      (htasks : t.tasks = s.tasks.set id task') (hcalls : t.calls = s.calls) (hlog : t.log = s.log ++ [.cancelled id])
  | marked (i : Nat) (c c' : Call) (id : TaskId) (task task' : ScheduledChat) (hi : s.calls[i]? = some c)
      (hc : c.held = none) (hc' : c'.phase = .submitting id) (hid : s.tasks.get? id = some task)
      (hstatus : task.status = .pending) (hstatus' : task'.status = .dispatching)
      (htasks : t.tasks = s.tasks.set id task') (hcalls : t.calls = s.calls.set i c') (hlog : t.log = s.log)
  | deferred (i : Nat) (c c' : Call) (id : TaskId) (error : ErrorText) (entries : List Entry)
      (hi : s.calls[i]? = some c) (hc : c.phase = .submitting id) (hc' : c'.phase = .settling id (some error))
      (hentries : ∀ e ∈ entries, e = .submit id)
      (htasks : t.tasks = s.tasks) (hcalls : t.calls = s.calls.set i c') (hlog : t.log = s.log ++ entries)
  | admitted (i : Nat) (c c' : Call) (id : TaskId) (request : Request)
      (hi : s.calls[i]? = some c) (hc : c.phase = .submitting id) (hc' : c'.phase = .settling id none)
      (htasks : t.tasks = s.tasks) (hcalls : t.calls = s.calls.set i c')
      (hlog : t.log = s.log ++ [.submit id, .admitted id request])
  | settled (i : Nat) (c c' : Call) (id : TaskId) (failure : Option ErrorText) (task task' : ScheduledChat)
      (hi : s.calls[i]? = some c) (hc : c.phase = .settling id failure) (hc' : c'.held = none)
      (hid : s.tasks.get? id = some task) (hstatus : task.status = .dispatching)
      (hstatus' : task'.status = if failure = none then .sent else .pending)
      (htasks : t.tasks = s.tasks.set id task') (hcalls : t.calls = s.calls.set i c') (hlog : t.log = s.log)
  | dropped (i : Nat) (c c' : Call) (id : TaskId) (failure : Option ErrorText)
      (hi : s.calls[i]? = some c) (hc : c.phase = .settling id failure) (hc' : c'.held = none)
      (hid : ∀ task, s.tasks.get? id = some task → task.status ≠ .dispatching)
      (htasks : t.tasks = s.tasks) (hcalls : t.calls = s.calls.set i c') (hlog : t.log = s.log)

theorem held_next {c : Call} (h : c.phase = .next) : c.held = none := by
  simp [Call.held, h]

theorem take_moves {s : State} {i : Nat} {c : Call} (hi : s.calls[i]? = some c) (hc : c.phase = .next) :
    Moves s (s.take i c true) := by
  have hheld := held_next hc
  unfold State.take
  split
  · exact .skipped i c { c with phase := .returned } hi hheld rfl rfl rfl rfl
  · rename_i id rest _
    cases hid : s.tasks.get? id with
    | none => exact .skipped i c { c with due := rest } hi hheld hheld rfl rfl rfl
    | some task =>
        dsimp only
        split
        · rename_i hstatus
          exact .marked i c { c with due := rest, phase := .submitting id } id task { task with status := .dispatching }
            hi hheld rfl hid hstatus rfl (by simp) (by simp) (by simp)
        · exact .skipped i c { c with due := rest } hi hheld hheld rfl rfl rfl

theorem submit_moves {s : State} {i : Nat} {c : Call} {id : TaskId} (task : ScheduledChat)
    (probe : String → Probe) {b : Backend} (hb : b.dependable = true) (hi : s.calls[i]? = some c)
    (hc : c.phase = .submitting id) : Moves s (s.submit i c id task probe b) := by
  unfold State.submit
  split
  · rename_i error _
    exact .deferred i c { c with phase := .settling id (some error) } id error [] hi hc rfl (by simp) rfl rfl (by simp)
  · rcases dispatch_cases hb task with ⟨error, hd⟩ | ⟨request, hd⟩
    · exact .deferred i c { c with phase := .settling id (some error) } id error [.submit id] hi hc rfl (by simp)
        rfl (by simp [hd]) (by simp [hd])
    · exact .admitted i c { c with phase := .settling id none } id request hi hc rfl rfl
        (by simp [hd]) (by simp [hd])

theorem settle_moves {s : State} {retrySeconds : Time} {i : Nat} {c : Call} {id : TaskId}
    {failure : Option ErrorText} (now : Time) (saved : Bool) (hi : s.calls[i]? = some c)
    (hc : c.phase = .settling id failure) : Moves s (s.settle retrySeconds i c id failure now saved) := by
  have hended : ∀ d, Call.held { c with dispatched := d, phase := if saved = true then .next else .raised } = none := by
    intro d
    cases saved <;> rfl
  unfold State.settle
  cases hid : s.tasks.get? id with
  | none => exact .dropped i c { c with phase := .next } id failure hi hc rfl (by simp [hid]) rfl rfl rfl
  | some task =>
      dsimp only
      split
      · rename_i hstatus
        cases failure with
        | some error =>
            exact .settled i c { c with phase := if saved then .next else .raised } id _ task
              (State.afterFailure retrySeconds now error task) hi hc (hended _) hid hstatus rfl (by simp) (by simp)
              (by simp)
        | none =>
            exact .settled i c
              { c with
                phase := if saved then .next else .raised
                dispatched := if saved then c.dispatched + 1 else c.dispatched }
              id _ task (State.afterSuccess now task) hi hc (hended _) hid hstatus rfl (by simp) (by simp) (by simp)
      · rename_i hstatus
        refine .dropped i c { c with phase := .next } id failure hi hc rfl (fun task' htask' => ?_) rfl rfl rfl
        rw [hid] at htask'
        cases htask'
        exact hstatus

theorem step_moves {retrySeconds : Time} {s t : State} {a : Action} (hok : Dependable s a)
    (h : s.next retrySeconds a = some t) : Moves s t := by
  cases a with
  | create id sessionId text images scheduledFor attachments now probe saved =>
      simp only [State.next] at h
      split at h
      · cases h
      · rename_i hfresh
        obtain rfl := Option.some.inj h
        unfold State.create
        split
        · exact .passed rfl rfl rfl
        · exact .created id { id, sessionId, text, images, scheduledFor, createdAt := now, attachments }
            (Dict.get?_eq_none_iff.mpr hfresh) rfl (by simp) (by simp) (by simp)
  | cancel sessionId id now saved =>
      obtain rfl := Option.some.inj h
      unfold State.cancel
      cases hid : s.tasks.get? id with
      | none => exact .passed rfl rfl rfl
      | some task =>
          dsimp only
          split
          · rename_i hpending
            exact .cancelled id task { task with status := .cancelled, cancelledAt := some now, retryAt := none } hid
              hpending.2 rfl (by simp) (by simp) (by simp)
          · exact .passed rfl rfl rfl
  | start now =>
      obtain rfl := Option.some.inj h
      exact .started _ rfl rfl rfl rfl
  | take i saved =>
      obtain ⟨c, hi, hc⟩ := Option.bind_eq_some_iff.mp h
      cases hphase : c.phase <;> simp only [hphase] at hc <;> cases hc
      rw [show saved = true from hok]
      exact take_moves hi hphase
  | submit i probe b =>
      obtain ⟨c, hi, hc⟩ := Option.bind_eq_some_iff.mp h
      cases hphase : c.phase <;> simp only [hphase] at hc <;> try cases hc
      obtain ⟨task, -, rfl⟩ := Option.map_eq_some_iff.mp hc
      exact submit_moves task probe hok hi hphase
  | settle i now saved =>
      obtain ⟨c, hi, hc⟩ := Option.bind_eq_some_iff.mp h
      cases hphase : c.phase <;> simp only [hphase] at hc <;> cases hc
      exact settle_moves now saved hi hphase


def State.status? (s : State) (id : TaskId) : Option Status := (s.tasks.get? id).map ScheduledChat.status

-- What the status of a task, the calls and the log say about each other.
structure Account (s₀ s : State) (id : TaskId) : Prop where
  holder : ∀ (i : Nat) (c : Call), s.calls[i]? = some c → c.held = some id → s.status? id = some .dispatching
  alone : ∀ (i j : Nat) (c d : Call), s.calls[i]? = some c → s.calls[j]? = some d → c.held = some id → d.held = some id → i = j
  kept : s.status? id = some .dispatching → ∃ c ∈ s.calls, c.held = some id
  unsent : ∀ c ∈ s.calls, c.phase = .submitting id ∨ (∃ error, c.phase = .settling id (some error)) → ¬s.Admitted id
  running : ∀ c ∈ s.calls, c.phase = .settling id none → s.Admitted id
  pending : s.status? id = some .pending → ¬s.Admitted id
  sent : s.status? id = some .sent → s.Admitted id ∨ s₀.status? id = some .sent
  admitted : s.Admitted id → s.status? id = some .sent ∨ ∃ c ∈ s.calls, c.phase = .settling id none
  cancelled : Entry.cancelled id ∈ s.log → s.status? id = some .cancelled
  once : ∀ request, ¬[Entry.admitted id request, .submit id].Sublist s.log
  withdrawn : ¬[Entry.cancelled id, .submit id].Sublist s.log

theorem held_of_settling {c : Call} {id : TaskId} {failure : Option ErrorText} (h : c.phase = .settling id failure) :
    c.held = some id := by
  simp [Call.held, h]

theorem held_of_submitting {c : Call} {id : TaskId} (h : c.phase = .submitting id) : c.held = some id := by
  simp [Call.held, h]

theorem status?_of_set {s t : State} {id : TaskId} {task : ScheduledChat} (h : t.tasks = s.tasks.set id task) :
    t.status? id = some task.status := by
  simp [State.status?, h]

theorem status?_of_set_ne {s t : State} {id id' : TaskId} {task : ScheduledChat} (h : t.tasks = s.tasks.set id task)
    (hne : id' ≠ id) : t.status? id' = s.status? id' := by
  rw [State.status?, h, Dict.get?_set_ne _ _ hne, State.status?]

namespace Account

variable {s₀ s t : State} {id : TaskId}

theorem frame (h : Account s₀ s id) (hstatus : t.status? id = s.status? id)
    (hcalls : ∀ (i : Nat) (c : Call), c.held = some id → (t.calls[i]? = some c ↔ s.calls[i]? = some c))
    {entries : List Entry} (hlog : t.log = s.log ++ entries)
    (hentries : ∀ e ∈ entries, e ≠ .submit id ∧ e ≠ .cancelled id ∧ ∀ request, e ≠ .admitted id request) :
    Account s₀ t id := by
  have hmem : ∀ c, c.held = some id → (c ∈ t.calls ↔ c ∈ s.calls) := by
    intro c hc
    rw [List.mem_iff_getElem?, List.mem_iff_getElem?]
    exact exists_congr fun i => hcalls i c hc
  have hadmitted : t.Admitted id ↔ s.Admitted id := by
    refine exists_congr fun request => ?_
    rw [hlog, List.mem_append]
    exact or_iff_left fun hm => (hentries _ hm).2.2 request rfl
  have hsubmit : Entry.submit id ∉ entries := fun hm => (hentries _ hm).1 rfl
  refine ⟨?_, ?_, ?_, ?_, ?_, ?_, ?_, ?_, ?_, ?_, ?_⟩
  · intro i c hi hc
    rw [hstatus]
    exact h.holder i c ((hcalls i c hc).mp hi) hc
  · intro i j c d hi hj hc hd
    exact h.alone i j c d ((hcalls i c hc).mp hi) ((hcalls j d hd).mp hj) hc hd
  · intro hd
    rw [hstatus] at hd
    obtain ⟨c, hc, hheld⟩ := h.kept hd
    exact ⟨c, (hmem c hheld).mpr hc, hheld⟩
  · intro c hc hphase
    rw [hadmitted]
    refine h.unsent c ((hmem c ?_).mp hc) hphase
    rcases hphase with hphase | ⟨error, hphase⟩
    · exact held_of_submitting hphase
    · exact held_of_settling hphase
  · intro c hc hphase
    rw [hadmitted]
    exact h.running c ((hmem c (held_of_settling hphase)).mp hc) hphase
  · rw [hstatus, hadmitted]
    exact h.pending
  · rw [hstatus, hadmitted]
    exact h.sent
  · rw [hstatus, hadmitted]
    intro ha
    refine (h.admitted ha).imp_right ?_
    rintro ⟨c, hc, hphase⟩
    exact ⟨c, (hmem c (held_of_settling hphase)).mpr hc, hphase⟩
  · rw [hstatus, hlog, List.mem_append]
    intro hm
    exact h.cancelled (hm.resolve_right fun hm => (hentries _ hm).2.1 rfl)
  · rw [hlog]
    intro request hsub
    exact h.once request (pair_of_append hsub hsubmit)
  · rw [hlog]
    intro hsub
    exact h.withdrawn (pair_of_append hsub hsubmit)

theorem quiet (h : Account s₀ s id) (hstatus : t.status? id = s.status? id)
    (hcalls : ∀ (i : Nat) (c : Call), c.held = some id → (t.calls[i]? = some c ↔ s.calls[i]? = some c))
    (hlog : t.log = s.log) : Account s₀ t id := by
  have hlog' : t.log = s.log ++ [] := by rw [hlog, List.append_nil]
  exact h.frame hstatus hcalls hlog' (by simp)

theorem not_held (h : Account s₀ s id) (hstatus : s.status? id ≠ some .dispatching) {c : Call} (hc : c ∈ s.calls) :
    c.held ≠ some id := by
  intro hheld
  obtain ⟨i, hi⟩ := List.mem_iff_getElem?.mp hc
  exact hstatus (h.holder i c hi hheld)

end Account

theorem getElem?_set_cases {calls : List Call} {i j : Nat} {c d : Call} (h : (calls.set i c)[j]? = some d) :
    (i = j ∧ d = c) ∨ (i ≠ j ∧ calls[j]? = some d) := by
  rw [List.getElem?_set] at h
  split at h
  · split at h
    · exact Or.inl ⟨‹_›, (Option.some.inj h).symm⟩
    · cases h
  · exact Or.inr ⟨‹_›, h⟩

theorem set_elsewhere {calls : List Call} {i : Nat} {c c' : Call} {id : TaskId} (hi : calls[i]? = some c)
    (hc : c.held ≠ some id) (hc' : c'.held ≠ some id) (j : Nat) (d : Call) (hd : d.held = some id) :
    (calls.set i c')[j]? = some d ↔ calls[j]? = some d := by
  by_cases hij : i = j
  · subst hij
    constructor
    · intro h
      rcases getElem?_set_cases h with ⟨-, rfl⟩ | ⟨hne, -⟩
      · exact absurd hd hc'
      · exact absurd rfl hne
    · intro h
      rw [hi] at h
      cases h
      exact absurd hd hc
  · rw [List.getElem?_set_ne hij]


namespace Account

variable {s₀ s t : State} {id : TaskId}

theorem of_free (hfree : ∀ c ∈ t.calls, c.held ≠ some id) (hstatus : t.status? id ≠ some .dispatching)
    (hpending : t.status? id = some .pending → ¬t.Admitted id)
    (hsent : t.status? id = some .sent → t.Admitted id ∨ s₀.status? id = some .sent)
    (hadmitted : t.Admitted id → t.status? id = some .sent)
    (hcancelled : Entry.cancelled id ∈ t.log → t.status? id = some .cancelled)
    (honce : ∀ request, ¬[Entry.admitted id request, .submit id].Sublist t.log)
    (hwithdrawn : ¬[Entry.cancelled id, .submit id].Sublist t.log) : Account s₀ t id where
  holder i c hi hc := absurd hc (hfree c (List.mem_of_getElem? hi))
  alone i _ c _ hi _ hc _ := absurd hc (hfree c (List.mem_of_getElem? hi))
  kept h := absurd h hstatus
  unsent c hc := by
    rintro (hphase | ⟨error, hphase⟩)
    · exact absurd (held_of_submitting hphase) (hfree c hc)
    · exact absurd (held_of_settling hphase) (hfree c hc)
  running c hc hphase := absurd (held_of_settling hphase) (hfree c hc)
  pending := hpending
  sent := hsent
  admitted h := Or.inl (hadmitted h)
  cancelled := hcancelled
  once := honce
  withdrawn := hwithdrawn

theorem of_held {i : Nat} {c : Call} (hi : t.calls[i]? = some c) (hheld : c.held = some id)
    (halone : ∀ (j : Nat) (d : Call), t.calls[j]? = some d → d.held = some id → i = j)
    (hstatus : t.status? id = some .dispatching)
    (hadmitted : t.Admitted id ↔ c.phase = .settling id none)
    (hcancelled : Entry.cancelled id ∉ t.log)
    (honce : ∀ request, ¬[Entry.admitted id request, .submit id].Sublist t.log)
    (hwithdrawn : ¬[Entry.cancelled id, .submit id].Sublist t.log) : Account s₀ t id := by
  have honly : ∀ d ∈ t.calls, d.held = some id → d = c := by
    intro d hd hdheld
    obtain ⟨j, hj⟩ := List.mem_iff_getElem?.mp hd
    obtain rfl := halone j d hj hdheld
    rw [hi] at hj
    exact (Option.some.inj hj).symm
  refine ⟨fun _ _ _ _ => hstatus, ?_, fun _ => ⟨c, List.mem_of_getElem? hi, hheld⟩, ?_, ?_, ?_, ?_, ?_, ?_, honce,
    hwithdrawn⟩
  · intro j k d e hj hk hd he
    rw [← halone j d hj hd, ← halone k e hk he]
  · intro d hd hphase ha
    rw [hadmitted] at ha
    rcases hphase with hphase | ⟨error, hphase⟩
    · obtain rfl := honly d hd (held_of_submitting hphase)
      rw [ha] at hphase
      cases hphase
    · obtain rfl := honly d hd (held_of_settling hphase)
      rw [ha] at hphase
      cases hphase
  · intro d hd hphase
    obtain rfl := honly d hd (held_of_settling hphase)
    exact hadmitted.mpr hphase
  · intro h
    rw [hstatus] at h
    cases h
  · intro h
    rw [hstatus] at h
    cases h
  · intro ha
    exact Or.inr ⟨c, List.mem_of_getElem? hi, hadmitted.mp ha⟩
  · intro hm
    exact absurd hm hcancelled

theorem submit_once (h : Account s₀ s id) (ha : ¬s.Admitted id) {entries : List Entry}
    (hentries : ∀ request, ¬[Entry.admitted id request, .submit id].Sublist entries) (request : Request) :
    ¬[Entry.admitted id request, .submit id].Sublist (s.log ++ entries) :=
  fun hsub => hentries request (pair_of_fresh hsub fun hm => ha ⟨request, hm⟩)

theorem step (h : ∀ id, Account s₀ s id) (hm : Moves s t) (id : TaskId) : Account s₀ t id := by
  cases hm with
  | started c hc htasks hcalls hlog =>
      refine (h id).quiet (by rw [State.status?, htasks, State.status?]) (fun i d hd => ?_) hlog
      rw [hcalls]
      rcases Nat.lt_trichotomy i s.calls.length with hlt | rfl | hgt
      · rw [List.getElem?_append_left hlt]
      · simp only [List.getElem?_concat_length, Option.some.injEq, List.getElem?_eq_none (Nat.le_refl _)]
        constructor
        · rintro rfl
          rw [hc] at hd
          cases hd
        · intro hnone
          cases hnone
      · rw [List.getElem?_eq_none (by simp; omega), List.getElem?_eq_none (by omega)]
  | passed htasks hcalls hlog =>
      exact (h id).quiet (by rw [State.status?, htasks, State.status?]) (fun i d _ => by rw [hcalls]) hlog
  | skipped i c c' hi hc hc' htasks hcalls hlog =>
      refine (h id).quiet (by rw [State.status?, htasks, State.status?]) (fun j d hd => ?_) hlog
      rw [hcalls]
      exact set_elsewhere hi (by simp [hc]) (by simp [hc']) j d hd
  | created id' task hfresh hstatus htasks hcalls hlog =>
      have hnone : s.status? id' = none := by rw [State.status?, hfresh, Option.map_none]
      by_cases hid : id = id'
      · subst hid
        have hfree : ∀ c ∈ s.calls, c.held ≠ some id := fun c hc => (h id).not_held (by simp [hnone]) hc
        have hunadmitted : ¬s.Admitted id := by
          intro ha
          rcases (h id).admitted ha with hsent | ⟨c, hc, hphase⟩
          · rw [hnone] at hsent
            cases hsent
          · exact hfree c hc (held_of_settling hphase)
        have hnew := status?_of_set htasks
        rw [hstatus] at hnew
        have hsame : t.Admitted id ↔ s.Admitted id := by simp [State.Admitted, hlog]
        refine of_free (by rwa [hcalls]) (by simp [hnew]) (fun _ => by rwa [hsame]) (by simp [hnew])
          (fun ha => absurd (hsame.mp ha) hunadmitted) (fun hm => ?_) (by rw [hlog]; exact (h id).once)
          (by rw [hlog]; exact (h id).withdrawn)
        rw [hlog] at hm
        have hcancelled := (h id).cancelled hm
        rw [hnone] at hcancelled
        cases hcancelled
      · exact (h id).quiet (status?_of_set_ne htasks hid) (fun i d _ => by rw [hcalls]) hlog
  | cancelled id' task task' hid' hstatus hstatus' htasks hcalls hlog =>
      have hpending : s.status? id' = some .pending := by rw [State.status?, hid', Option.map_some, hstatus]
      by_cases hid : id = id'
      · subst hid
        have hnew := status?_of_set htasks
        rw [hstatus'] at hnew
        have hsame : t.Admitted id ↔ s.Admitted id := by simp [State.Admitted, hlog]
        have hunadmitted := (h id).pending hpending
        refine of_free ?_ (by simp [hnew]) (by simp [hnew]) (by simp [hnew])
          (fun ha => absurd (hsame.mp ha) hunadmitted) (fun _ => hnew) ?_ ?_
        · rw [hcalls]
          exact fun c hc => (h id).not_held (by simp [hpending]) hc
        · rw [hlog]
          exact fun request hsub => (h id).once request (pair_of_append hsub (by simp))
        · rw [hlog]
          exact fun hsub => (h id).withdrawn (pair_of_append hsub (by simp))
      · refine (h id).frame (status?_of_set_ne htasks hid) (fun i d _ => by rw [hcalls]) hlog ?_
        simp [Ne.symm hid]
  | marked i c c' id' task task' hi hc hc' hid' hstatus hstatus' htasks hcalls hlog =>
      have hpending : s.status? id' = some .pending := by rw [State.status?, hid', Option.map_some, hstatus]
      by_cases hid : id = id'
      · subst hid
        have hnew := status?_of_set htasks
        rw [hstatus'] at hnew
        have hsame : t.Admitted id ↔ s.Admitted id := by simp [State.Admitted, hlog]
        have hlt : i < s.calls.length := List.getElem?_eq_some_iff.mp hi |>.1
        refine of_held (i := i) (c := c') (by rw [hcalls, List.getElem?_set_self hlt]) (held_of_submitting hc')
          (fun j d hj hd => ?_) hnew ?_ ?_ (by rw [hlog]; exact (h id).once) (by rw [hlog]; exact (h id).withdrawn)
        · rw [hcalls] at hj
          rcases getElem?_set_cases hj with ⟨hij, -⟩ | ⟨-, hj⟩
          · exact hij
          · exact absurd hd ((h id).not_held (by simp [hpending]) (List.mem_of_getElem? hj))
        · rw [hsame]
          exact iff_of_false ((h id).pending hpending) (by simp [hc'])
        · rw [hlog]
          intro hm
          rw [(h id).cancelled hm] at hpending
          cases hpending
      · refine (h id).quiet (status?_of_set_ne htasks hid) (fun j d hd => ?_) hlog
        rw [hcalls]
        exact set_elsewhere hi (by simp [hc]) (by simp [held_of_submitting hc', Ne.symm hid]) j d hd
  | deferred i c c' id' error entries hi hc hc' hentries htasks hcalls hlog =>
      have hsame : t.status? id = s.status? id := by rw [State.status?, htasks, State.status?]
      by_cases hid : id = id'
      · subst hid
        have hlt : i < s.calls.length := List.getElem?_eq_some_iff.mp hi |>.1
        have hdispatching := (h id).holder i c hi (held_of_submitting hc)
        have hunadmitted := (h id).unsent c (List.mem_of_getElem? hi) (Or.inl hc)
        have huncancelled : Entry.cancelled id ∉ s.log := by
          intro hm
          rw [(h id).cancelled hm] at hdispatching
          cases hdispatching
        refine of_held (i := i) (c := c') (by rw [hcalls, List.getElem?_set_self hlt]) (held_of_settling hc')
          (fun j d hj hd => ?_) (hsame.trans hdispatching) ?_ ?_ ?_ ?_
        · rw [hcalls] at hj
          rcases getElem?_set_cases hj with ⟨hij, -⟩ | ⟨-, hj⟩
          · exact hij
          · exact (h id).alone i j c d hi hj (held_of_submitting hc) hd
        · refine iff_of_false ?_ (by simp [hc'])
          rintro ⟨request, hm⟩
          rw [hlog, List.mem_append] at hm
          rcases hm with hm | hm
          · exact hunadmitted ⟨request, hm⟩
          · cases hentries _ hm
        · rw [hlog, List.mem_append]
          rintro (hm | hm)
          · exact huncancelled hm
          · cases hentries _ hm
        · rw [hlog]
          exact (h id).submit_once hunadmitted fun request hsub => by cases hentries _ (hsub.subset List.mem_cons_self)
        · rw [hlog]
          intro hsub
          cases hentries _ ((pair_of_fresh hsub huncancelled).subset List.mem_cons_self)
      · refine (h id).frame hsame (fun j d hd => ?_) hlog (fun e he => ?_)
        · rw [hcalls]
          exact set_elsewhere hi (by simp [held_of_submitting hc, Ne.symm hid])
            (by simp [held_of_settling hc', Ne.symm hid]) j d hd
        · rw [hentries e he]
          simp [Ne.symm hid]
  | admitted i c c' id' request hi hc hc' htasks hcalls hlog =>
      have hsame : t.status? id = s.status? id := by rw [State.status?, htasks, State.status?]
      by_cases hid : id = id'
      · subst hid
        have hlt : i < s.calls.length := List.getElem?_eq_some_iff.mp hi |>.1
        have hdispatching := (h id).holder i c hi (held_of_submitting hc)
        have hunadmitted := (h id).unsent c (List.mem_of_getElem? hi) (Or.inl hc)
        have huncancelled : Entry.cancelled id ∉ s.log := by
          intro hm
          rw [(h id).cancelled hm] at hdispatching
          cases hdispatching
        refine of_held (i := i) (c := c') (by rw [hcalls, List.getElem?_set_self hlt]) (held_of_settling hc')
          (fun j d hj hd => ?_) (hsame.trans hdispatching) ?_ ?_ ?_ ?_
        · rw [hcalls] at hj
          rcases getElem?_set_cases hj with ⟨hij, -⟩ | ⟨-, hj⟩
          · exact hij
          · exact (h id).alone i j c d hi hj (held_of_submitting hc) hd
        · exact iff_of_true ⟨request, by simp [hlog]⟩ hc'
        · simp [hlog, huncancelled]
        · rw [hlog]
          refine (h id).submit_once hunadmitted fun request' hsub => ?_
          rw [List.sublist_cons_iff] at hsub
          simp at hsub
        · rw [hlog]
          intro hsub
          exact absurd ((pair_of_fresh hsub huncancelled).subset List.mem_cons_self) (by simp)
      · refine (h id).frame hsame (fun j d hd => ?_) hlog (by simp [Ne.symm hid])
        rw [hcalls]
        exact set_elsewhere hi (by simp [held_of_submitting hc, Ne.symm hid])
          (by simp [held_of_settling hc', Ne.symm hid]) j d hd
  | settled i c c' id' failure task task' hi hc hc' hid' hstatus hstatus' htasks hcalls hlog =>
      by_cases hid : id = id'
      · subst hid
        have hnew := status?_of_set htasks
        rw [hstatus'] at hnew
        have hsame : t.Admitted id ↔ s.Admitted id := by simp [State.Admitted, hlog]
        have hdispatching := (h id).holder i c hi (held_of_settling hc)
        have hmem := List.mem_of_getElem? hi
        refine of_free ?_ (by rw [hnew]; split <;> simp) ?_ ?_ ?_ ?_ (by rw [hlog]; exact (h id).once)
          (by rw [hlog]; exact (h id).withdrawn)
        · rw [hcalls]
          intro d hd hheld
          obtain ⟨j, hj⟩ := List.mem_iff_getElem?.mp hd
          rcases getElem?_set_cases hj with ⟨-, rfl⟩ | ⟨hij, hj⟩
          · rw [hc'] at hheld
            cases hheld
          · exact hij ((h id).alone i j c d hi hj (held_of_settling hc) hheld)
        · rw [hnew, hsame]
          cases failure with
          | none => simp
          | some error => exact fun _ => (h id).unsent c hmem (Or.inr ⟨error, hc⟩)
        · rw [hnew, hsame]
          cases failure with
          | none => exact fun _ => Or.inl ((h id).running c hmem hc)
          | some error => simp
        · rw [hnew, hsame]
          cases failure with
          | none => exact fun _ => rfl
          | some error => exact fun ha => absurd ha ((h id).unsent c hmem (Or.inr ⟨error, hc⟩))
        · rw [hlog]
          intro hm
          rw [(h id).cancelled hm] at hdispatching
          cases hdispatching
      · refine (h id).quiet (status?_of_set_ne htasks hid) (fun j d hd => ?_) hlog
        rw [hcalls]
        exact set_elsewhere hi (by simp [held_of_settling hc, Ne.symm hid]) (by simp [hc']) j d hd
  | dropped i c c' id' failure hi hc hc' hid' htasks hcalls hlog =>
      -- a held task is always being dispatched
      have hdispatching := (h id').holder i c hi (held_of_settling hc)
      obtain ⟨task, htask, hstatus⟩ := Option.map_eq_some_iff.mp hdispatching
      exact absurd hstatus (hid' task htask)

end Account

theorem loadRows_status (retrySeconds now : Time) (tasks : Dict TaskId ScheduledChat) (rows : List (Option ScheduledChat))
    (h : ∀ id task, tasks.get? id = some task → task.status ≠ .dispatching) :
    ∀ id task, (loadRows retrySeconds now tasks rows).get? id = some task → task.status ≠ .dispatching := by
  induction rows generalizing tasks with
  | nil => exact h
  | cons row rows ih =>
      cases row with
      | none => exact h
      | some row =>
          refine ih _ fun id task htask => ?_
          rw [Dict.get?_set] at htask
          split at htask
          · obtain rfl := Option.some.inj htask
            unfold recovered
            split <;> simp_all
          · exact h id task htask

section Runs

variable {retrySeconds now : Time} {rows : List (Option ScheduledChat)} {saved : Bool}

theorem account_start (id : TaskId) :
    Account (load retrySeconds now rows saved) (load retrySeconds now rows saved) id := by
  have htasks : (load retrySeconds now rows saved).tasks = loadRows retrySeconds now .empty rows := by
    unfold load
    split <;> simp
  have hcalls : (load retrySeconds now rows saved).calls = [] := by
    unfold load
    split <;> simp
  have hlog : (load retrySeconds now rows saved).log = [] := by
    unfold load
    split <;> simp
  have hnone : ¬(load retrySeconds now rows saved).Admitted id := by simp [State.Admitted, hlog]
  refine .of_free (by simp [hcalls]) ?_ (fun _ => hnone) Or.inr (fun h => absurd h hnone) (by simp [hlog])
    (by simp [hlog]) (by simp [hlog])
  rw [State.status?, htasks, Ne, Option.map_eq_some_iff]
  rintro ⟨task, htask, hstatus⟩
  exact loadRows_status retrySeconds now .empty rows (fun _ _ h => by simp at h) id task htask hstatus

theorem reachable_account {s : State}
    (h : ((machine retrySeconds now rows saved).restrict Dependable).Reachable s) (id : TaskId) :
    Account (load retrySeconds now rows saved) s id := by
  refine h.invariant (P := fun s => ∀ id, Account (load retrySeconds now rows saved) s id) account_start ?_ id
  intro s a t hs hnext
  obtain ⟨hok, hnext⟩ := Machine.restrict_next hnext
  exact Account.step hs (step_moves hok hnext)

theorem settle_sent {s t : State} {i : Nat} {c : Call} {id : TaskId} (hi : s.calls[i]? = some c)
    (hc : c.phase = .settling id none) (hstatus : s.status? id = some .dispatching) (now : Time) (saved : Bool)
    (h : s.next retrySeconds (.settle i now saved) = some t) : t.status? id = some .sent := by
  obtain ⟨task, htask, hdispatching⟩ := Option.map_eq_some_iff.mp hstatus
  simp only [State.next, hi, Option.bind_some, hc, Option.some.injEq] at h
  subst h
  simp only [State.settle, htask, hdispatching, if_true]
  have htasks : (((s.setTask id (State.afterSuccess now task)).saveLocked saved).setCall i
      { c with
        phase := if saved then .next else .raised
        dispatched := if saved then c.dispatched + 1 else c.dispatched }).tasks =
      s.tasks.set id (State.afterSuccess now task) := by simp
  exact status?_of_set htasks

-- For every run of create, cancel and any number of sweeps, with every other call failing at will: a task is sent
-- exactly when a run was admitted for it, up to the section that is about to say so; it is not submitted after an
-- admission or a cancellation; and only a sweep in progress leaves a task in dispatching.
theorem dispatched_when_admitted {s : State}
    (h : ((machine retrySeconds now rows saved).restrict Dependable).Reachable s) (id : TaskId) :
    (s.status? id = some .sent → s.Admitted id ∨ (load retrySeconds now rows saved).status? id = some .sent) ∧
    (s.Admitted id → s.status? id = some .sent ∨
      ∃ i c, s.calls[i]? = some c ∧ c.phase = .settling id none ∧ ∀ now saved t,
        s.next retrySeconds (.settle i now saved) = some t → t.status? id = some .sent) ∧
    (∀ request, ¬[Entry.admitted id request, .submit id].Sublist s.log) ∧
    ¬[Entry.cancelled id, .submit id].Sublist s.log ∧
    (s.status? id = some .dispatching →
      ∃ c ∈ s.calls, c.phase = .submitting id ∨ ∃ failure, c.phase = .settling id failure) := by
  have ha := reachable_account h id
  refine ⟨ha.sent, fun hadmitted => ?_, ha.once, ha.withdrawn, fun hdispatching => ?_⟩
  · refine (ha.admitted hadmitted).imp_right ?_
    rintro ⟨c, hc, hphase⟩
    obtain ⟨i, hi⟩ := List.mem_iff_getElem?.mp hc
    refine ⟨i, c, hi, hphase, fun now saved t ht => ?_⟩
    exact settle_sent hi hphase (ha.holder i c hi (held_of_settling hphase)) now saved ht
  · obtain ⟨c, hc, hheld⟩ := ha.kept hdispatching
    refine ⟨c, hc, ?_⟩
    unfold Call.held at hheld
    split at hheld
    · exact Or.inl (by simp_all)
    · rename_i failure hphase
      exact Or.inr ⟨failure, by simp_all⟩
    all_goals cases hheld

end Runs

-- A sweep of one task that is due at 1, and a store that answers for a session with a model of its own.
def due (id : TaskId) : List Action :=
  [.create id "s" "hello" [] 1 [] 0 (fun _ => .readable) true, .start 1, .take 0 true]

def confirmed : Backend := ⟨.ok ⟨some "k", none⟩, .ok none, .admitted, .ok ()⟩

theorem dispatched_when_admitted_run : ∃ s : State,
    ((machine 60 0 [] true).restrict Dependable).Reachable s ∧ s.Admitted "a" ∧ s.status? "a" = some .sent := by
  have hrun : (((machine 60 0 [] true).restrict Dependable).run {}
      (due "a" ++ [Action.submit 0 (fun _ => .readable) confirmed, .settle 0 2 true])).map
        (fun s => (s.log, s.calls, s.status? "a")) =
      some ([.submit "a", .admitted "a" ⟨"hello", "s", [], "scheduled", some "k"⟩], [⟨[], 1, .next⟩], some .sent) := by
    decide
  obtain ⟨s, hs, heq⟩ := Option.map_eq_some_iff.mp hrun
  simp only [Prod.mk.injEq] at heq
  have hreach : ((machine 60 0 [] true).restrict Dependable).Reachable s := ⟨_, hs⟩
  have hadmitted : s.Admitted "a" := ⟨⟨"hello", "s", [], "scheduled", some "k"⟩, by simp [heq.1]⟩
  refine ⟨s, hreach, hadmitted, ?_⟩
  rcases (dispatched_when_admitted hreach "a").2.1 hadmitted with hsent | ⟨i, c, hi, hc, -⟩
  · exact hsent
  · -- no call is in progress any more
    rw [heq.2.1] at hi
    have hmem := List.mem_of_getElem? hi
    simp only [List.mem_singleton] at hmem
    subst hmem
    cases hc

-- `touch` fails after the run was admitted: the task goes back to pending and is submitted again.
theorem submitted_twice :
    (∃ s request, (machine 60 0 [] true).Reachable s ∧ [Entry.admitted "a" request, .submit "a"].Sublist s.log) ∧
    -- the model has to be confirmed again: nothing is submitted and the task is sent
    (∃ s, (machine 60 0 [] true).Reachable s ∧ s.status? "a" = some .sent ∧ ¬s.Admitted "a") ∧
    -- the state file cannot be written when the task is marked: it stays in dispatching
    ∃ s, (machine 60 0 [] true).Reachable s ∧ s.status? "a" = some .dispatching ∧
      ∀ c ∈ s.calls, c.phase = .raised := by
  have htwice : ((machine 60 0 [] true).run {}
      (due "a" ++ [Action.submit 0 (fun _ => .readable) { confirmed with touch := .error "disk full" }, .settle 0 2 true,
        .start 100, .take 1 true, .submit 1 (fun _ => .readable) confirmed])).map State.log =
      some [.submit "a", .admitted "a" ⟨"hello", "s", [], "scheduled", some "k"⟩, .submit "a",
        .admitted "a" ⟨"hello", "s", [], "scheduled", some "k"⟩] := by
    decide
  have hskipped : ((machine 60 0 [] true).run {}
      (due "a" ++ [Action.submit 0 (fun _ => .readable) { confirmed with row := .ok ⟨none, some 0⟩ }, .settle 0 2 true])).map
        (fun s => (s.log, s.status? "a")) = some ([.submit "a"], some .sent) := by
    decide
  have hstuck : ((machine 60 0 [] true).run {}
      [.create "a" "s" "hello" [] 1 [] 0 (fun _ => .readable) true, .start 1, .take 0 false]).map
        (fun s => (s.calls, s.status? "a")) = some ([⟨[], 0, .raised⟩], some .dispatching) := by
    decide
  refine ⟨?_, ?_, ?_⟩
  · obtain ⟨s, hs, heq⟩ := Option.map_eq_some_iff.mp htwice
    refine ⟨s, ⟨"hello", "s", [], "scheduled", some "k"⟩, ⟨_, hs⟩, ?_⟩
    rw [heq]
    decide
  · obtain ⟨s, hs, heq⟩ := Option.map_eq_some_iff.mp hskipped
    simp only [Prod.mk.injEq] at heq
    exact ⟨s, ⟨_, hs⟩, heq.2, by simp [State.Admitted, heq.1]⟩
  · obtain ⟨s, hs, heq⟩ := Option.map_eq_some_iff.mp hstuck
    simp only [Prod.mk.injEq] at heq
    exact ⟨s, ⟨_, hs⟩, heq.2, by simp [heq.1]⟩

end GaHub.Scheduled
