import GaHub.GoalHive

namespace GaHub.GoalHive

open Lib

section Messages

def streamed (messages : List HiveMessage) : List (Nat × Role) :=
  (messages.filter fun m => m.streaming).map fun m => (m.stream, m.role)

theorem streamed_append (ms ms' : List HiveMessage) : streamed (ms ++ ms') = streamed ms ++ streamed ms' := by
  rw [streamed, List.filter_append, List.map_append]
  rfl

theorem streamed_finish (s : Service) : streamed s.finishActiveMessages.messages = [] := by
  simp [streamed, Service.finishActiveMessages, List.filter_eq_nil_iff]

theorem streamed_write (s : Service) (t : Nat) (f : String → String) : streamed (s.write t f) = streamed s.messages := by
  unfold streamed Service.write
  induction s.messages with
  | nil => rfl
  | cons m ms ih => grind -ring -linarith

theorem streamed_settle (s : Service) (t : Nat) (f : String → String) :
    streamed (s.settle t f).messages = (streamed s.messages).filter fun k => decide (k ≠ (t, .assistant)) := by
  unfold streamed Service.settle
  simp only
  induction s.messages with
  | nil => rfl
  | cons m ms ih => grind -ring -linarith

theorem streamed_filter (ms : List HiveMessage) (t : Nat) :
    streamed (ms.filter fun m => decide (m.stream ≠ t)) = (streamed ms).filter fun k => decide (k.1 ≠ t) := by
  unfold streamed
  induction ms with
  | nil => rfl
  | cons m ms ih => grind -ring -linarith

theorem getElem?_write {s : Service} {t i : Nat} {m : HiveMessage} (f : String → String) (h : s.messages[i]? = some m)
    (hother : ¬(m.stream = t ∧ m.role = .assistant)) : (s.write t f)[i]? = some m := by
  rw [Service.write, List.getElem?_map, h, Option.map_some, if_neg hother]

theorem getElem?_settle {s : Service} {t i : Nat} {m : HiveMessage} (f : String → String) (h : s.messages[i]? = some m)
    (hother : ¬(m.stream = t ∧ m.role = .assistant)) : (s.settle t f).messages[i]? = some m := by
  rw [Service.settle, List.getElem?_map, h, Option.map_some, if_neg hother]

def Shown (messages : List HiveMessage) (active : Option Nat) : Prop :=
  streamed messages = active.toList.map fun t => (t, .assistant)

theorem Shown.settle {s : Service} (h : Shown s.messages s.active) (t : Nat) (f : String → String) :
    Shown (s.settle t f).messages (s.settle t f).active := by
  rw [Shown, streamed_settle, h]
  show _ = (if s.active = some t then none else s.active).toList.map _
  cases hact : s.active with
  | none => simp
  | some u =>
      by_cases hu : u = t
      · simp [hu]
      · simp [hu]

theorem Shown.finish (s : Service) : Shown s.finishActiveMessages.messages s.finishActiveMessages.active :=
  streamed_finish s

theorem Shown.write {s : Service} (h : Shown s.messages s.active) (t : Nat) (f : String → String) :
    Shown (s.write t f) s.active := (streamed_write s t f).trans h

end Messages

section Invariant

variable {s : Service}

def Service.pending (s : Service) : List Task :=
  s.taskQueue ++ match s.runner with
    | some (.taken task) => [task]
    | some (.executing task) => [task]
    | _ => []

def reservation (stream : Nat) (text : String) : List HiveMessage :=
  [{ stream, role := .user, content := text }, { stream, role := .assistant, content := "", streaming := true }]

structure Inv (s : Service) : Prop where
  shown : Shown s.messages s.active
  active_lt : ∀ t, s.active = some t → t < s.fresh
  messages_lt : ∀ m ∈ s.messages, m.stream < s.fresh
  drains_lt : ∀ d ∈ s.drains, d.stream < s.fresh
  pending_lt : ∀ task ∈ s.pending, task.stream < s.fresh
  silent : ∀ t, s.fresh ≤ t → s.display t = []
  one : s.pending.length ≤ 1
  waiting : s.closed = false → ∀ task, s.waits task → s.active = some task.stream
  quiet : ∀ task, s.waits task → s.display task.stream = []
  executing : ∀ task, s.runner = some (.executing task) → s.isRunning = true
  halted : ∀ task, s.waits task → s.halted ≤ task.stream
  halted_le : s.halted ≤ s.fresh
  registered : ∀ d ∈ s.drains, d.stream ∈ s.streamQueues
  woken : s.runner = none → s.closed = false → ∀ d ∈ s.drains, s.woken d = true
  holding : ∀ sub, s.submitting = some sub → s.closed = false ∧ s.active = some sub.stream ∧ s.runner ≠ none ∧
    s.halted ≤ sub.stream ∧ sub.stream < s.fresh ∧ ∀ d ∈ s.drains, d.stream ≠ sub.stream
  reserved : ∀ sub, s.submitting = some sub → sub.queued = false → s.pending = [] ∧ s.display sub.stream = [] ∧
    ∃ kept text, s.messages = kept ++ reservation sub.stream text ∧ ∀ m ∈ kept, m.stream ≠ sub.stream

theorem waits_pending {task : Task} (h : s.waits task) : task ∈ s.pending := by
  unfold Service.pending
  rcases h with hq | hr
  · exact List.mem_append_left _ hq
  · rw [hr]
    exact List.mem_append_right _ (List.mem_singleton.mpr rfl)

theorem inv_start : Inv {} := by
  constructor <;> simp [Shown, streamed, Service.pending, Service.waits]

theorem Inv.ensureRunner (h : Inv s) : Inv s.ensureRunner := by
  have hpending : s.ensureRunner.pending = s.pending := by
    unfold Service.pending Service.ensureRunner
    cases s.runner <;> rfl
  have hwaits : ∀ task, s.ensureRunner.waits task → s.waits task := by
    intro task hw
    unfold Service.waits Service.ensureRunner at hw
    rcases hw with hq | hr
    · exact .inl hq
    · cases hrun : s.runner with
      | none =>
          rw [hrun] at hr
          cases hr
      | some r =>
          rw [hrun] at hr
          exact .inr (hrun.trans hr)
  have hexec : ∀ task, s.ensureRunner.runner = some (.executing task) → s.runner = some (.executing task) := by
    intro task hr
    unfold Service.ensureRunner at hr
    cases hrun : s.runner with
    | none =>
        rw [hrun] at hr
        cases hr
    | some r =>
        rw [hrun] at hr
        exact hr
  refine { h with
    pending_lt := ?_, one := ?_, waiting := ?_, quiet := ?_, executing := ?_, halted := ?_, woken := ?_
    holding := ?_, reserved := ?_ }
  · rw [hpending]
    exact h.pending_lt
  · rw [hpending]
    exact h.one
  · exact fun hc task hw => h.waiting hc task (hwaits task hw)
  · exact fun task hw => h.quiet task (hwaits task hw)
  · exact fun task hr => h.executing task (hexec task hr)
  · exact fun task hw => h.halted task (hwaits task hw)
  · intro hr
    cases hr
  · intro sub hsub
    obtain ⟨h1, h2, -, h4⟩ := h.holding sub hsub
    exact ⟨h1, h2, by simp [Service.ensureRunner], h4⟩
  · intro sub hsub hq
    rw [hpending]
    exact h.reserved sub hsub hq

theorem not_pending (h : Inv s) (hclosed : s.closed = false) (hactive : s.active = none) (hidle : s.isRunning = false) :
    s.pending = [] := by
  have hnot : ∀ task, ¬s.waits task := by
    intro task hw
    have hact := h.waiting hclosed task hw
    rw [hactive] at hact
    cases hact
  have hqueue : s.taskQueue = [] := List.eq_nil_iff_forall_not_mem.mpr fun task hin => hnot task (.inl hin)
  unfold Service.pending
  rw [hqueue]
  cases hr : s.runner with
  | none => rfl
  | some r =>
      cases r with
      | taken task => exact absurd (.inr hr) (hnot task)
      | executing task =>
          have hrun := h.executing task hr
          rw [hidle] at hrun
          cases hrun
      | waiting => rfl
      | stopped => rfl

theorem Inv.submit (h : Inv s) (text mode : String) (index : Option Int) (runnerOk : Bool) :
    Inv (s.submit text mode index runnerOk) := by
  unfold Service.submit
  split
  · exact h
  · rename_i hclosed
    split
    · exact h
    · split
      · exact h.ensureRunner
      · rename_i hbusy
        simp only [Bool.not_eq_true, Bool.or_eq_false_iff, Option.isSome_eq_false_iff, Option.isNone_iff_eq_none] at hclosed hbusy
        have hnone := not_pending h hclosed hbusy.1 hbusy.2
        have he := h.ensureRunner
        have hpending : s.ensureRunner.pending = [] := not_pending he hclosed hbusy.1 hbusy.2
        have hnot : ∀ task, ¬s.ensureRunner.waits task := by
          intro task hw
          have hin := waits_pending hw
          rw [hpending] at hin
          cases hin
        constructor
        · rw [Shown, streamed_append, h.shown, hbusy.1]
          rfl
        · intro t ht
          cases ht
          exact Nat.lt_succ_self _
        · intro m hm
          rcases List.mem_append.mp hm with hold | hnew
          · exact Nat.lt_succ_of_lt (h.messages_lt m hold)
          · have hstream : m.stream = s.fresh := by
              rcases List.mem_cons.mp hnew with rfl | hlast
              · rfl
              · rw [List.mem_singleton.mp hlast]
            rw [hstream]
            exact Nat.lt_succ_self _
        · exact fun d hd => Nat.lt_succ_of_lt (h.drains_lt d hd)
        · intro task hin
          have hin : task ∈ s.ensureRunner.pending := hin
          rw [hpending] at hin
          cases hin
        · exact fun t ht => h.silent t (Nat.le_of_succ_le ht)
        · exact le_of_eq_of_le (congrArg List.length hpending) (Nat.zero_le _)
        · exact fun _ task hw => absurd hw (hnot task)
        · exact fun task hw => absurd hw (hnot task)
        · exact he.executing
        · exact fun task hw => absurd hw (hnot task)
        · exact Nat.le_succ_of_le h.halted_le
        · exact h.registered
        · intro hr
          cases hr
        · intro sub hsub
          cases hsub
          exact ⟨hclosed, rfl, by simp [Service.ensureRunner], h.halted_le, Nat.lt_succ_self _,
            fun d hd => Nat.ne_of_lt (h.drains_lt d hd)⟩
        · intro sub hsub _
          cases hsub
          exact ⟨hpending, h.silent _ (Nat.le_refl _), s.messages, text, rfl, fun m hm => Nat.ne_of_lt (h.messages_lt m hm)⟩

theorem pending_eq_nil (h : s.pending = []) : s.taskQueue = [] ∧ (∀ task, s.runner ≠ some (.taken task)) ∧
    ∀ task, s.runner ≠ some (.executing task) := by
  obtain ⟨hq, hr⟩ := List.append_eq_nil_iff.mp h
  refine ⟨hq, ?_, ?_⟩
  · intro task heq
    rw [heq] at hr
    cases hr
  · intro task heq
    rw [heq] at hr
    cases hr

theorem Inv.queued (h : Inv s) {sub : Submitting} (hsub : s.submitting = some sub) (hq : sub.queued = false) :
    Inv (s.putTask sub true) := by
  obtain ⟨hclosed, hactive, hrunner, hhalted, hlt, hdrains⟩ := h.holding sub hsub
  obtain ⟨hnone, hdisplay, hmessages⟩ := h.reserved sub hsub hq
  obtain ⟨hqueue, htaken, hexec⟩ := pending_eq_nil hnone
  have hpending : (s.putTask sub true).pending = [⟨sub.stream, sub.prompt⟩] := by
    have hrest := (List.append_eq_nil_iff.mp hnone).2
    show (s.taskQueue ++ [⟨sub.stream, sub.prompt⟩]) ++ _ = _
    rw [hqueue, List.nil_append]
    exact congrArg (_ ++ ·) hrest
  have hwaits : ∀ task, (s.putTask sub true).waits task → task = ⟨sub.stream, sub.prompt⟩ := by
    intro task hw
    simpa [hpending] using waits_pending hw
  constructor
  · exact h.shown
  · exact h.active_lt
  · exact h.messages_lt
  · exact h.drains_lt
  · intro task hin
    rw [hpending, List.mem_singleton] at hin
    rw [hin]
    exact hlt
  · exact h.silent
  · rw [hpending]
    exact Nat.le_refl _
  · intro _ task hw
    rw [hwaits task hw]
    exact hactive
  · intro task hw
    rw [hwaits task hw]
    exact hdisplay
  · exact h.executing
  · intro task hw
    rw [hwaits task hw]
    exact hhalted
  · exact h.halted_le
  · exact h.registered
  · exact h.woken
  · intro sub' hsub'
    cases hsub'
    exact ⟨hclosed, hactive, hrunner, hhalted, hlt, hdrains⟩
  · intro sub' hsub' hq'
    cases hsub'
    cases hq'

theorem unreserve {kept : List HiveMessage} {t : Nat} {text : String} (hkept : ∀ m ∈ kept, m.stream ≠ t) :
    (kept ++ reservation t text).filter (fun m => decide (m.stream ≠ t)) = kept := by
  rw [List.filter_append, List.filter_eq_self.mpr (by simpa using hkept)]
  simp [reservation]

theorem putTask_failed (h : Inv s) {sub : Submitting} (hsub : s.submitting = some sub) (hq : sub.queued = false) :
    ∃ text, s.messages = (s.putTask sub false).messages ++ reservation sub.stream text ∧
      s.active = some sub.stream ∧ (s.putTask sub false).active = none := by
  obtain ⟨-, hactive, -⟩ := h.holding sub hsub
  obtain ⟨-, -, kept, text, hmessages, hkept⟩ := h.reserved sub hsub hq
  refine ⟨text, ?_, hactive, ?_⟩
  · show s.messages = s.messages.filter (fun m => decide (m.stream ≠ sub.stream)) ++ _
    rw [hmessages, unreserve hkept]
  · show (if s.active = some sub.stream then none else s.active) = none
    rw [if_pos hactive]

theorem Inv.unqueued (h : Inv s) {sub : Submitting} (hsub : s.submitting = some sub) (hq : sub.queued = false) :
    Inv (s.putTask sub false) := by
  obtain ⟨-, -, hnone⟩ := (putTask_failed h hsub hq).choose_spec
  obtain ⟨hclosed, hactive, hrunner, hhalted, hlt, hdrains⟩ := h.holding sub hsub
  obtain ⟨hempty, -⟩ := h.reserved sub hsub hq
  have hnot : ∀ task, ¬s.waits task := by
    intro task hw
    have hin := waits_pending hw
    rw [hempty] at hin
    cases hin
  refine { h with shown := ?_, active_lt := ?_, messages_lt := ?_, waiting := ?_, holding := ?_, reserved := ?_ }
  · show streamed (s.messages.filter fun m => decide (m.stream ≠ sub.stream)) = _
    rw [streamed_filter, h.shown, hactive, hnone]
    simp
  · intro t ht
    rw [hnone] at ht
    cases ht
  · exact fun m hm => h.messages_lt m (List.mem_filter.mp hm).1
  · exact fun _ task hw => absurd hw (hnot task)
  · intro sub' hsub'
    cases hsub'
  · intro sub' hsub'
    cases hsub'

theorem Inv.launch (h : Inv s) {sub : Submitting} (hsub : s.submitting = some sub) : Inv (s.launch sub true) := by
  obtain ⟨hclosed, hactive, hrunner, hhalted, hlt, hdrains⟩ := h.holding sub hsub
  refine { h with drains_lt := ?_, registered := ?_, woken := ?_, holding := ?_, reserved := ?_ }
  · intro d hd
    rcases List.mem_append.mp hd with hold | hnew
    · exact h.drains_lt d hold
    · rw [List.mem_singleton.mp hnew]
      exact hlt
  · intro d hd
    rcases List.mem_append.mp hd with hold | hnew
    · exact List.mem_append_left _ (h.registered d hold)
    · rw [List.mem_singleton.mp hnew]
      exact List.mem_append_right _ (List.mem_singleton.mpr rfl)
  · exact fun hr => absurd hr hrunner
  · intro sub' hsub'
    cases hsub'
  · intro sub' hsub'
    cases hsub'

theorem Inv.finish (h : Inv s) (hfree : s.submitting = none) (hnot : s.closed = false → ∀ task, ¬s.waits task) :
    Inv s.finishActiveMessages := by
  refine { h with shown := ?_, active_lt := ?_, messages_lt := ?_, waiting := ?_, holding := ?_, reserved := ?_ }
  · exact .finish s
  · intro t ht
    cases ht
  · intro m hm
    obtain ⟨m', hm', rfl⟩ := List.mem_map.mp hm
    exact h.messages_lt m' hm'
  · exact fun hc task hw => absurd hw (hnot hc task)
  · intro sub hsub
    have hsub : s.submitting = some sub := hsub
    rw [hfree] at hsub
    cases hsub
  · intro sub hsub
    have hsub : s.submitting = some sub := hsub
    rw [hfree] at hsub
    cases hsub

end Invariant

section Steps

variable {s : Service}

theorem Inv.abort (h : Inv s) (hfree : s.submitting = none) (hsound : Sound s .abort = true) : Inv s.abort := by
  have hnot : ∀ task, ¬s.waits task := by
    rintro task (hq | hr)
    · simp only [Sound, Bool.and_eq_true, List.isEmpty_iff] at hsound
      rw [hsound.1] at hq
      cases hq
    · simp [Sound, hr] at hsound
  have hfinish := h.finish hfree fun _ => hnot
  refine { hfinish with halted := ?_, halted_le := ?_, holding := ?_ }
  · exact fun task hw => absurd hw (hnot task)
  · exact Nat.le_refl _
  · intro sub hsub
    have hsub : s.submitting = some sub := hsub
    rw [hfree] at hsub
    cases hsub

theorem Inv.reset (h : Inv s) : Inv s.reset := by
  unfold Service.reset
  split
  · exact h
  · rename_i hactive
    have hactive : s.active = none := by simpa using hactive
    refine { h with shown := ?_, messages_lt := ?_, reserved := ?_ }
    · show Shown [] s.active
      rw [hactive]
      rfl
    · intro m hm
      cases hm
    · intro sub hsub
      have hact := (h.holding sub hsub).2.1
      rw [hactive] at hact
      cases hact

theorem Inv.shutdown (h : Inv s) (hfree : s.submitting = none) : Inv { s with closed := true } := by
  refine { h with waiting := ?_, woken := ?_, holding := ?_ }
  · intro hc
    cases hc
  · intro _ hc
    cases hc
  · intro sub hsub
    have hsub : s.submitting = some sub := hsub
    rw [hfree] at hsub
    cases hsub

theorem Inv.free (h : Inv s) (hclosed : s.closed = true) : s.submitting = none := by
  cases hsub : s.submitting with
  | none => rfl
  | some sub =>
      have hopen := (h.holding sub hsub).1
      rw [hclosed] at hopen
      cases hopen

theorem Inv.discardPending (h : Inv s) (hclosed : s.closed = true) : Inv { s with taskQueue := [] } := by
  have hsub : ∀ task, ({ s with taskQueue := [] } : Service).waits task → s.waits task := by
    rintro task (hq | hr)
    · cases hq
    · exact .inr hr
  refine { h with
    pending_lt := ?_, one := ?_, waiting := ?_, quiet := ?_, halted := ?_, holding := ?_, reserved := ?_ }
  · exact fun task hin => h.pending_lt task (List.mem_append_right _ hin)
  · refine Nat.le_trans ?_ h.one
    show ([] ++ _).length ≤ (s.taskQueue ++ _).length
    rw [List.length_append, List.length_append]
    exact Nat.add_le_add_right (Nat.zero_le _) _
  · exact fun hc task hw => h.waiting hc task (hsub task hw)
  · exact fun task hw => h.quiet task (hsub task hw)
  · exact fun task hw => h.halted task (hsub task hw)
  · exact h.holding
  · intro sub hs
    have hs : s.submitting = some sub := hs
    rw [h.free hclosed] at hs
    cases hs

theorem Inv.runner (h : Inv s) {runner : Runner} {taskQueue : List Task} {isRunning : Bool}
    (hpending : ({ s with runner := some runner, taskQueue, isRunning } : Service).pending.Sublist s.pending)
    (hwaits : ∀ task, ({ s with runner := some runner, taskQueue, isRunning } : Service).waits task → s.waits task)
    (hexec : ∀ task, runner = .executing task → isRunning = true) :
    Inv { s with runner := some runner, taskQueue, isRunning } := by
  refine { h with
    pending_lt := ?_, one := ?_, waiting := ?_, quiet := ?_, executing := ?_, halted := ?_, woken := ?_
    holding := ?_, reserved := ?_ }
  · exact fun task hin => h.pending_lt task (hpending.subset hin)
  · exact Nat.le_trans hpending.length_le h.one
  · exact fun hc task hw => h.waiting hc task (hwaits task hw)
  · exact fun task hw => h.quiet task (hwaits task hw)
  · exact fun task hr => hexec task (Option.some.inj hr)
  · exact fun task hw => h.halted task (hwaits task hw)
  · intro hr
    cases hr
  · intro sub hsub
    obtain ⟨h1, h2, -, h4⟩ := h.holding sub hsub
    exact ⟨h1, h2, by simp, h4⟩
  · intro sub hsub hq
    obtain ⟨h1, h2⟩ := h.reserved sub hsub hq
    rw [h1] at hpending
    exact ⟨List.sublist_nil.mp hpending, h2⟩

theorem Inv.take (h : Inv s) {task : Task} {rest : List Task} (hr : s.runner = some .waiting)
    (hq : s.taskQueue = task :: rest) : Inv { s with runner := some (.taken task), taskQueue := rest } := by
  have hone := h.one
  simp only [Service.pending, hr, hq, List.append_nil, List.length_cons] at hone
  have hrest : rest = [] := List.eq_nil_of_length_eq_zero (by omega)
  refine h.runner ?_ ?_ (by simp)
  · simp [Service.pending, hr, hq, hrest]
  · rintro t (hin | heq)
    · exact .inl (by rw [hq]; exact List.mem_cons_of_mem _ hin)
    · cases heq
      exact .inl (by simp [hq])

theorem Inv.mark (h : Inv s) {task : Task} (hr : s.runner = some (.taken task)) :
    Inv { s with runner := some (.executing task), isRunning := true } := by
  refine h.runner ?_ ?_ (fun _ _ => rfl)
  · simp [Service.pending, hr]
  · rintro t (hin | heq)
    · exact .inl hin
    · cases heq

theorem Inv.drop (h : Inv s) {runner : Runner} {isRunning : Bool}
    (hrunner : runner = .waiting ∨ runner = .stopped) : Inv { s with runner := some runner, isRunning } := by
  have hidle : ∀ task, runner ≠ .taken task ∧ runner ≠ .executing task := by
    intro task
    rcases hrunner with rfl | rfl <;> simp
  refine h.runner ?_ ?_ ?_
  · have hqueue : ({ s with runner := some runner, isRunning } : Service).pending = s.taskQueue := by
      rcases hrunner with rfl | rfl <;> simp [Service.pending]
    rw [hqueue]
    exact List.sublist_append_left _ _
  · rintro t (hin | heq)
    · exact .inl hin
    · exact absurd (Option.some.inj heq) (hidle t).1
  · exact fun task heq => absurd heq (hidle task).2

theorem Inv.emit (h : Inv s) {task : Task} (hr : s.runner = some (.executing task)) (item : Item) :
    Inv { s with display := s.push task.stream item } := by
  have hone := h.one
  simp only [Service.pending, hr, List.length_append, List.length_cons, List.length_nil] at hone
  have hqueue : s.taskQueue = [] := List.eq_nil_of_length_eq_zero (by omega)
  have hnot : ∀ t, ¬s.waits t := by
    rintro t (hin | heq)
    · rw [hqueue] at hin
      cases hin
    · rw [hr] at heq
      cases heq
  have hlt : task.stream < s.fresh := h.pending_lt task (by simp [Service.pending, hr])
  refine { h with silent := ?_, quiet := ?_, woken := ?_, reserved := ?_ }
  · intro t ht
    have ht : s.fresh ≤ t := ht
    show (if t = task.stream then _ else s.display t) = []
    rw [if_neg (by omega)]
    exact h.silent t ht
  · exact fun t hw => absurd hw (hnot t)
  · intro hnone
    have hnone : s.runner = none := hnone
    rw [hr] at hnone
    cases hnone
  · intro sub hsub hq
    have hempty := (h.reserved sub hsub hq).1
    simp [Service.pending, hr] at hempty

theorem woken_push {t : Nat} {item : Item} {d : Drain} (hd : s.woken d = true) :
    ({ s with display := s.push t item } : Service).woken d = true := by
  unfold Service.woken Service.push at *
  rw [Bool.or_eq_true] at hd ⊢
  refine hd.imp_right fun hany => ?_
  show ((if d.stream = t then _ else _) : List Item).any _ = true
  split
  · rw [List.any_append, hany]
    rfl
  · exact hany

theorem woken_stopped {d : Drain} :
    ({ s with display := s.push d.stream .runnerStopped } : Service).woken d = true := by
  simp [Service.woken, Service.push, Item.terminal]

theorem runnerExit_display (s : Service) : s.runnerExit.display = s.display ∨
    ∃ t, s.closed = false ∧ s.active = some t ∧ s.runnerExit.display = s.push t .runnerStopped := by
  unfold Service.runnerExit
  cases hclosed : s.closed with
  | true => exact .inl rfl
  | false =>
      cases hact : s.active with
      | none => exact .inl rfl
      | some t =>
          by_cases hin : t ∈ s.streamQueues
          · exact .inr ⟨t, rfl, rfl, by simp [hin]⟩
          · exact .inl (by simp [hin])

theorem Inv.runnerExit (h : Inv s) (hr : s.runner = some .stopped) (hfree : s.submitting = none)
    (hsound : Sound s .runnerExit = true) : Inv s.runnerExit := by
  have hpending : s.runnerExit.pending = s.pending := by
    simp [Service.pending, Service.runnerExit, hr]
  have hwaits : ∀ task, s.runnerExit.waits task → task ∈ s.taskQueue := by
    rintro task (hin | heq)
    · exact hin
    · cases heq
  have hsub : ∀ sub, s.runnerExit.submitting ≠ some sub := by
    intro sub hsub
    have hsub : s.submitting = some sub := hsub
    rw [hfree] at hsub
    cases hsub
  refine { h with
    pending_lt := ?_, silent := ?_, one := ?_, waiting := ?_, quiet := ?_, executing := ?_, halted := ?_, woken := ?_
    holding := ?_, reserved := ?_ }
  · rw [hpending]
    exact h.pending_lt
  · intro t ht
    have hsilent := h.silent t ht
    rcases runnerExit_display s with heq | ⟨u, -, hact, heq⟩
    · rw [heq]
      exact hsilent
    · have hlt := h.active_lt u hact
      have ht : s.fresh ≤ t := ht
      rw [heq]
      show (if t = u then _ else s.display t) = []
      rw [if_neg (by omega)]
      exact hsilent
  · rw [hpending]
    exact h.one
  · exact fun hc task hw => h.waiting hc task (.inl (hwaits task hw))
  · intro task hw
    have hin := hwaits task hw
    have hquiet := h.quiet task (.inl hin)
    rcases runnerExit_display s with heq | ⟨u, hclosed, -, -⟩
    · rw [heq]
      exact hquiet
    · simp only [Sound, hclosed, Bool.false_or, Bool.and_eq_true, List.isEmpty_iff] at hsound
      rw [hsound.1] at hin
      cases hin
  · intro task heq
    cases heq
  · exact fun task hw => h.halted task (.inl (hwaits task hw))
  · intro _ hclosed d hd
    have hclosed : s.closed = false := hclosed
    simp only [Sound, hclosed, Bool.false_or, Bool.and_eq_true, List.all_eq_true, Bool.or_eq_true, beq_iff_eq] at hsound
    rcases hsound.2 d hd with hact | hwoken
    · have hreg := h.registered d hd
      have hdisplay : s.runnerExit.display = s.push d.stream .runnerStopped := by
        simp [Service.runnerExit, hclosed, hact, hreg]
      have hstopped := woken_stopped (s := s) (d := d)
      unfold Service.woken at hstopped ⊢
      rw [hdisplay]
      exact hstopped
    · rcases runnerExit_display s with heq | ⟨u, -, -, heq⟩
      · unfold Service.woken at hwoken ⊢
        rw [heq]
        exact hwoken
      · have hkept : ({ s with display := s.push u .runnerStopped } : Service).woken d = true := woken_push hwoken
        unfold Service.woken at hkept ⊢
        rw [heq]
        exact hkept
  · exact fun sub heq => absurd heq (hsub sub)
  · exact fun sub heq => absurd heq (hsub sub)

end Steps

section Drains

variable {s : Service} {t : Nat}

theorem reserved_write {ms : List HiveMessage} {sub : Nat} {text : String} {g : HiveMessage → HiveMessage}
    (hg : ∀ m, m.stream ≠ t → g m = m) (hsub : sub ≠ t) (hkept : ∃ kept, ms = kept ++ reservation sub text ∧
      ∀ m ∈ kept, m.stream ≠ sub) (hstream : ∀ m, (g m).stream = m.stream) :
    ∃ kept, ms.map g = kept ++ reservation sub text ∧ ∀ m ∈ kept, m.stream ≠ sub := by
  obtain ⟨kept, rfl, hkept⟩ := hkept
  refine ⟨kept.map g, ?_, ?_⟩
  · rw [List.map_append]
    simp only [reservation, List.map_cons, List.map_nil]
    rw [hg _ hsub, hg _ hsub]
  · intro m hm
    obtain ⟨m', hm', rfl⟩ := List.mem_map.mp hm
    rw [hstream]
    exact hkept m' hm'

theorem mem_setDrain {d : Drain} {looping : Bool} (hd : d ∈ s.setDrain t looping) :
    ∃ d' ∈ s.drains, d'.stream = d.stream ∧ (d = d' ∨ (d.stream = t ∧ d.looping = looping)) := by
  obtain ⟨d', hd', rfl⟩ := List.mem_map.mp hd
  split
  · exact ⟨d', hd', rfl, .inr ⟨‹_›, rfl⟩⟩
  · exact ⟨d', hd', rfl, .inl rfl⟩

-- What a drain may change: its own display queue and message, itself, and the active id where it is its own.
structure Drained (s s' : Service) (t : Nat) : Prop where
  shown : Shown s'.messages s'.active
  active : s'.active = s.active ∨ (s.active = some t ∧ s'.active = none)
  messages : ∃ g : HiveMessage → HiveMessage, s'.messages = s.messages.map g ∧ (∀ m, (g m).stream = m.stream) ∧
    ∀ m, m.stream ≠ t → g m = m
  display : ∀ u, s'.display u = s.display u ∨ (u = t ∧ s.display t ≠ [])
  drains : ∀ d ∈ s'.drains, ∃ d' ∈ s.drains, d'.stream = d.stream
  woken : s.closed = false → (∀ d ∈ s.drains, s.woken d = true) → ∀ d ∈ s'.drains, s'.woken d = true
  queues : ∀ d ∈ s'.drains, d.stream ∈ s.streamQueues → d.stream ∈ s'.streamQueues
  rest : s'.runner = s.runner ∧ s'.submitting = s.submitting ∧ s'.closed = s.closed ∧ s'.isRunning = s.isRunning ∧
    s'.taskQueue = s.taskQueue ∧ s'.fresh = s.fresh ∧ s'.halted = s.halted

theorem Inv.drained (h : Inv s) {s' : Service} (hd : Drained s s' t) (hmem : ∃ d ∈ s.drains, d.stream = t)
    (hkeep : s.closed = true ∨ s'.active = s.active ∨ s.display t ≠ []) : Inv s' := by
  obtain ⟨hrunner, hsub, hclosed, hrunning, hqueue, hfresh, hhalted⟩ := hd.rest
  have hpending : s'.pending = s.pending := by
    unfold Service.pending
    rw [hrunner, hqueue]
  have hwaits : ∀ task, s'.waits task → s.waits task := by
    intro task hw
    unfold Service.waits at hw ⊢
    rw [hrunner, hqueue] at hw
    exact hw
  have hother : ∀ sub, s.submitting = some sub → sub.stream ≠ t := by
    rintro sub heq rfl
    obtain ⟨d, hin, hstream⟩ := hmem
    exact (h.holding sub heq).2.2.2.2.2 d hin hstream
  constructor
  · exact hd.shown
  · intro u hu
    rw [hfresh]
    rcases hd.active with heq | ⟨-, hnone⟩
    · exact h.active_lt u (heq ▸ hu)
    · rw [hnone] at hu
      cases hu
  · obtain ⟨g, hmessages, hg, -⟩ := hd.messages
    intro m hm
    rw [hmessages] at hm
    obtain ⟨m', hm', rfl⟩ := List.mem_map.mp hm
    rw [hg, hfresh]
    exact h.messages_lt m' hm'
  · intro d hin
    obtain ⟨d', hd', hstream⟩ := hd.drains d hin
    rw [← hstream, hfresh]
    exact h.drains_lt d' hd'
  · rw [hpending, hfresh]
    exact h.pending_lt
  · intro u hu
    rw [hfresh] at hu
    rcases hd.display u with heq | ⟨rfl, hsome⟩
    · rw [heq]
      exact h.silent u hu
    · exact absurd (h.silent u hu) hsome
  · rw [hpending]
    exact h.one
  · intro hc task hw
    rw [hclosed] at hc
    have hact := h.waiting hc task (hwaits task hw)
    rcases hd.active with heq | ⟨hmine, hnone⟩
    · rw [heq]
      exact hact
    · -- a task that waits has nothing in its display queue yet
      rw [hact, Option.some.injEq] at hmine
      have hquiet := h.quiet task (hwaits task hw)
      rw [hmine] at hquiet
      rcases hkeep with hyes | hsame | hsome
      · rw [hc] at hyes
        cases hyes
      · rw [hnone, hact] at hsame
        cases hsame
      · exact absurd hquiet hsome
  · intro task hw
    have hquiet := h.quiet task (hwaits task hw)
    rcases hd.display task.stream with heq | ⟨heq, hsome⟩
    · rw [heq]
      exact hquiet
    · rw [heq] at hquiet
      exact absurd hquiet hsome
  · rw [hrunner, hrunning]
    exact h.executing
  · rw [hhalted]
    exact fun task hw => h.halted task (hwaits task hw)
  · rw [hhalted, hfresh]
    exact h.halted_le
  · intro d hin
    obtain ⟨d', hd', hstream⟩ := hd.drains d hin
    exact hd.queues d hin (hstream ▸ h.registered d' hd')
  · intro hnone hc
    rw [hrunner] at hnone
    rw [hclosed] at hc
    exact hd.woken hc (h.woken hnone hc)
  · intro sub heq
    rw [hsub] at heq
    obtain ⟨hc, hact, hrun, hle, hlt, hdrains⟩ := h.holding sub heq
    refine ⟨hclosed.trans hc, ?_, by rw [hrunner]; exact hrun, by rw [hhalted]; exact hle, by rw [hfresh]; exact hlt, ?_⟩
    · rcases hd.active with hsame | ⟨hmine, -⟩
      · exact hsame.trans hact
      · rw [hact, Option.some.injEq] at hmine
        exact absurd hmine (hother sub heq)
    · intro d hin
      obtain ⟨d', hd', hstream⟩ := hd.drains d hin
      rw [← hstream]
      exact hdrains d' hd'
  · intro sub heq hq
    rw [hsub] at heq
    obtain ⟨hempty, hdisplay, kept, text, hmessages, hkept⟩ := h.reserved sub heq hq
    obtain ⟨g, hmap, hg, hsame⟩ := hd.messages
    refine ⟨hpending.trans hempty, ?_, ?_⟩
    · rcases hd.display sub.stream with hd' | ⟨hmine, -⟩
      · exact hd'.trans hdisplay
      · exact absurd hmine (hother sub heq)
    · obtain ⟨kept', hkept', hne⟩ := reserved_write hsame (hother sub heq) ⟨kept, hmessages, hkept⟩ hg
      exact ⟨kept', text, hmap.trans hkept', hne⟩

theorem drained_settle (h : Inv s) {item : Item} {rest : List Item} (hitems : s.display t = item :: rest)
    (f : String → String) :
    Drained s
      { s.settle t f with
        display := fun u => if u = t then rest else s.display u
        drains := s.setDrain t false } t := by
  constructor
  · exact h.shown.settle t f
  · by_cases hact : s.active = some t
    · exact .inr ⟨hact, if_pos hact⟩
    · exact .inl (if_neg hact)
  · refine ⟨_, rfl, fun m => ?_, fun m hm => if_neg fun hboth => hm hboth.1⟩
    split <;> rfl
  · intro u
    by_cases hu : u = t
    · exact .inr ⟨hu, by simp [hitems]⟩
    · exact .inl (if_neg hu)
  · intro d hd
    obtain ⟨d', hd', hstream, -⟩ := mem_setDrain hd
    exact ⟨d', hd', hstream⟩
  · intro _ hall d hd
    obtain ⟨d', hd', hstream, rfl | ⟨hmine, hstopped⟩⟩ := mem_setDrain hd
    · by_cases ht : d.stream = t
      · have hlooping : d.looping = false := by
          obtain ⟨d'', -, heq⟩ := List.mem_map.mp hd
          split at heq
          · rw [← heq]
          · rename_i hne
            exact absurd (heq ▸ ht) hne
        simp [Service.woken, hlooping]
      · have hwoken := hall d hd'
        simp only [Service.woken, if_neg ht] at hwoken ⊢
        exact hwoken
    · simp [Service.woken, hstopped]
  · exact fun d _ hin => hin
  · exact ⟨rfl, rfl, rfl, rfl, rfl, rfl, rfl⟩

theorem drained_next (h : Inv s) {text : String} {rest : List Item} (hitems : s.display t = .next text :: rest) :
    Drained s
      { s with
        display := fun u => if u = t then rest else s.display u
        messages := s.write t fun _ => text } t := by
  constructor
  · exact h.shown.write t fun _ => text
  · exact .inl rfl
  · refine ⟨_, rfl, fun m => ?_, fun m hm => if_neg fun hboth => hm hboth.1⟩
    split <;> rfl
  · intro u
    by_cases hu : u = t
    · exact .inr ⟨hu, by simp [hitems]⟩
    · exact .inl (if_neg hu)
  · exact fun d hd => ⟨d, hd, rfl⟩
  · intro _ hall d hd
    have hwoken := hall d hd
    by_cases ht : d.stream = t
    · rw [Service.woken, ht, hitems] at hwoken
      simpa [Service.woken, ht, Item.terminal] using hwoken
    · simp only [Service.woken, if_neg ht] at hwoken ⊢
      exact hwoken
  · exact fun d _ hin => hin
  · exact ⟨rfl, rfl, rfl, rfl, rfl, rfl, rfl⟩

theorem drained_closed (h : Inv s) (hclosed : s.closed = true) : Drained s { s with drains := s.setDrain t false } t := by
  refine ⟨h.shown, .inl rfl, ⟨id, by simp, fun _ => rfl, fun _ _ => rfl⟩, fun u => .inl rfl, ?_, ?_, fun d _ hin => hin,
    ⟨rfl, rfl, rfl, rfl, rfl, rfl, rfl⟩⟩
  · intro d hd
    obtain ⟨d', hd', hstream, -⟩ := mem_setDrain hd
    exact ⟨d', hd', hstream⟩
  · intro hopen
    rw [hclosed] at hopen
    cases hopen

theorem Inv.poll (h : Inv s) (hd : (⟨t, true⟩ : Drain) ∈ s.drains) : Inv (s.poll t) := by
  have hmem : ∃ d ∈ s.drains, d.stream = t := ⟨_, hd, rfl⟩
  unfold Service.poll
  split
  · exact h.drained (drained_closed h ‹_›) hmem (.inl ‹_›)
  · split
    · exact h
    · rename_i item rest hitems
      have hsome : s.display t ≠ [] := by simp [hitems]
      cases item with
      | next text => exact h.drained (drained_next h hitems) hmem (.inr (.inl rfl))
      | done text => exact h.drained (drained_settle h hitems fun _ => text) hmem (.inr (.inr hsome))
      | runnerStopped =>
          exact h.drained (drained_settle h hitems fun content => if content == "" then RUNNER_STOPPED_TEXT else content)
            hmem (.inr (.inr hsome))

theorem Inv.leave (h : Inv s) (hd : (⟨t, false⟩ : Drain) ∈ s.drains) : Inv (s.leave t) := by
  have hmem : ∃ d ∈ s.drains, d.stream = t := ⟨_, hd, rfl⟩
  have hdrains : ∀ d ∈ s.drains.filter (fun d => decide (d.stream ≠ t)), d ∈ s.drains ∧ d.stream ≠ t := by
    intro d hin
    simpa using List.mem_filter.mp hin
  have hqueues : ∀ d ∈ s.drains.filter (fun d => decide (d.stream ≠ t)), d.stream ∈ s.streamQueues →
      d.stream ∈ s.streamQueues.filter fun u => decide (u ≠ t) := by
    intro d hin hreg
    exact List.mem_filter.mpr ⟨hreg, decide_eq_true (hdrains d hin).2⟩
  unfold Service.leave
  cases hclosed : s.closed with
  | true =>
      refine h.drained (t := t) ?_ hmem (.inl hclosed)
      refine ⟨h.shown.settle t id, ?_, ⟨_, rfl, fun m => ?_, fun m hm => if_neg fun hboth => hm hboth.1⟩, fun u => .inl rfl,
        fun d hin => ⟨d, (hdrains d hin).1, rfl⟩, ?_, hqueues, ⟨rfl, rfl, rfl, rfl, rfl, rfl, rfl⟩⟩
      · by_cases hact : s.active = some t
        · exact .inr ⟨hact, if_pos hact⟩
        · exact .inl (if_neg hact)
      · split <;> rfl
      · intro hopen
        rw [hclosed] at hopen
        cases hopen
  | false =>
      refine h.drained (t := t) ?_ hmem (.inr (.inl rfl))
      exact ⟨h.shown, .inl rfl, ⟨id, by simp, fun _ => rfl, fun _ _ => rfl⟩, fun u => .inl rfl,
        fun d hin => ⟨d, (hdrains d hin).1, rfl⟩, fun _ hall d hin => hall d (hdrains d hin).1, hqueues,
        ⟨rfl, rfl, rfl, rfl, rfl, rfl, rfl⟩⟩

end Drains

section Run

variable {s s' : Service}

theorem next_inv {a : Act} (h : Inv s) (hsound : Sound s a = true) (hnext : next s a = some s') : Inv s' := by
  cases a with
  | submit text mode index runnerOk =>
      obtain ⟨-, heq⟩ := Option.ite_none_right_eq_some.mp hnext
      cases heq
      exact h.submit text mode index runnerOk
  | putTask ok =>
      obtain ⟨sub, hsub, hnext⟩ := Option.bind_eq_some_iff.mp hnext
      obtain ⟨hq, heq⟩ := Option.ite_none_left_eq_some.mp hnext
      cases heq
      cases ok with
      | true => exact h.queued hsub (by simpa using hq)
      | false => exact h.unqueued hsub (by simpa using hq)
  | launch ok =>
      obtain ⟨sub, hsub, hnext⟩ := Option.bind_eq_some_iff.mp hnext
      obtain ⟨-, heq⟩ := Option.ite_none_right_eq_some.mp hnext
      cases heq
      obtain rfl : ok = true := hsound
      exact h.launch hsub
  | abort =>
      obtain ⟨hfree, heq⟩ := Option.ite_none_right_eq_some.mp hnext
      cases heq
      exact h.abort (Option.isNone_iff_eq_none.mp hfree) hsound
  | reset =>
      cases hnext
      exact h.reset
  | shutdown =>
      obtain ⟨hfree, heq⟩ := Option.ite_none_right_eq_some.mp hnext
      cases heq
      exact h.shutdown (Option.isNone_iff_eq_none.mp hfree)
  | discardPending =>
      obtain ⟨hclosed, heq⟩ := Option.ite_none_right_eq_some.mp hnext
      cases heq
      exact h.discardPending hclosed
  | finishActive =>
      obtain ⟨hclosed, heq⟩ := Option.ite_none_right_eq_some.mp hnext
      cases heq
      exact h.finish (h.free hclosed) fun hopen => absurd (hopen.symm.trans hclosed) Bool.false_ne_true
  | take =>
      simp only [next] at hnext
      split at hnext
      · rename_i task rest hr hq
        cases hnext
        exact h.take hr hq
      · cases hnext
  | mark =>
      simp only [next] at hnext
      split at hnext
      · rename_i task hr
        cases hnext
        exact h.mark hr
      · cases hnext
  | emit item =>
      simp only [next] at hnext
      split at hnext
      · rename_i task hr
        obtain ⟨-, heq⟩ := Option.ite_none_left_eq_some.mp hnext
        cases heq
        exact h.emit hr item
      · cases hnext
  | unmark =>
      simp only [next] at hnext
      split at hnext
      · cases hnext
        exact h.drop (.inl rfl)
      · cases hnext
  | stop isRunning =>
      simp only [next] at hnext
      split at hnext
      · cases hnext
      · cases hnext
      · cases hnext
        exact h.drop (.inr rfl)
  | runnerExit =>
      simp only [next] at hnext
      split at hnext
      · rename_i hr
        obtain ⟨hfree, heq⟩ := Option.ite_none_right_eq_some.mp hnext
        cases heq
        exact h.runnerExit hr (Option.isNone_iff_eq_none.mp hfree) hsound
      · cases hnext
  | poll stream =>
      obtain ⟨hd, heq⟩ := Option.ite_none_right_eq_some.mp hnext
      cases heq
      exact h.poll hd
  | leave stream =>
      obtain ⟨hd, heq⟩ := Option.ite_none_right_eq_some.mp hnext
      cases heq
      exact h.leave hd.1

theorem run_inv {as : List Act} (h : (machine.restrict fun s a => Sound s a = true).run machine.start as = some s) :
    Inv s := by
  refine Machine.run_invariant (P := Inv) ?_ as inv_start h
  intro u a u' hu hnext
  obtain ⟨hsound, hnext⟩ := Machine.restrict_next hnext
  exact next_inv hu hsound hnext

theorem drain_others {a : Act} {t i : Nat} {m : HiveMessage} (ha : a = .poll t ∨ a = .leave t)
    (hnext : next s a = some s') (hm : s.messages[i]? = some m) (hother : ¬(m.stream = t ∧ m.role = .assistant)) :
    s'.messages[i]? = some m := by
  rcases ha with rfl | rfl
  · obtain ⟨-, heq⟩ := Option.ite_none_right_eq_some.mp hnext
    cases heq
    unfold Service.poll
    split
    · exact hm
    · split
      · exact hm
      · rename_i item rest hitems
        cases item with
        | next text => exact getElem?_write (fun _ => text) hm hother
        | done text => exact getElem?_settle (fun _ => text) hm hother
        | runnerStopped =>
            exact getElem?_settle (fun content => if content == "" then RUNNER_STOPPED_TEXT else content) hm hother
  · obtain ⟨-, heq⟩ := Option.ite_none_right_eq_some.mp hnext
    cases heq
    unfold Service.leave
    cases s.closed with
    | true => exact getElem?_settle id hm hother
    | false => exact hm

theorem submit_busy (h : Inv s) {text mode : String} {index : Option Int} {runnerOk : Bool} (hbusy : s.pending ≠ []) :
    (s.submit text mode index runnerOk).submitting = s.submitting ∧
      (s.submit text mode index runnerOk).messages = s.messages ∧
      (s.submit text mode index runnerOk).active = s.active := by
  unfold Service.submit
  split
  · exact ⟨rfl, rfl, rfl⟩
  · rename_i hclosed
    split
    · exact ⟨rfl, rfl, rfl⟩
    · split
      · exact ⟨rfl, rfl, rfl⟩
      · rename_i hidle
        simp only [Bool.not_eq_true, Bool.or_eq_false_iff, Option.isSome_eq_false_iff, Option.isNone_iff_eq_none] at hclosed hidle
        exact absurd (not_pending h hclosed hidle.1 hidle.2) hbusy

theorem submit_cases (s : Service) (text mode : String) (index : Option Int) (runnerOk : Bool) :
    ((s.submit text mode index runnerOk).messages = s.messages ∧ (s.submit text mode index runnerOk).active = s.active) ∨
    (s.active = none ∧ ∃ sub, (s.submit text mode index runnerOk).submitting = some sub ∧
      (s.submit text mode index runnerOk).messages = s.messages ++ reservation sub.stream text) := by
  unfold Service.submit
  split
  · exact .inl ⟨rfl, rfl⟩
  · split
    · exact .inl ⟨rfl, rfl⟩
    · split
      · exact .inl ⟨rfl, rfl⟩
      · rename_i hidle
        simp only [Bool.not_eq_true, Bool.or_eq_false_iff, Option.isSome_eq_false_iff, Option.isNone_iff_eq_none] at hidle
        exact .inr ⟨hidle.1, _, rfl, rfl⟩

structure Orderly (s : Service) : Prop where
  shown : streamed s.messages = s.active.toList.map fun t => (t, .assistant)
  others : ∀ a t s', (a = .poll t ∨ a = .leave t) → next s a = some s' →
    ∀ (i : Nat) m, s.messages[i]? = some m → ¬(m.stream = t ∧ m.role = .assistant) → s'.messages[i]? = some m
  halted : ∀ task, s.waits task → s.halted ≤ task.stream
  refused : s.pending ≠ [] → ∀ text mode index runnerOk s', next s (.submit text mode index runnerOk) = some s' →
    s'.submitting = none ∧ s'.messages = s.messages ∧ s'.active = s.active
  reserved : ∀ text mode index runnerOk s', next s (.submit text mode index runnerOk) = some s' →
    (s'.messages = s.messages ∧ s'.active = s.active) ∨
    (s.active = none ∧ ∃ sub, s'.submitting = some sub ∧ s'.messages = s.messages ++ reservation sub.stream text)
  unreserved : ∀ sub s', s.submitting = some sub → next s (.putTask false) = some s' →
    s'.active = none ∧ ∃ text, s.messages = s'.messages ++ reservation sub.stream text
  woken : s.runner = none → s.closed = false → ∀ d ∈ s.drains, s.woken d = true

end Run

theorem one_task_at_a_time {as : List Act} {s : Service}
    (h : (machine.restrict fun s a => Sound s a = true).run machine.start as = some s) : Orderly s := by
  have hinv := run_inv h
  refine ⟨hinv.shown, ?_, hinv.halted, ?_, ?_, ?_, hinv.woken⟩
  · exact fun a t s' ha hnext i m hm hother => drain_others ha hnext hm hother
  · intro hbusy text mode index runnerOk s' hnext
    obtain ⟨hfree, heq⟩ := Option.ite_none_right_eq_some.mp hnext
    cases heq
    obtain ⟨hsub, hrest⟩ := submit_busy hinv hbusy
    exact ⟨hsub.trans (Option.isNone_iff_eq_none.mp hfree), hrest⟩
  · intro text mode index runnerOk s' hnext
    obtain ⟨-, heq⟩ := Option.ite_none_right_eq_some.mp hnext
    cases heq
    exact submit_cases s text mode index runnerOk
  · intro sub s' hsub hnext
    obtain ⟨sub', hsub', hnext⟩ := Option.bind_eq_some_iff.mp hnext
    obtain rfl : sub = sub' := Option.some.inj (hsub.symm.trans hsub')
    obtain ⟨hq, heq⟩ := Option.ite_none_left_eq_some.mp hnext
    cases heq
    obtain ⟨text, hmessages, -, hactive⟩ := putTask_failed hinv hsub (by simpa using hq)
    exact ⟨hactive, text, hmessages⟩

theorem one_task_at_a_time_done :
    ∃ s, Orderly s ∧ s.active = none ∧ s.messages.map HiveMessage.content = ["hi", "done"] := by
  have hrun : ((machine.restrict fun s a => Sound s a = true).run machine.start
      [.submit "hi" "goal" none true, .putTask true, .launch true, .take, .mark, .emit (.done "done"), .unmark, .poll 0,
        .leave 0]).map (fun s => (s.active, s.messages.map HiveMessage.content)) = some (none, ["hi", "done"]) := by
    decide
  obtain ⟨s, hs, hlast⟩ := Option.map_eq_some_iff.mp hrun
  obtain ⟨hactive, hcontent⟩ := Prod.mk.inj hlast
  exact ⟨s, one_task_at_a_time hs, hactive, hcontent⟩

-- A stop that comes before the runner has taken the task: the task executes all the same, and a second
-- one is let in beside it.
theorem stopped_task_executes :
    (machine.run machine.start
      [.submit "hi" "goal" none true, .putTask true, .launch true, .abort, .take, .mark]).map
        (fun s => (s.halted, s.active, s.pending.map Task.stream, s.isRunning)) = some (1, none, [0], true) ∧
    (machine.run machine.start
      [.submit "hi" "goal" none true, .putTask true, .launch true, .abort, .submit "ho" "goal" none true, .putTask true]).map
        (fun s => (s.active, s.pending.map Task.stream)) = some (some 1, [0, 1]) ∧
    (machine.run machine.start
      [.submit "hi" "goal" none true, .putTask true, .launch true, .take, .mark, .abort, .stop false, .runnerExit]).map
        (fun s => (s.runner.isNone, s.closed, s.drains.map s.woken)) = some (true, false, [false]) := by
  decide

end GaHub.GoalHive
