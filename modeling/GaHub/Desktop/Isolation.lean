import GaHub.Lib.Lists
import GaHub.Desktop.Holders

namespace GaHub.Desktop

variable {platform : Platform}

def letsGo (sh : Shell) (t : Thread) : Input → Option Pid
  | .step => t.stops.bind fun r => if (sh.processes[r.1]?.map OwnedProcess.stage) = some .stopped then some r.1 else none
  | .fails _ =>
      match t with
      | .restart (.claimed process) => process
      | _ => none
  | _ => none

theorem letsGo_stops {sh : Shell} {t t' : Thread} {p : Pid} {process : OwnedProcess} (hstops : t.stops = some (p, t'))
    (hp : sh.processes[p]? = some process) (hstage : process.stage = .stopped) : letsGo sh t .step = some p := by
  have hstopped : (sh.processes[p]?.map OwnedProcess.stage) = some .stopped := by rw [hp, Option.map_some, hstage]
  rw [letsGo, hstops, Option.bind_some, if_pos hstopped]

inductive Evolves (platform : Platform) (sh : Shell) (t : Thread) (input : Input) (p : Pid) (y : OwnedProcess) :
    OwnedProcess → Prop
  | same : Evolves platform sh t input p y y
  | request {z : OwnedProcess} (h : y.requestShutdown platform = some z) : Evolves platform sh t input p y z
  | sweep (hexited : y.exited = true) : Evolves platform sh t input p y (y.finishExitedTree platform)
  | stop {t' : Thread} {z : OwnedProcess} (hstops : t.stops = some (p, t')) (h : y.stopStep platform input = some z) :
      Evolves platform sh t input p y z
  | drop (hheld : t.held = some p) (hgo : letsGo sh t input = some p) : Evolves platform sh t input p y (y.drop platform)

theorem update_evolves {sh : Shell} {t : Thread} {input : Input} {p q : Pid} {f : OwnedProcess → OwnedProcess} {z : OwnedProcess}
    (hz : (sh.update p f).processes[q]? = some z)
    (hf : ∀ y, sh.processes[p]? = some y → Evolves platform sh t input p y (f y)) :
    ∃ y, sh.processes[q]? = some y ∧ Evolves platform sh t input q y z := by
  by_cases hpq : p = q
  · subst hpq
    simp only [Shell.update, List.getElem?_modify_eq] at hz
    obtain ⟨y, hy, rfl⟩ := Option.map_eq_some_iff.mp hz
    exact ⟨y, hy, hf y hy⟩
  · simp only [Shell.update, List.getElem?_modify_ne _ _ hpq] at hz
    exact ⟨z, hz, .same⟩

theorem Effect.process {sh sh' : Shell} {t t' : Thread} {input : Input} {added : Option Thread} {q : Pid} {z : OwnedProcess}
    (h : Effect platform sh t input sh' t' added)
    (hreset : ∀ error, t = .restart (.resetting error) → sh.lifecycle.process = none) (hz : sh'.processes[q]? = some z) :
    (∃ y, sh.processes[q]? = some y ∧ Evolves platform sh t input q y z) ∨
      (q = sh.processes.length ∧ ∃ generation, t = .supervisor generation .spawning ∧ z = .spawn platform generation) := by
  have hset : ∀ {p : Pid} {process process' : OwnedProcess}, sh.processes[p]? = some process →
      Evolves platform sh t input p process process' → (sh.update p fun _ => process').processes[q]? = some z →
      ∃ y, sh.processes[q]? = some y ∧ Evolves platform sh t input q y z := by
    intro p process process' hp hevolves hz
    refine update_evolves hz fun y hy => ?_
    rw [hp] at hy
    cases hy
    exact hevolves
  cases h with
  | spawned =>
      rcases Lib.getElem?_concat_cases hz with hold | ⟨hq, rfl⟩
      · exact .inl ⟨z, hold, .same⟩
      · exact .inr ⟨hq, _, rfl, rfl⟩
  | noticed hslot hexited _ =>
      obtain ⟨p, hp, hprocess⟩ := slot_some hslot
      simp only [Shell.sweepSlot, hp] at hz
      refine .inl (update_evolves hz fun y hy => ?_)
      rw [hprocess] at hy
      cases hy
      exact .sweep hexited
  | asked _ hp hrequest => exact .inl (hset hp (.request hrequest) hz)
  | stopped hstops hp hstep => exact .inl (hset hp (.stop hstops hstep) hz)
  | dropped hstops hp hstage =>
      exact .inl (update_evolves hz fun y _ => .drop (Thread.stops_held hstops).1 (letsGo_stops hstops hp hstage))
  | abandoned hp => exact .inl (update_evolves hz fun y _ => .drop rfl rfl)
  | reset _ =>
      have hnone := hreset _ rfl
      simp only [Shell.reset, hnone] at hz
      exact .inl ⟨z, hz, .same⟩
  | _ => exact .inl ⟨z, hz, .same⟩

theorem stopStep_frame {y z : OwnedProcess} {input : Input} (h : y.stopStep platform input = some z) :
    z.generation = y.generation ∧ z.exited = y.exited := by
  unfold OwnedProcess.stopStep at h
  split at h
  · dsimp only at h
    split at h
    · cases h
      exact ⟨rfl, rfl⟩
    · split at h <;> cases h <;> exact ⟨rfl, rfl⟩
  · split at h <;> cases h <;> exact ⟨rfl, rfl⟩
  · split at h <;> cases h
    exact ⟨rfl, rfl⟩
  · split at h <;> cases h
    exact ⟨rfl, rfl⟩
  · cases h
    exact ⟨rfl, rfl⟩
  · cases h
    exact ⟨rfl, rfl⟩
  · split at h <;> cases h
    exact ⟨rfl, rfl⟩
  · split at h <;> cases h
    exact ⟨rfl, rfl⟩
  · cases h
    exact ⟨rfl, rfl⟩
  · cases h

theorem requestShutdown_frame {y z : OwnedProcess} (h : y.requestShutdown platform = some z) :
    z.generation = y.generation ∧ z.exited = y.exited := by
  unfold OwnedProcess.requestShutdown at h
  split at h <;> split at h <;> cases h <;> exact ⟨rfl, rfl⟩

theorem Evolves.frame {sh : Shell} {t : Thread} {input : Input} {p : Pid} {y z : OwnedProcess}
    (h : Evolves platform sh t input p y z) : z.generation = y.generation ∧ z.exited = y.exited := by
  cases h with
  | same => exact ⟨rfl, rfl⟩
  | request h => exact requestShutdown_frame h
  | sweep _ => exact ⟨rfl, rfl⟩
  | stop _ h => exact stopStep_frame h
  | drop _ _ => exact ⟨rfl, rfl⟩

theorem Evolves.dropped {sh : Shell} {t : Thread} {input : Input} {p : Pid} {y z : OwnedProcess}
    (h : Evolves platform sh t input p y z) (hz : z.dropped = true) : y.dropped = true ∨ letsGo sh t input = some p := by
  cases h with
  | same => exact .inl hz
  | request h => exact .inl (requestShutdown_dropped h ▸ hz)
  | sweep _ => exact .inl hz
  | stop _ h => exact .inl (stopStep_dropped h ▸ hz)
  | drop _ hgo => exact .inr hgo

theorem spawn_frame (generation : Nat) :
    (OwnedProcess.spawn platform generation).generation = generation ∧ (OwnedProcess.spawn platform generation).dropped = false := by
  cases platform <;> exact ⟨rfl, rfl⟩

-- A thread lets go only of what has exited.
def releases (sh : Shell) (t : Thread) (input : Input) : Bool :=
  (letsGo sh t input).all fun p => sh.processes[p]?.all OwnedProcess.exited

theorem Effect.released {sh sh' : Shell} {t t' : Thread} {input : Input} {added : Option Thread}
    (h : Effect platform sh t input sh' t' added)
    (hreset : ∀ error, t = .restart (.resetting error) → sh.lifecycle.process = none) (hok : releases sh t input = true)
    (hbefore : ∀ process ∈ sh.processes, process.dropped = true → process.exited = true) :
    ∀ process ∈ sh'.processes, process.dropped = true → process.exited = true := by
  intro z hz hdropped
  obtain ⟨p, hp⟩ := List.getElem?_of_mem hz
  rcases h.process hreset hp with ⟨y, hy, hevolves⟩ | ⟨_, generation, _, rfl⟩
  · refine hevolves.frame.2.trans ?_
    rcases hevolves.dropped hdropped with hold | hgoes
    · exact hbefore y (List.mem_of_getElem? hy) hold
    · rw [releases, hgoes, Option.all_some, hy, Option.all_some] at hok
      exact hok
  · rw [(spawn_frame generation).2] at hdropped
    cases hdropped

-- A supervisor that has nothing to do with what it has seen before, and will not start a process.
def Thread.drained : Thread → Bool
  | .supervisor _ pc => decide (pc = .watching) || decide (pc = .ended)
  | .restart (.respawning _) => false
  | _ => true

def Thread.resets : Thread → Bool
  | .restart (.resetting _) => true
  | _ => false

-- A process has exited when it is let go of, and the lifecycle is reset when the supervisors before have ended or
-- rest in their watch.
def drained (s : State) : Action → Bool
  | .thread i input => s.threads[i]?.all fun t =>
      releases s.shell t input && (!t.resets || s.threads.all Thread.drained)
  | _ => true

def Thread.Fresh (n : Nat) : Thread → Prop
  | .supervisor generation pc =>
      match pc with
      | .watching | .ended => True
      | .sawReady observed | .sawFailure observed _ | .requesting observed | .sawExit observed => observed = n
      | _ => generation = n
  | .restart (.respawning generation) => generation = n
  | _ => True

theorem Thread.drained_fresh {t : Thread} (h : t.drained = true) (n : Nat) : t.Fresh n := by
  cases t with
  | supervisor generation pc =>
      simp only [Thread.drained, Bool.or_eq_true, decide_eq_true_eq] at h
      rcases h with rfl | rfl <;> exact trivial
  | restart pc =>
      cases pc with
      | respawning generation => cases h
      | _ => exact trivial
  | closer pc => exact trivial

theorem Thread.drained_held {t : Thread} (h : t.drained = true) : t.held = none ∨ t.owns = true := by
  cases t with
  | supervisor generation pc =>
      simp only [Thread.drained, Bool.or_eq_true, decide_eq_true_eq] at h
      rcases h with rfl | rfl <;> exact .inl rfl
  | restart pc =>
      cases pc with
      | claimed _ => exact .inr rfl
      | stopping _ => exact .inr rfl
      | _ => exact .inl rfl
  | closer pc =>
      cases pc with
      | stopping _ => exact .inr rfl
      | _ => exact .inl rfl

-- The processes of the lifecycle as it is now: the one in the slot, and the ones that run.
structure Isolated (s : State) : Prop where
  fresh : ∀ t ∈ s.threads, t.Fresh s.shell.restarts
  own : ∀ (generation : Nat) (pc : SupervisorPc) (p : Pid) (process : OwnedProcess), .supervisor generation pc ∈ s.threads →
    (Thread.supervisor generation pc).held = some p → s.shell.processes[p]? = some process → process.generation = generation
  slot : ∀ process, s.shell.slot = some process → process.generation = s.shell.restarts
  alive : ∀ process ∈ s.shell.processes, process.exited = false → process.generation = s.shell.restarts
  dropped : ∀ process ∈ s.shell.processes, process.dropped = true → process.exited = true
  log : ∀ observed generation, .applied observed generation ∈ s.shell.log → generation ≤ observed

theorem isolated_start : Isolated {} where
  fresh t ht := by
    rw [List.mem_singleton] at ht
    subst ht
    rfl
  own generation pc p process ht := by
    rw [List.mem_singleton] at ht
    cases ht
  slot process hslot := by cases hslot
  alive := by simp
  dropped := by simp
  log := by simp

theorem sweepSlot_restarts (sh : Shell) : (sh.sweepSlot platform).restarts = sh.restarts := by
  unfold Shell.sweepSlot
  split <;> rfl

theorem sweepSlot_log (sh : Shell) : (sh.sweepSlot platform).log = sh.log := by
  unfold Shell.sweepSlot
  split <;> rfl

theorem reset_restarts (sh : Shell) : (sh.reset platform).restarts = sh.restarts + 1 := by
  unfold Shell.reset
  dsimp only
  split <;> rfl

theorem reset_log (sh : Shell) : (sh.reset platform).log = sh.log := by
  unfold Shell.reset
  dsimp only
  split <;> rfl

theorem Effect.fresh {sh sh' : Shell} {t t' : Thread} {input : Input} {added : Option Thread}
    (h : Effect platform sh t input sh' t' added) (ht : t.Fresh sh.restarts)
    (hslot : ∀ process, sh.slot = some process → process.generation = sh.restarts)
    (halive : ∀ process ∈ sh.processes, process.exited = false → process.generation = sh.restarts) :
    t'.Fresh sh'.restarts ∧ ∀ b, added = some b → b.Fresh sh'.restarts := by
  cases h with
  | moved hmoves =>
      refine ⟨?_, fun b hb => by cases hb⟩
      cases hmoves with
      | leave _ => exact trivial
      | watch => exact trivial
      | unread hfound => exact hslot _ hfound
      | answer hq hrunning => exact halive _ (List.mem_of_getElem? hq) hrunning
      | start _ | fail | grant _ | refuse _ | lose _ | vanish | probe | silence => exact ht
  | noticed hfound _ hnotices =>
      refine ⟨?_, fun b hb => by cases hb⟩
      rw [sweepSlot_restarts]
      have hgeneration := hslot _ hfound
      cases hnotices <;> exact hgeneration
  | acted hacts _ _ =>
      refine ⟨?_, fun b hb => by cases hb⟩
      cases hacts with
      | failure => exact ht
      | ready | exit => exact trivial
  | marked _ hfails =>
      refine ⟨?_, fun b hb => by cases hb⟩
      rcases hfails with ⟨_, _, _, rfl⟩ | ⟨_, _, rfl⟩ <;> exact trivial
  | dropped hstops _ _ =>
      refine ⟨?_, fun b hb => by cases hb⟩
      unfold Thread.stops at hstops
      split at hstops <;> cases hstops <;> exact trivial
  | reset hpc =>
      refine ⟨?_, fun b hb => by cases hb⟩
      rw [reset_restarts]
      rcases hpc with rfl | ⟨_, rfl⟩
      · rfl
      · exact trivial
  | respawned =>
      refine ⟨trivial, fun b hb => ?_⟩
      cases hb
      exact ht
  | spawned | committed _ _ | stopped _ _ _ => exact ⟨ht, fun b hb => by cases hb⟩
  | asked _ _ _ | unmarked | claimed _ _ | declined | began | empty | abandoned _ | finished | notRespawned
  | closing _ _ _ | closed _ | settled | allowed => exact ⟨trivial, fun b hb => by cases hb⟩

theorem Effect.restarts {sh sh' : Shell} {t t' : Thread} {input : Input} {added : Option Thread}
    (h : Effect platform sh t input sh' t' added) : sh'.restarts = sh.restarts ∨ t.resets = true := by
  cases h with
  | noticed _ _ _ => exact .inl (sweepSlot_restarts sh)
  | reset _ => exact .inr rfl
  | _ => exact .inl rfl

theorem Effect.slot {sh sh' : Shell} {t t' : Thread} {input : Input} {added : Option Thread} {p : Pid}
    (h : Effect platform sh t input sh' t' added) (hp : sh'.lifecycle.process = some p) :
    sh.lifecycle.process = some p ∨ ∃ generation, t = .supervisor generation (.granted p) := by
  cases h with
  | committed _ _ =>
      cases hp
      exact .inr ⟨_, rfl⟩
  | noticed _ _ _ =>
      rw [sweepSlot_lifecycle] at hp
      exact .inl hp
  | acted _ hmarks _ => exact .inl (hmarks.process ▸ hp)
  | marked hmarks _ => exact .inl (hmarks.process ▸ hp)
  | finished => exact .inl (finishShutdown_process sh.lifecycle ▸ hp)
  | settled => exact .inl (finishShutdown_process sh.lifecycle ▸ hp)
  | reset _ =>
      rw [reset_lifecycle] at hp
      cases hp
  | claimed _ _ | closing _ _ _ => cases hp
  | _ => exact .inl hp

theorem Effect.log {sh sh' : Shell} {t t' : Thread} {input : Input} {added : Option Thread} {observed generation : Nat}
    (h : Effect platform sh t input sh' t' added) (hlog : .applied observed generation ∈ sh'.log) :
    .applied observed generation ∈ sh.log ∨ (generation = sh.current ∧ ∀ n, t.Fresh n → observed = n) := by
  have hadded : ∀ {event : Event}, .applied observed generation ∈ sh.log ++ [event] →
      .applied observed generation ∈ sh.log ∨ .applied observed generation = event := by
    intro event hmem
    rw [List.mem_append, List.mem_singleton] at hmem
    exact hmem
  cases h with
  | committed _ _ => exact .inl ((hadded hlog).resolve_right (by simp))
  | noticed _ _ _ =>
      rw [sweepSlot_log] at hlog
      exact .inl hlog
  | acted hacts _ _ =>
      refine (hadded hlog).imp_right fun hsame => ?_
      cases hsame
      refine ⟨rfl, fun n hfresh => ?_⟩
      cases hacts <;> exact hfresh
  | asked _ _ _ =>
      refine (hadded hlog).imp_right fun hsame => ?_
      cases hsame
      exact ⟨rfl, fun n hfresh => hfresh⟩
  | reset _ =>
      rw [reset_log] at hlog
      exact .inl hlog
  | _ => exact .inl hlog

theorem Isolated.current {s : State} (hs : Isolated s) : s.shell.current = s.shell.restarts := by
  unfold Shell.current
  cases hslot : s.shell.slot with
  | none => rfl
  | some process => exact hs.slot process hslot

theorem Held.known {s : State} (hs : Held s) {p : Pid}
    (hp : s.shell.lifecycle.process = some p ∨ ∃ t ∈ s.threads, t.held = some p) : p < s.shell.processes.length := by
  have hbalance := hs.balance p
  have hpos : 0 < placed s.shell p + s.threads.countP (Thread.holds p) := by
    rcases hp with hslot | ⟨t, ht, hheld⟩
    · have hlies : placed s.shell p = 1 + gone s.shell.processes p := by rw [placed, hslot, lies_some, if_pos rfl]
      omega
    · exact Nat.lt_of_lt_of_le (List.countP_pos_iff.mpr ⟨t, ht, by simp [Thread.holds, hheld]⟩) (Nat.le_add_left _ _)
  rw [hbalance, Desktop.known] at hpos
  split at hpos
  · assumption
  · cases hpos

theorem Held.unslotted {s : State} (hs : Held s) {t : Thread} (ht : t ∈ s.threads) (error : Option String)
    (hresetting : t = .restart (.resetting error)) : s.shell.lifecycle.process = none := by
  have hphase := hs.owned t ht .stopped (by rw [hresetting]; rfl)
  cases hslot : s.shell.lifecycle.process with
  | none => rfl
  | some q => exact absurd hphase (hs.stored q hslot).2.2

theorem Held.settled {s : State} (hs : Held s) {i : Nat} {t : Thread} (hi : s.threads[i]? = some t) (hresets : t.resets = true)
    (hdrained : ∀ b ∈ s.threads, b.drained = true) : ∀ process ∈ s.shell.processes, process.dropped = true := by
  have hresetting : ∃ error, t = .restart (.resetting error) := by
    unfold Thread.resets at hresets
    split at hresets
    · exact ⟨_, rfl⟩
    · cases hresets
  obtain ⟨error, ht⟩ := hresetting
  have hslot := hs.unslotted (List.mem_of_getElem? hi) error ht
  intro process hmem
  obtain ⟨p, hp⟩ := List.getElem?_of_mem hmem
  have hnone : s.threads.countP (Thread.holds p) = 0 := by
    rw [List.countP_eq_zero]
    intro b hb hholds
    have hheld : b.held = some p := of_decide_eq_true hholds
    rcases Thread.drained_held (hdrained b hb) with hfree | howns
    · rw [hfree] at hheld
      cases hheld
    · -- only the thread that resets has the shutdown, and it has no process
      obtain ⟨j, hj⟩ := List.getElem?_of_mem hb
      have hij := Lib.countP_unique hs.owners hj hi howns (by rw [ht]; rfl)
      subst hij
      rw [hi] at hj
      cases hj
      rw [ht] at hheld
      cases hheld
  have hbalance := hs.balance p
  rw [hnone, placed, hslot, lies_none, gone_some hp, Desktop.known, if_pos (List.getElem?_eq_some_iff.mp hp).1] at hbalance
  by_contra hnot
  rw [if_neg hnot] at hbalance
  cases hbalance

theorem Effect.keeps {sh sh' : Shell} {t : Thread} {generation : Nat} {pc' : SupervisorPc} {input : Input}
    {added : Option Thread} {p : Pid} (h : Effect platform sh t input sh' (.supervisor generation pc') added)
    (hheld : (Thread.supervisor generation pc').held = some p) :
    ∃ pc, t = .supervisor generation pc ∧
      ((Thread.supervisor generation pc).held = some p ∨ (pc = .spawning ∧ p = sh.processes.length)) := by
  cases h with
  | moved hmoves => exact ⟨_, rfl, .inl (hmoves.held ▸ hheld)⟩
  | spawned =>
      cases hheld
      exact ⟨_, rfl, .inr ⟨rfl, rfl⟩⟩
  | committed _ _ => cases hheld
  | noticed _ _ hnotices =>
      rw [hnotices.held.2] at hheld
      cases hheld
  | acted hacts _ _ =>
      rw [hacts.held.2] at hheld
      cases hheld
  | asked _ _ _ => cases hheld
  | marked _ hfails =>
      rcases hfails with ⟨_, _, _, hsame⟩ | ⟨_, _, hsame⟩ <;> cases hsame
      cases hheld
  | stopped hstops _ _ => exact ⟨_, rfl, .inl hheld⟩
  | dropped hstops _ _ =>
      rw [(Thread.stops_held hstops).2] at hheld
      cases hheld

theorem Isolated.thread {s : State} {sh' : Shell} {i : Nat} {t t' : Thread} {input : Input} {added : Option Thread}
    (hs : Isolated s) (hheld : Held s) (hi : s.threads[i]? = some t) (h : Effect platform s.shell t input sh' t' added)
    (hok : drained s (.thread i input) = true) : Isolated { shell := sh', threads := Lib.replaceSlot s.threads i t' added } := by
  have hmem := List.mem_of_getElem? hi
  have hreset := hheld.unslotted hmem
  simp only [drained, hi, Option.all_some, Bool.and_eq_true, Bool.or_eq_true, Bool.not_eq_true'] at hok
  obtain ⟨hgo, hdrained⟩ := hok
  have hfresh := h.fresh (hs.fresh t hmem) hs.slot hs.alive
  have hrestarts : sh'.restarts = s.shell.restarts ∨ (t.resets = true ∧ (∀ b ∈ s.threads, b.drained = true) ∧
      (∀ process ∈ s.shell.processes, process.exited = true) ∧ s.shell.lifecycle.process = none) := by
    rcases h.restarts with hsame | hresets
    · exact .inl hsame
    · have hall : ∀ b ∈ s.threads, b.drained = true := by
        rw [hresets] at hdrained
        exact List.all_eq_true.mp (hdrained.resolve_left (by simp))
      refine .inr ⟨hresets, hall, fun process hp => hs.dropped process hp (hheld.settled hi hresets hall process hp), ?_⟩
      unfold Thread.resets at hresets
      split at hresets
      · exact hreset _ rfl
      · cases hresets
  have hsupervisor : ∀ {generation : Nat} {pc : SupervisorPc}, t = .supervisor generation pc →
      sh'.restarts = s.shell.restarts := by
    intro generation pc ht
    rcases hrestarts with hsame | ⟨hresets, _⟩
    · exact hsame
    · rw [ht] at hresets
      cases hresets
  -- where the processes come from
  have hprocess : ∀ {p : Pid} {z : OwnedProcess}, sh'.processes[p]? = some z →
      (∃ y, s.shell.processes[p]? = some y ∧ Evolves platform s.shell t input p y z) ∨
        (p = s.shell.processes.length ∧ ∃ generation, t = .supervisor generation .spawning ∧ z = .spawn platform generation) :=
    fun hz => h.process hreset hz
  have hold : ∀ {p : Pid} {z : OwnedProcess}, sh'.processes[p]? = some z → p < s.shell.processes.length →
      ∃ y, s.shell.processes[p]? = some y ∧ z.generation = y.generation := by
    intro p z hz hlt
    rcases hprocess hz with ⟨y, hy, hevolves⟩ | ⟨hp, _⟩
    · exact ⟨y, hy, hevolves.frame.1⟩
    · exact absurd hp (Nat.ne_of_lt hlt)
  refine ⟨fun b hb => ?_, fun generation pc p z hb hholds hz => ?_, fun z hz => ?_, fun z hz hrunning => ?_,
    fun z hz hz' => ?_, fun observed generation hlog => ?_⟩
  · rcases Lib.mem_replaceSlot hb with rfl | hb | hb
    · exact hfresh.1
    · rcases hrestarts with hsame | ⟨_, hall, _⟩
      · exact hsame ▸ hs.fresh b hb
      · exact Thread.drained_fresh (hall b hb) _
    · exact hfresh.2 b hb
  · rcases Lib.mem_replaceSlot hb with rfl | hb | hb
    · obtain ⟨pc₀, rfl, hbefore⟩ := h.keeps hholds
      rcases hbefore with hbefore | ⟨rfl, rfl⟩
      · obtain ⟨y, hy, hsame⟩ := hold hz (hheld.known (.inr ⟨_, hmem, hbefore⟩))
        exact hsame.trans (hs.own generation pc₀ p y hmem hbefore hy)
      · rcases hprocess hz with ⟨y, hy, _⟩ | ⟨_, generation', ht, rfl⟩
        · exact absurd (List.getElem?_eq_some_iff.mp hy).1 (Nat.lt_irrefl _)
        · cases ht
          exact (spawn_frame _).1
    · obtain ⟨y, hy, hsame⟩ := hold hz (hheld.known (.inr ⟨_, hb, hholds⟩))
      exact hsame.trans (hs.own generation pc p y hb hholds hy)
    · rw [(h.added_idle _ hb).1] at hholds
      cases hholds
  · obtain ⟨p, hp, hz⟩ := slot_some hz
    rcases h.slot hp with hslot | ⟨generation, rfl⟩
    · obtain ⟨y, hy, hsame⟩ := hold hz (hheld.known (.inl hslot))
      rcases hrestarts with hkept | ⟨_, _, _, hnone⟩
      · refine hsame.trans ((hs.slot y ?_).trans hkept.symm)
        rw [Shell.slot, hslot]
        exact hy
      · rw [hnone] at hslot
        cases hslot
    · obtain ⟨y, hy, hsame⟩ := hold hz (hheld.known (.inr ⟨_, hmem, rfl⟩))
      have hgeneration := hs.own generation _ p y hmem rfl hy
      have hcurrent : generation = s.shell.restarts := hs.fresh _ hmem
      exact hsame.trans (hgeneration.trans (hcurrent.trans (hsupervisor rfl).symm))
  · obtain ⟨p, hp⟩ := List.getElem?_of_mem hz
    rcases hprocess hp with ⟨y, hy, hevolves⟩ | ⟨_, generation, rfl, rfl⟩
    · obtain ⟨hgeneration, hexited⟩ := hevolves.frame
      have hbefore := hexited.symm.trans hrunning
      rcases hrestarts with hkept | ⟨_, _, hall, _⟩
      · exact hgeneration.trans ((hs.alive y (List.mem_of_getElem? hy) hbefore).trans hkept.symm)
      · rw [hall y (List.mem_of_getElem? hy)] at hbefore
        cases hbefore
    · have hcurrent : generation = s.shell.restarts := hs.fresh _ hmem
      exact (spawn_frame generation).1.trans (hcurrent.trans (hsupervisor rfl).symm)
  · exact h.released hreset hgo hs.dropped z hz hz'
  · rcases h.log hlog with hbefore | ⟨rfl, hsame⟩
    · exact hs.log observed generation hbefore
    · exact Nat.le_of_eq (hs.current.trans (hsame _ (hs.fresh t hmem)).symm)

theorem Isolated.append {s : State} (hs : Isolated s) (sh : Shell) (hl : sh.lifecycle = s.shell.lifecycle)
    (hp : sh.processes = s.shell.processes) (hr : sh.restarts = s.shell.restarts)
    (hlog : ∀ observed generation, .applied observed generation ∈ sh.log → .applied observed generation ∈ s.shell.log)
    (t : Thread) (ht : ∀ n, t.Fresh n) (hsupervisor : ∀ generation pc, t ≠ .supervisor generation pc) :
    Isolated { shell := sh, threads := s.threads ++ [t] } where
  fresh b hb := by
    rcases List.mem_append.mp hb with hb | hb
    · exact hr ▸ hs.fresh b hb
    · rw [List.mem_singleton] at hb
      subst hb
      exact ht _
  own generation pc p process hb hheld hprocess := by
    rcases List.mem_append.mp hb with hb | hb
    · exact hs.own generation pc p process hb hheld (hp ▸ hprocess)
    · rw [List.mem_singleton] at hb
      exact absurd hb.symm (hsupervisor generation pc)
  slot process hslot := by
    rw [Shell.slot, hl, hp] at hslot
    exact (hs.slot process hslot).trans hr.symm
  alive process hmem hrunning := (hs.alive process (hp ▸ hmem) hrunning).trans hr.symm
  dropped process hmem := hs.dropped process (hp ▸ hmem)
  log observed generation hmem := hs.log observed generation (hlog observed generation hmem)

theorem Isolated.next {s s' : State} {a : Action} (hs : Isolated s) (hheld : Held s) (hok : drained s a = true)
    (h : Change platform s a s') : Isolated s' := by
  cases h with
  | restart _ => exact hs.append s.shell rfl rfl rfl (fun _ _ h => h) (.restart .requested) (fun _ => trivial) (by simp)
  | close _ =>
      refine hs.append ({ s.shell with exit := .cleaning }.note .exitRequested) rfl rfl rfl (fun observed generation hmem => ?_)
        (.closer .beginning) (fun _ => trivial) (by simp)
      exact (List.mem_append.mp hmem).resolve_right (by simp)
  | again _ => exact hs
  | exits p =>
      have hold : ∀ {q : Pid} {z : OwnedProcess},
          (s.shell.processes.modify p fun process => { process with exited := true })[q]? = some z →
          ∃ y, s.shell.processes[q]? = some y ∧ (z = y ∨ z = { y with exited := true }) := by
        intro q z hz
        rcases Lib.getElem?_modify_cases hz with ⟨rfl, y, hy, rfl⟩ | ⟨_, hz⟩
        · exact ⟨y, hy, .inr rfl⟩
        · exact ⟨z, hz, .inl rfl⟩
      refine ⟨hs.fresh, fun generation pc q z hmem hholds hz => ?_, fun z hz => ?_, fun z hz hrunning => ?_,
        fun z hz hdropped => ?_, hs.log⟩
      · obtain ⟨y, hy, hsame⟩ := hold hz
        have hown := hs.own generation pc q y hmem hholds hy
        rcases hsame with rfl | rfl <;> exact hown
      · obtain ⟨q, hq, hz⟩ := slot_some hz
        obtain ⟨y, hy, hsame⟩ := hold hz
        have hslot := hs.slot y (by rw [Shell.slot, show s.shell.lifecycle.process = some q from hq]; exact hy)
        rcases hsame with rfl | rfl <;> exact hslot
      · obtain ⟨q, hq⟩ := List.getElem?_of_mem hz
        obtain ⟨y, hy, rfl | rfl⟩ := hold hq
        · exact hs.alive z (List.mem_of_getElem? hy) hrunning
        · cases hrunning
      · obtain ⟨q, hq⟩ := List.getElem?_of_mem hz
        obtain ⟨y, hy, rfl | rfl⟩ := hold hq
        · exact hs.dropped z (List.mem_of_getElem? hy) hdropped
        · rfl
  | thread i input t t' sh' added hi _ heffect => exact hs.thread hheld hi heffect hok

theorem reachable_isolated {s : State} (hs : ((machine platform).restrict fun s a => drained s a).Reachable s) :
    Isolated s :=
  hs.invariant_with (Q := Held) (fun hs => reachable_held hs.of_restrict) isolated_start fun _ _ _ hi hh ha =>
    hi.next hh (Lib.Machine.restrict_next ha).1 (next_change (Lib.Machine.restrict_next ha).2)

def OwnedProcess.Settled (process : OwnedProcess) : Prop :=
  process.forced = true ∨ process.cleanupComplete = true ∨ process.groupSwept = true

theorem Evolves.settled {sh : Shell} {t : Thread} {input : Input} {p : Pid} {y z : OwnedProcess}
    (h : Evolves platform sh t input p y z) (hfree : t.held = some p → y.dropped = false)
    (hy : y.dropped = true → y.Settled) (hz : z.dropped = true) : z.Settled := by
  cases h with
  | same => exact hy hz
  | request h =>
      unfold OwnedProcess.requestShutdown at h
      split at h <;> split at h <;> cases h <;> exact hy hz
  | sweep hexited => exact .inr (.inl hexited)
  | stop hstops h =>
      rw [stopStep_dropped h, hfree (Thread.stops_held hstops).1] at hz
      cases hz
  | drop _ _ =>
      unfold OwnedProcess.Settled OwnedProcess.drop
      cases hcleanup : y.cleanupComplete with
      | true => exact .inr (.inl rfl)
      | false =>
          cases hswept : y.groupSwept with
          | true => exact .inr (.inr rfl)
          | false => exact .inl (by simp)

theorem Held.undropped {s : State} (hs : Held s) {t : Thread} (ht : t ∈ s.threads) {p : Pid} {process : OwnedProcess}
    (hholds : t.held = some p) (hp : s.shell.processes[p]? = some process) : process.dropped = false := by
  have hfree := hs.free ht hholds
  rw [placed, gone_some hp] at hfree
  cases hflag : process.dropped with
  | false => rfl
  | true =>
      rw [hflag] at hfree
      simp at hfree

theorem reachable_settled {s : State} (hs : (machine platform).Reachable s) :
    ∀ process ∈ s.shell.processes, process.dropped = true → process.Settled := by
  refine hs.invariant_with (P := fun s => ∀ process ∈ s.shell.processes, process.dropped = true → process.Settled)
    (Q := Held) reachable_held (by simp [machine]) fun s a t hsettled hheld ha z hz hdropped => ?_
  cases next_change ha with
  | restart _ => exact hsettled z hz hdropped
  | close _ => exact hsettled z hz hdropped
  | again _ => exact hsettled z hz hdropped
  | exits p =>
      rcases Lib.mem_modify_cases hz with ⟨y, hy, rfl⟩ | hold
      · exact hsettled y (List.mem_of_getElem? hy) hdropped
      · exact hsettled z hold hdropped
  | thread i input t t' sh' added hi _ heffect =>
      have hmem := List.mem_of_getElem? hi
      obtain ⟨p, hp⟩ := List.getElem?_of_mem hz
      rcases heffect.process (hheld.unslotted hmem) hp with ⟨y, hy, hevolves⟩ | ⟨_, generation, _, rfl⟩
      · exact hevolves.settled (fun hholds => hheld.undropped hmem hholds hy) (hsettled y (List.mem_of_getElem? hy)) hdropped
      · rw [(spawn_frame generation).2] at hdropped
        cases hdropped

-- In how many places a process is: the slot of the lifecycle, and the hands of the threads.
def holders (s : State) (p : Pid) : Nat := lies s.shell.lifecycle.process p + s.threads.countP (Thread.holds p)

-- A process has one holder until it is stopped and let go of. What a thread does for what it has seen of a process is
-- done to that process, when a lifecycle is reset only with the supervisors before at rest.
theorem sidecars_isolated :
    (∀ s : State, (machine platform).Reachable s → ∀ p process, s.shell.processes[p]? = some process →
      (process.dropped = false → holders s p = 1) ∧ (process.dropped = true → holders s p = 0 ∧ process.Settled)) ∧
    ∀ s : State, ((machine platform).restrict fun s a => drained s a).Reachable s →
      ∀ observed generation, .applied observed generation ∈ s.shell.log → generation ≤ observed := by
  refine ⟨fun s hs p process hp => ?_, fun s hs => (reachable_isolated hs).log⟩
  have hbalance := (reachable_held hs).balance p
  rw [placed, gone_some hp, Desktop.known, if_pos (List.getElem?_eq_some_iff.mp hp).1] at hbalance
  refine ⟨fun hkept => ?_, fun hdropped => ⟨?_, reachable_settled hs process (List.mem_of_getElem? hp) hdropped⟩⟩
  · rw [hkept] at hbalance
    simp only [holders] at *
    simpa using hbalance
  · rw [hdropped, if_pos rfl] at hbalance
    unfold holders
    omega

def steps (i : Nat) (inputs : List Input) : List Action := inputs.map (.thread i)

def starts (i : Nat) (p : Pid) : List Action :=
  steps i [.step, .created, .step, .step, .step, .answer p, .step]

-- The sidecar is found dead, and restarted: the supervisor has come to rest before.
def restarted : List Action :=
  [Action.thread 0 .created] ++ starts 1 0 ++ [Action.exits 0] ++ steps 1 [.step, .step] ++ [Action.restart] ++
    steps 2 [.step, .created, .step, .step, .step, .step, .created] ++ starts 3 1

theorem sidecars_isolated_restarted : ∃ s : State,
    ((machine .unix).restrict fun s a => drained s a).run {} restarted = some s ∧
    s.shell.lifecycle = { phase := .ready, process := some 1 } ∧ holders s 1 = 1 ∧ .applied 1 1 ∈ s.shell.log ∧
    ∀ observed generation, .applied observed generation ∈ s.shell.log → generation ≤ observed := by
  have hrun : (((machine .unix).restrict fun s a => drained s a).run {} restarted).map
      (fun s => (s.shell.lifecycle, s.shell.processes[1]?.map OwnedProcess.dropped, decide (.applied 1 1 ∈ s.shell.log))) =
      some ({ phase := .ready, process := some 1 }, some false, true) := by decide
  obtain ⟨s, hrun, hfacts⟩ := Option.map_eq_some_iff.mp hrun
  obtain ⟨hlifecycle, hrest⟩ := Prod.mk.inj hfacts
  obtain ⟨hprocess, hlog⟩ := Prod.mk.inj hrest
  obtain ⟨process, hp, hkept⟩ := Option.map_eq_some_iff.mp hprocess
  have hs : ((machine .unix).restrict fun s a => drained s a).Reachable s := ⟨restarted, hrun⟩
  exact ⟨s, hrun, hlifecycle, (sidecars_isolated.1 s hs.of_restrict 1 process hp).1 hkept, of_decide_eq_true hlog,
    sidecars_isolated.2 s hs⟩

-- The supervisor has seen the first sidecar dead, and says so of the second one.
def overtaken : List Action :=
  [Action.thread 0 .created] ++ starts 1 0 ++ [Action.exits 0, .thread 1 .step, .restart] ++
    steps 2 [.step, .created, .step, .step, .step, .step, .created] ++ starts 3 1 ++ [Action.thread 1 .step]

theorem sidecar_blamed : ¬ ∀ s : State, (machine .unix).Reachable s →
    (∀ p process, s.shell.processes[p]? = some process →
      (process.dropped = false → holders s p = 1) ∧ (process.dropped = true → holders s p = 0 ∧ process.Settled)) ∧
    ∀ observed generation, .applied observed generation ∈ s.shell.log → generation ≤ observed := by
  intro h
  have hrun : ((machine .unix).run {} overtaken).map (fun s => decide (.applied 0 1 ∈ s.shell.log)) = some true := by
    decide
  obtain ⟨s, hrun, hlog⟩ := Option.map_eq_some_iff.mp hrun
  have hle := (h s ⟨overtaken, hrun⟩).2 0 1 (of_decide_eq_true hlog)
  cases hle

end GaHub.Desktop
