import GaHub.Desktop.Steps

namespace GaHub.Desktop

variable {platform : Platform}

def Thread.holds (p : Pid) (t : Thread) : Bool := decide (t.held = some p)

-- Whether a place holds a process, and whether the process has been let go.
def lies (place : Option Pid) (p : Pid) : Nat := if place = some p then 1 else 0

theorem lies_none (p : Pid) : lies none p = 0 := rfl

theorem lies_some (p q : Pid) : lies (some p) q = if p = q then 1 else 0 := by
  simp only [lies, Option.some.injEq]

def gone (processes : List OwnedProcess) (p : Pid) : Nat :=
  match processes[p]? with
  | none => 0
  | some process => if process.dropped then 1 else 0

theorem gone_some {processes : List OwnedProcess} {p : Pid} {process : OwnedProcess} (hp : processes[p]? = some process) :
    gone processes p = if process.dropped then 1 else 0 := by
  unfold gone
  rw [hp]

theorem gone_modify {processes : List OwnedProcess} {p q : Pid} {f : OwnedProcess → OwnedProcess}
    (hf : ∀ process, processes[p]? = some process → (f process).dropped = process.dropped) :
    gone (processes.modify p f) q = gone processes q := by
  unfold gone
  by_cases hpq : p = q
  · subst hpq
    rw [List.getElem?_modify_eq]
    cases hp : processes[p]? with
    | none => rfl
    | some process =>
        change (if (f process).dropped then 1 else 0) = if process.dropped then 1 else 0
        rw [hf process hp]
  · rw [List.getElem?_modify_ne _ _ hpq]

theorem gone_drop {processes : List OwnedProcess} {p q : Pid} {process : OwnedProcess} (hp : processes[p]? = some process)
    (hfree : gone processes p = 0) :
    gone (processes.modify p (OwnedProcess.drop platform)) q = gone processes q + if p = q then 1 else 0 := by
  by_cases hpq : p = q
  · subst hpq
    have hdrop : (processes.modify p (OwnedProcess.drop platform))[p]? = some (process.drop platform) := by
      rw [List.getElem?_modify_eq, hp]
      rfl
    rw [gone_some hdrop, hfree, if_pos rfl]
    rfl
  · unfold gone
    rw [List.getElem?_modify_ne _ _ hpq, if_neg hpq, Nat.add_zero]

theorem gone_spawn (processes : List OwnedProcess) (generation : Nat) (q : Pid) :
    gone (processes ++ [.spawn platform generation]) q = gone processes q := by
  unfold gone
  rcases Nat.lt_trichotomy q processes.length with hlt | rfl | hgt
  · rw [List.getElem?_append_left hlt]
  · rw [List.getElem?_concat_length, List.getElem?_eq_none (Nat.le_refl _)]
    cases platform <;> rfl
  · rw [List.getElem?_eq_none (by simp; omega), List.getElem?_eq_none (Nat.le_of_lt hgt)]

-- How often a process lies where no thread has it in hand.
def placed (sh : Shell) (p : Pid) : Nat := lies sh.lifecycle.process p + gone sh.processes p

theorem stopStep_dropped {process process' : OwnedProcess} {input : Input} (h : process.stopStep platform input = some process') :
    process'.dropped = process.dropped := by
  unfold OwnedProcess.stopStep at h
  split at h
  · dsimp only at h
    split at h
    · cases h
      rfl
    · split at h
      · cases h
        rfl
      · cases h
        rfl
  · split at h <;> cases h <;> rfl
  · split at h <;> cases h
    rfl
  · split at h <;> cases h
    rfl
  · cases h
    rfl
  · cases h
    rfl
  · split at h <;> cases h
    rfl
  · split at h <;> cases h
    rfl
  · cases h
    rfl
  · cases h

theorem requestShutdown_dropped {process process' : OwnedProcess} (h : process.requestShutdown platform = some process') :
    process'.dropped = process.dropped := by
  unfold OwnedProcess.requestShutdown at h
  split at h <;> split at h <;> cases h <;> rfl

theorem sweepSlot_gone (sh : Shell) (q : Pid) : gone (sh.sweepSlot platform).processes q = gone sh.processes q := by
  unfold Shell.sweepSlot
  split
  · rfl
  · exact gone_modify fun _ _ => rfl

theorem sweepSlot_lifecycle (sh : Shell) : (sh.sweepSlot platform).lifecycle = sh.lifecycle := by
  unfold Shell.sweepSlot
  split <;> rfl

theorem sweepSlot_length (sh : Shell) : (sh.sweepSlot platform).processes.length = sh.processes.length := by
  unfold Shell.sweepSlot
  split
  · rfl
  · exact List.length_modify _ _ _

theorem Moves.held {sh : Shell} {generation : Nat} {pc pc' : SupervisorPc} (h : Moves sh generation pc pc') :
    (Thread.supervisor generation pc').held = (Thread.supervisor generation pc).held := by
  cases h with
  | leave hpc => exact hpc.symm
  | _ => rfl

theorem Acts.held {generation observed : Nat} {pc pc' : SupervisorPc} (h : Acts pc observed pc') :
    (Thread.supervisor generation pc).held = none ∧ (Thread.supervisor generation pc').held = none := by
  cases h <;> exact ⟨rfl, rfl⟩

theorem Notices.held {generation observed : Nat} {pc pc' : SupervisorPc} (h : Notices observed pc pc') :
    (Thread.supervisor generation pc).held = none ∧ (Thread.supervisor generation pc').held = none := by
  cases h <;> exact ⟨rfl, rfl⟩

theorem Thread.stops_held {t t' : Thread} {p : Pid} (h : t.stops = some (p, t')) : t.held = some p ∧ t'.held = none := by
  unfold Thread.stops at h
  split at h <;> cases h <;> exact ⟨rfl, rfl⟩

def known (processes : List OwnedProcess) (p : Pid) : Nat := if p < processes.length then 1 else 0

theorem finishShutdown_process (l : SidecarLifecycle) : l.finishShutdown.process = l.process := by
  unfold SidecarLifecycle.finishShutdown
  split <;> rfl

theorem known_update (sh : Shell) (p q : Pid) (f : OwnedProcess → OwnedProcess) :
    known (sh.update p f).processes q = known sh.processes q := by
  simp only [known, Shell.update, List.length_modify]

theorem known_sweepSlot (sh : Shell) (q : Pid) : known (sh.sweepSlot platform).processes q = known sh.processes q := by
  simp only [known, sweepSlot_length]

theorem placed_note (sh : Shell) (event : Event) (p : Pid) : placed (sh.note event) p = placed sh p := rfl

theorem Effect.balance {sh sh' : Shell} {t t' : Thread} {input : Input} {added : Option Thread}
    (h : Effect platform sh t input sh' t' added) (hfree : ∀ p, t.held = some p → gone sh.processes p = 0)
    (hreset : ∀ error, t = .restart (.resetting error) → sh.lifecycle.process = none) (q : Pid) :
    placed sh' q + lies t'.held q + known sh.processes q = placed sh q + lies t.held q + known sh'.processes q := by
  have hupdate : ∀ {p : Pid} {process process' : OwnedProcess}, sh.processes[p]? = some process →
      process'.dropped = process.dropped → placed (sh.update p fun _ => process') q = placed sh q := by
    intro p process process' hp hdropped
    refine congrArg (lies sh.lifecycle.process q + ·) (gone_modify fun other hother => ?_)
    rw [hp] at hother
    cases hother
    exact hdropped
  have hdrop : ∀ {p : Pid} {process : OwnedProcess}, sh.processes[p]? = some process → t.held = some p →
      placed (sh.update p (OwnedProcess.drop platform)) q = placed sh q + lies (some p) q := by
    intro p process hp hheld
    have hgone : gone (sh.processes.modify p (OwnedProcess.drop platform)) q = gone sh.processes q + if p = q then 1 else 0 :=
      gone_drop hp (hfree p hheld)
    simp only [placed, Shell.update, hgone, lies_some, Nat.add_assoc]
  cases h with
  | moved hmoves => rw [hmoves.held]
  | spawned =>
      have hgone : ∀ generation q, gone (sh.processes ++ [.spawn platform generation]) q = gone sh.processes q :=
        gone_spawn sh.processes
      simp only [placed, known, hgone, Thread.held, lies_none, lies_some, List.length_append, List.length_singleton]
      grind -ring -linarith
  | committed _ hslot =>
      simp only [placed, Shell.note, Thread.held, hslot, lies_none]
      omega
  | noticed _ _ hnotices =>
      rw [hnotices.held.1, hnotices.held.2]
      simp only [placed, sweepSlot_lifecycle, sweepSlot_gone, known_sweepSlot]
  | acted hacts hmarks _ =>
      rw [hacts.held.1, hacts.held.2]
      simp only [placed, Shell.note, hmarks.process]
  | asked _ hp hrequest =>
      rw [placed_note, hupdate hp (requestShutdown_dropped hrequest)]
      simp only [Shell.note, known_update]
      rfl
  | marked hmarks ht =>
      simp only [placed, hmarks.process]
      rcases ht with ⟨_, _, rfl, rfl⟩ | ⟨_, rfl, rfl⟩ <;> rfl
  | unmarked => rfl
  | stopped _ hp hstep => rw [known_update, hupdate hp (stopStep_dropped hstep)]
  | dropped hstops hp _ =>
      obtain ⟨hheld, hheld'⟩ := Thread.stops_held hstops
      rw [known_update, hdrop hp hheld, hheld, hheld', lies_none, Nat.add_zero]
  | claimed _ _ =>
      simp only [placed, Thread.held, lies_none]
      omega
  | declined => rfl
  | began => rfl
  | empty => rfl
  | abandoned hp =>
      rw [known_update, hdrop hp rfl]
      rfl
  | finished =>
      simp only [placed, finishShutdown_process]
      rfl
  | reset hpc =>
      have hnone := hreset _ rfl
      have hkept : placed (sh.reset platform) q = placed sh q ∧
          known (sh.reset platform).processes q = known sh.processes q := by
        simp only [Shell.reset, hnone, placed, and_self]
      rw [hkept.1, hkept.2]
      rcases hpc with rfl | ⟨_, rfl⟩ <;> rfl
  | respawned => rfl
  | notRespawned => rfl
  | closing _ _ hpc =>
      subst hpc
      cases hslot : sh.lifecycle.process with
      | none => simp only [placed, hslot, Thread.held, lies_none]
      | some p =>
          simp only [placed, hslot, Thread.held, lies_none]
          omega
  | closed _ => rfl
  | settled =>
      simp only [placed, finishShutdown_process]
      rfl
  | allowed => rfl

-- The phase in which a thread holds the shutdown of the lifecycle.
def Thread.owned : Thread → Option SidecarPhase
  | .restart (.claimed _) | .restart (.stopping _) | .restart (.finishing _) => some .stopping
  | .restart (.resetting _) => some .stopped
  | .closer (.stopping _) | .closer .finishing => some .stopping
  | _ => none

def Thread.owns (t : Thread) : Bool := t.owned.isSome

def SidecarPhase.quiet (phase : SidecarPhase) : Prop := phase ≠ .stopping ∧ phase ≠ .stopped

theorem Thread.owned_busy {t : Thread} {phase : SidecarPhase} (h : t.owned = some phase) : ¬phase.quiet := by
  unfold Thread.owned at h
  split at h <;> cases h <;> simp [SidecarPhase.quiet]

theorem Thread.stops_owned {t t' : Thread} {p : Pid} (h : t.stops = some (p, t')) : t'.owned = t.owned := by
  unfold Thread.stops at h
  split at h <;> cases h <;> rfl

-- How a step of a thread changes who has the shutdown, and the phase.
structure Owning (l l' : SidecarLifecycle) (t t' : Thread) : Prop where
  owned : ∀ phase, t'.owned = some phase → l'.phase = phase
  gains : t'.owned.isSome → t.owned.isSome ∨ l.phase.quiet
  moves : l'.phase = l.phase ∨ t.owned.isSome ∨ l.phase.quiet

theorem Owning.idle {l : SidecarLifecycle} {t t' : Thread} (ht : ∀ phase, t.owned = some phase → l.phase = phase)
    (h : t'.owned = t.owned) : Owning l l t t' where
  owned phase hphase := ht phase (h ▸ hphase)
  gains hsome := .inl (h ▸ hsome)
  moves := .inl rfl

theorem Owning.quiet {l l' : SidecarLifecycle} {t t' : Thread} (hquiet : l.phase.quiet)
    (ht : ∀ phase, t'.owned = some phase → l'.phase = phase) : Owning l l' t t' where
  owned := ht
  gains _ := .inr hquiet
  moves := .inr (.inr hquiet)

theorem Owning.release {l l' : SidecarLifecycle} {t t' : Thread} (ht : t.owned.isSome) (ht' : t'.owned = none) :
    Owning l l' t t' where
  owned phase hphase := by
    rw [ht'] at hphase
    cases hphase
  gains _ := .inl ht
  moves := .inr (.inl ht)

theorem Effect.owning {sh sh' : Shell} {t t' : Thread} {input : Input} {added : Option Thread}
    (h : Effect platform sh t input sh' t' added) (ht : ∀ phase, t.owned = some phase → sh.lifecycle.phase = phase) :
    Owning sh.lifecycle sh'.lifecycle t t' := by
  cases h with
  | moved _ => exact .idle ht rfl
  | spawned => exact .idle ht rfl
  | committed hphase _ => exact .quiet (by simp [hphase, SidecarPhase.quiet]) fun _ hsome => by cases hsome
  | noticed _ _ _ =>
      rw [sweepSlot_lifecycle]
      exact .idle ht rfl
  | acted _ hmarks _ => exact .quiet ⟨hmarks.stopping, hmarks.stopped⟩ fun _ hsome => by cases hsome
  | asked _ _ _ => exact .idle ht rfl
  | marked hmarks hfails =>
      refine .quiet ⟨hmarks.stopping, hmarks.stopped⟩ fun phase hsome => ?_
      rcases hfails with ⟨_, _, _, rfl⟩ | ⟨_, _, rfl⟩ <;> cases hsome
  | unmarked => exact .idle ht rfl
  | stopped _ _ _ => exact .idle ht rfl
  | dropped hstops _ _ => exact .idle ht (Thread.stops_owned hstops)
  | claimed hstopping hstopped =>
      refine .quiet ⟨hstopping, hstopped⟩ fun phase hsome => ?_
      cases hsome
      rfl
  | declined => exact .idle ht rfl
  | began => exact .idle ht rfl
  | empty => exact .idle ht rfl
  | abandoned _ => exact .idle ht rfl
  | finished =>
      have hphase := ht .stopping rfl
      refine ⟨fun phase hsome => ?_, fun _ => .inl rfl, .inr (.inl rfl)⟩
      cases hsome
      simp only [SidecarLifecycle.finishShutdown, hphase, if_true]
  | reset hpc => exact .release rfl (by rcases hpc with rfl | ⟨_, rfl⟩ <;> rfl)
  | respawned => exact .idle ht rfl
  | notRespawned => exact .idle ht rfl
  | closing hstopping hstopped hpc =>
      refine .quiet ⟨hstopping, hstopped⟩ fun phase hsome => ?_
      subst hpc
      cases hslot : sh.lifecycle.process with
      | none =>
          rw [hslot] at hsome
          cases hsome
          rfl
      | some p =>
          rw [hslot] at hsome
          cases hsome
          rfl
  | closed _ => exact .idle ht rfl
  | settled => exact .release rfl rfl
  | allowed => exact .idle ht rfl

theorem reset_lifecycle (sh : Shell) : (sh.reset platform).lifecycle = {} := by
  unfold Shell.reset
  dsimp only
  split <;> rfl

def Stored (l : SidecarLifecycle) : Prop := ∀ p, l.process = some p → l.phase ≠ .spawning ∧ l.phase.quiet

theorem Stored.empty {l : SidecarLifecycle} (h : l.process = none) : Stored l := by
  intro p hp
  rw [h] at hp
  cases hp

theorem Marks.stored {l l' : SidecarLifecycle} (h : Marks l l') : Stored l' := by
  intro p _
  rcases h.after with ⟨hphase, _⟩ | ⟨error, hphase⟩ <;> simp [hphase, SidecarPhase.quiet]

theorem Stored.finish {l : SidecarLifecycle} (h : Stored l) : Stored l.finishShutdown := by
  intro p hp
  rw [finishShutdown_process] at hp
  have hphase := (h p hp).2.1
  rw [SidecarLifecycle.finishShutdown, if_neg hphase]
  exact h p hp

theorem Effect.stored {sh sh' : Shell} {t t' : Thread} {input : Input} {added : Option Thread}
    (h : Effect platform sh t input sh' t' added) (hstored : Stored sh.lifecycle) : Stored sh'.lifecycle := by
  cases h with
  | committed _ _ => exact fun p _ => ⟨by simp [Shell.note], by simp [Shell.note, SidecarPhase.quiet]⟩
  | noticed _ _ _ =>
      rw [sweepSlot_lifecycle]
      exact hstored
  | acted _ hmarks _ => exact hmarks.stored
  | marked hmarks _ => exact hmarks.stored
  | claimed _ _ => exact .empty rfl
  | finished => exact hstored.finish
  | reset _ =>
      rw [reset_lifecycle]
      exact .empty rfl
  | closing _ _ _ => exact .empty rfl
  | settled => exact hstored.finish
  | _ => exact hstored

theorem Effect.added_idle {sh sh' : Shell} {t t' : Thread} {input : Input} {added : Option Thread}
    (h : Effect platform sh t input sh' t' added) : ∀ b, added = some b → b.held = none ∧ b.owned = none := by
  intro b hb
  cases h with
  | respawned =>
      cases hb
      exact ⟨rfl, rfl⟩
  | _ => cases hb

-- Where the processes are, and who has the shutdown.
structure Held (s : State) : Prop where
  balance : ∀ p, placed s.shell p + s.threads.countP (Thread.holds p) = known s.shell.processes p
  stored : Stored s.shell.lifecycle
  owners : s.threads.countP Thread.owns ≤ 1
  owned : ∀ t ∈ s.threads, ∀ phase, t.owned = some phase → s.shell.lifecycle.phase = phase

theorem held_start : Held {} where
  balance p := by simp [placed, lies, gone, known, Thread.holds, Thread.held]
  stored := .empty rfl
  owners := by decide
  owned t ht phase hphase := by
    rw [List.mem_singleton] at ht
    subst ht
    cases hphase

theorem known_le (processes : List OwnedProcess) (p : Pid) : known processes p ≤ 1 := by
  unfold known
  split <;> omega

theorem Held.free {s : State} (hs : Held s) {t : Thread} (ht : t ∈ s.threads) {p : Pid} (hheld : t.held = some p) :
    placed s.shell p = 0 := by
  have hpos : 0 < s.threads.countP (Thread.holds p) :=
    List.countP_pos_iff.mpr ⟨t, ht, by simp [Thread.holds, hheld]⟩
  have hbalance := hs.balance p
  have hknown := known_le s.shell.processes p
  omega

theorem Held.quiet {s : State} (hs : Held s) (hquiet : s.shell.lifecycle.phase.quiet) : s.threads.countP Thread.owns = 0 := by
  rw [List.countP_eq_zero]
  intro t ht howns
  obtain ⟨phase, hphase⟩ := Option.isSome_iff_exists.mp howns
  have hsame := hs.owned t ht phase hphase
  exact Thread.owned_busy hphase (hsame ▸ hquiet)

theorem Held.thread {s : State} {sh' : Shell} {i : Nat} {t t' : Thread} {input : Input} {added : Option Thread}
    (hs : Held s) (hi : s.threads[i]? = some t) (h : Effect platform s.shell t input sh' t' added) :
    Held { shell := sh', threads := Lib.replaceSlot s.threads i t' added } := by
  have hmem := List.mem_of_getElem? hi
  have howning := h.owning (hs.owned t hmem)
  have hadded := h.added_idle
  refine ⟨fun p => ?_, h.stored hs.stored, ?_, ?_⟩
  · have hfree : ∀ p, t.held = some p → gone s.shell.processes p = 0 := by
      intro p hheld
      have hplaced := hs.free hmem hheld
      unfold placed at hplaced
      omega
    have hreset : ∀ error, t = .restart (.resetting error) → s.shell.lifecycle.process = none := by
      intro error ht
      have hphase := hs.owned t hmem .stopped (by rw [ht]; rfl)
      cases hslot : s.shell.lifecycle.process with
      | none => rfl
      | some q => exact absurd hphase (hs.stored q hslot).2.2
    have hbalance := h.balance hfree hreset p
    have hcount := Lib.countP_replaceSlot t' added (Thread.holds p) hi fun b hb => by
      simp [Thread.holds, (hadded b hb).1]
    have hlies : ∀ b : Thread, (if b.holds p = true then 1 else 0) = lies b.held p := by
      intro b
      simp only [Thread.holds, lies, decide_eq_true_eq]
    rw [hlies, hlies] at hcount
    have hbefore := hs.balance p
    show placed sh' p + (Lib.replaceSlot s.threads i t' added).countP (Thread.holds p) = known sh'.processes p
    omega
  · have hcount := Lib.countP_replaceSlot t' added Thread.owns hi fun b hb => by simp [Thread.owns, (hadded b hb).2]
    have howners := hs.owners
    show (Lib.replaceSlot s.threads i t' added).countP Thread.owns ≤ 1
    by_cases howns : t'.owns
    · rcases howning.gains howns with hbefore | hquiet
      · simp only [howns, show t.owns = true from hbefore, if_true] at hcount
        omega
      · have hzero := hs.quiet hquiet
        simp only [howns, if_true] at hcount
        split at hcount <;> omega
    · simp only [howns] at hcount
      split at hcount <;> simp at hcount <;> omega
  · intro b hb phase hphase
    obtain ⟨j, hj⟩ := List.getElem?_of_mem hb
    rcases Lib.replaceSlot_cases hj with ⟨_, rfl⟩ | ⟨hne, hj'⟩ | ⟨_, hnew⟩
    · exact howning.owned phase hphase
    · have hbefore := hs.owned b (List.mem_of_getElem? hj') phase hphase
      have howns : b.owns = true := by simp [Thread.owns, hphase]
      rcases howning.moves with hsame | hother | hquiet
      · exact hsame.trans hbefore
      · exact absurd (Lib.countP_unique hs.owners hj' hi howns hother) hne
      · exact absurd (hbefore ▸ hquiet) (Thread.owned_busy hphase)
    · rw [(hadded b hnew).2] at hphase
      cases hphase

theorem Held.append {s : State} (hs : Held s) (sh : Shell) (hl : sh.lifecycle = s.shell.lifecycle)
    (hp : sh.processes = s.shell.processes) (t : Thread) (hheld : t.held = none) (howned : t.owned = none) :
    Held { shell := sh, threads := s.threads ++ [t] } where
  balance p := by
    have hcount : (s.threads ++ [t]).countP (Thread.holds p) = s.threads.countP (Thread.holds p) := by
      simp [List.countP_append, Thread.holds, hheld]
    simp only [placed, hl, hp, hcount]
    exact hs.balance p
  stored := hl ▸ hs.stored
  owners := by
    have hcount : (s.threads ++ [t]).countP Thread.owns = s.threads.countP Thread.owns := by
      simp [List.countP_append, Thread.owns, howned]
    exact hcount ▸ hs.owners
  owned b hb phase hphase := by
    rw [hl]
    rcases List.mem_append.mp hb with hb | hb
    · exact hs.owned b hb phase hphase
    · rw [List.mem_singleton] at hb
      subst hb
      rw [howned] at hphase
      cases hphase

theorem Held.next {s s' : State} {a : Action} (hs : Held s) (h : Change platform s a s') : Held s' := by
  cases h with
  | restart _ => exact hs.append s.shell rfl rfl (.restart .requested) rfl rfl
  | close _ => exact hs.append ({ s.shell with exit := .cleaning }.note .exitRequested) rfl rfl (.closer .beginning) rfl rfl
  | again _ => exact hs
  | exits p =>
      refine ⟨fun q => ?_, hs.stored, hs.owners, hs.owned⟩
      have hgone : gone (s.shell.processes.modify p fun process => { process with exited := true }) q =
          gone s.shell.processes q := gone_modify fun _ _ => rfl
      rw [known_update]
      simp only [placed, Shell.update, hgone]
      exact hs.balance q
  | thread i input t t' sh' added hi _ heffect => exact hs.thread hi heffect

theorem reachable_held {s : State} (hs : (machine platform).Reachable s) : Held s :=
  hs.invariant held_start fun _ _ _ hh ha => hh.next (next_change ha)

end GaHub.Desktop
