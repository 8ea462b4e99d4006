import GaHub.Desktop

namespace GaHub.Desktop

variable {platform : Platform}

structure Marks (l l' : SidecarLifecycle) : Prop where
  process : l'.process = l.process
  stopping : l.phase ≠ .stopping
  stopped : l.phase ≠ .stopped
  after : l'.phase = .ready ∧ l.process.isSome ∨ ∃ error, l'.phase = .failed error

theorem markReady_marks {l l' : SidecarLifecycle} (h : l.markReady = some l') : Marks l l' := by
  unfold SidecarLifecycle.markReady at h
  split at h
  · rename_i hready
    cases h
    exact ⟨rfl, by simp [hready.1], by simp [hready.1], .inl ⟨rfl, hready.2⟩⟩
  · cases h

theorem markFailed_marks {l l' : SidecarLifecycle} {error : String} (h : l.markFailed error = some l') : Marks l l' := by
  unfold SidecarLifecycle.markFailed at h
  split at h
  · rename_i hphase
    cases h
    exact ⟨rfl, by simp [hphase], by simp [hphase], .inr ⟨error, rfl⟩⟩
  · rename_i hphase
    cases h
    exact ⟨rfl, by simp [hphase], by simp [hphase], .inr ⟨error, rfl⟩⟩
  · rename_i hphase
    cases h
    exact ⟨rfl, by simp [hphase], by simp [hphase], .inr ⟨error, rfl⟩⟩
  · cases h

theorem mark_eq_some {sh sh' : Shell} {changed : Option SidecarLifecycle} (h : sh.mark changed = some sh') :
    sh.exit = .running ∧ ∃ l, changed = some l ∧ sh' = { sh with lifecycle := l } := by
  unfold Shell.mark at h
  split at h
  · rename_i hexit
    obtain ⟨l, hl, rfl⟩ := Option.map_eq_some_iff.mp h
    exact ⟨hexit, l, hl, rfl⟩
  · cases h

-- The thread has a process in hand that it is to commit, or to stop.
def Thread.held : Thread → Option Pid
  | .supervisor _ (.offering p) | .supervisor _ (.granted p) | .supervisor _ (.rejected p) => some p
  | .restart (.claimed process) => process
  | .restart (.stopping p) => some p
  | .closer (.stopping p) => some p
  | _ => none

def Thread.stops : Thread → Option (Pid × Thread)
  | .supervisor generation (.rejected p) => some (p, .supervisor generation .ended)
  | .restart (.stopping p) => some (p, .restart (.finishing none))
  | .closer (.stopping p) => some (p, .closer .finishing)
  | _ => none

-- A supervisor that only moves on.
inductive Moves (sh : Shell) (generation : Nat) : SupervisorPc → SupervisorPc → Prop
  | start (hexit : sh.exit = .running) : Moves sh generation .starting .spawning
  | leave {pc : SupervisorPc} (hpc : (Thread.supervisor generation pc).held = none) : Moves sh generation pc .ended
  | fail {error : String} : Moves sh generation .spawning (.spawnFailed error)
  | grant {p : Pid} (hexit : sh.exit = .running) : Moves sh generation (.offering p) (.granted p)
  | refuse {p : Pid} (hexit : sh.exit ≠ .running) : Moves sh generation (.offering p) (.rejected p)
  | lose {p : Pid} (hcommit : sh.lifecycle.commitSpawn p = none) : Moves sh generation (.granted p) (.rejected p)
  | vanish {error : String} : Moves sh generation .waiting (.sawFailure generation error)
  | unread {process : OwnedProcess} {error : String} (hslot : sh.slot = some process) :
      Moves sh generation .waiting (.sawFailure process.generation error)
  | probe : Moves sh generation .waiting .probing
  | answer {q : Pid} {process : OwnedProcess} (hq : sh.processes[q]? = some process) (halive : process.exited = false) :
      Moves sh generation .probing (.sawReady process.generation)
  | silence : Moves sh generation .probing .waiting
  | watch : Moves sh generation .watching .watching

inductive Acts : SupervisorPc → Nat → SupervisorPc → Prop
  | ready {observed : Nat} : Acts (.sawReady observed) observed .watching
  | failure {observed : Nat} {error : String} : Acts (.sawFailure observed error) observed (.requesting observed)
  | exit {observed : Nat} : Acts (.sawExit observed) observed .ended

inductive Notices (generation : Nat) : SupervisorPc → SupervisorPc → Prop
  | waiting {error : String} : Notices generation .waiting (.sawFailure generation error)
  | watching : Notices generation .watching (.sawExit generation)

inductive Effect (platform : Platform) (sh : Shell) : Thread → Input → Shell → Thread → Option Thread → Prop
  | moved {generation : Nat} {pc pc' : SupervisorPc} {input : Input} (hmoves : Moves sh generation pc pc') :
      Effect platform sh (.supervisor generation pc) input sh (.supervisor generation pc') none
  | spawned {generation : Nat} {input : Input} : Effect platform sh (.supervisor generation .spawning) input
      { sh with processes := sh.processes ++ [.spawn platform generation] }
      (.supervisor generation (.offering sh.processes.length)) none
  | committed {generation : Nat} {p : Pid} {input : Input} (hphase : sh.lifecycle.phase = .spawning)
      (hslot : sh.lifecycle.process = none) :
      Effect platform sh (.supervisor generation (.granted p)) input
        ({ sh with lifecycle := { phase := .running, process := some p } }.note (.committed p))
        (.supervisor generation .waiting) none
  | noticed {generation : Nat} {pc pc' : SupervisorPc} {input : Input} {process : OwnedProcess} (hslot : sh.slot = some process)
      (hexited : process.exited = true) (hnotices : Notices process.generation pc pc') :
      Effect platform sh (.supervisor generation pc) input (sh.sweepSlot platform) (.supervisor generation pc') none
  | acted {generation : Nat} {pc pc' : SupervisorPc} {observed : Nat} {input : Input} {l : SidecarLifecycle}
      (hacts : Acts pc observed pc') (hmarks : Marks sh.lifecycle l) (hexit : sh.exit = .running) :
      Effect platform sh (.supervisor generation pc) input ({ sh with lifecycle := l }.note (.applied observed sh.current))
        (.supervisor generation pc') none
  | asked {generation : Nat} {observed : Nat} {input : Input} {p : Pid} {process process' : OwnedProcess}
      (hslot : sh.lifecycle.process = some p) (hp : sh.processes[p]? = some process)
      (hrequest : process.requestShutdown platform = some process') :
      Effect platform sh (.supervisor generation (.requesting observed)) input
        ((sh.update p fun _ => process').note (.applied observed sh.current)) (.supervisor generation .ended) none
  -- a failure that comes from no process
  | marked {t t' : Thread} {input : Input} {l : SidecarLifecycle} (hmarks : Marks sh.lifecycle l)
      (ht : (∃ generation error, t = .supervisor generation (.spawnFailed error) ∧ t' = .supervisor generation .ended) ∨
        ∃ error, t = .restart (.failing error) ∧ t' = .restart .over) :
      Effect platform sh t input { sh with lifecycle := l } t' none
  | unmarked {error : String} {input : Input} : Effect platform sh (.restart (.failing error)) input sh (.restart .over) none
  | stopped {t t' : Thread} {p : Pid} {input : Input} {process process' : OwnedProcess} (hstops : t.stops = some (p, t'))
      (hp : sh.processes[p]? = some process) (hstep : process.stopStep platform input = some process') :
      Effect platform sh t input (sh.update p fun _ => process') t none
  | dropped {t t' : Thread} {p : Pid} {process : OwnedProcess} (hstops : t.stops = some (p, t'))
      (hp : sh.processes[p]? = some process) (hstage : process.stage = .stopped) :
      Effect platform sh t .step (sh.update p (OwnedProcess.drop platform)) t' none
  | claimed {input : Input} (hstopping : sh.lifecycle.phase ≠ .stopping) (hstopped : sh.lifecycle.phase ≠ .stopped) :
      Effect platform sh (.restart .requested) input { sh with lifecycle := { phase := .stopping, process := none } }
        (.restart (.claimed sh.lifecycle.process)) none
  | declined {input : Input} : Effect platform sh (.restart .requested) input sh (.restart .over) none
  | began {p : Pid} {input : Input} : Effect platform sh (.restart (.claimed (some p))) input sh (.restart (.stopping p)) none
  | empty {error : Option String} {input : Input} :
      Effect platform sh (.restart (.claimed none)) input sh (.restart (.finishing error)) none
  | abandoned {p : Pid} {error : String} {process : OwnedProcess} (hp : sh.processes[p]? = some process) :
      Effect platform sh (.restart (.claimed (some p))) (.fails error) (sh.update p (OwnedProcess.drop platform))
        (.restart (.finishing (some error))) none
  | finished {error : Option String} {input : Input} :
      Effect platform sh (.restart (.finishing error)) input { sh with lifecycle := sh.lifecycle.finishShutdown }
        (.restart (.resetting error)) none
  | reset {error : Option String} {pc : RestartPc}
      (hpc : pc = .respawning (sh.restarts + 1) ∨ ∃ error, pc = .failing error) :
      Effect platform sh (.restart (.resetting error)) .step (sh.reset platform) (.restart pc) none
  | respawned {generation : Nat} {input : Input} :
      Effect platform sh (.restart (.respawning generation)) input sh (.restart .over) (some (.supervisor generation .starting))
  | notRespawned {generation : Nat} {error : String} {input : Input} :
      Effect platform sh (.restart (.respawning generation)) input sh (.restart (.failing error)) none
  | closing {pc : CloserPc} (hstopping : sh.lifecycle.phase ≠ .stopping) (hstopped : sh.lifecycle.phase ≠ .stopped)
      (hpc : pc = match sh.lifecycle.process with | some p => .stopping p | none => .finishing) :
      Effect platform sh (.closer .beginning) .step { sh with lifecycle := { phase := .stopping, process := none } }
        (.closer pc) none
  | closed (hphase : sh.lifecycle.phase = .stopping ∨ sh.lifecycle.phase = .stopped) :
      Effect platform sh (.closer .beginning) .step sh (.closer .allowing) none
  | settled {input : Input} : Effect platform sh (.closer .finishing) input { sh with lifecycle := sh.lifecycle.finishShutdown }
      (.closer .allowing) none
  | allowed {input : Input} : Effect platform sh (.closer .allowing) input { sh with exit := .allowExit } (.closer .over) none

theorem commitSpawn_eq_some {l l' : SidecarLifecycle} {p : Pid} (h : l.commitSpawn p = some l') :
    l.phase = .spawning ∧ l.process = none ∧ l' = { phase := .running, process := some p } := by
  unfold SidecarLifecycle.commitSpawn at h
  split at h
  · rename_i hfree
    exact ⟨hfree.1, hfree.2, (Option.some.inj h).symm⟩
  · cases h

theorem beginShutdown_cases (l : SidecarLifecycle) :
    (l.phase ≠ .stopping ∧ l.phase ≠ .stopped ∧
      l.beginShutdown = (.owner l.process, { phase := .stopping, process := none })) ∨
    ((l.phase = .stopping ∨ l.phase = .stopped) ∧
      (l.beginShutdown = (.inProgress, l) ∨ l.beginShutdown = (.complete, l))) := by
  obtain ⟨phase, process⟩ := l
  cases phase <;> simp [SidecarLifecycle.beginShutdown]

theorem slot_some {sh : Shell} {process : OwnedProcess} (h : sh.slot = some process) :
    ∃ p, sh.lifecycle.process = some p ∧ sh.processes[p]? = some process := Option.bind_eq_some_iff.mp h

theorem stopping_effect {sh sh' : Shell} {t next t' : Thread} {added : Option Thread} {p : Pid} {input : Input}
    (hstops : t.stops = some (p, next)) (h : stopping platform sh p t next input = some (sh', t', added)) :
    Effect platform sh t input sh' t' added := by
  unfold stopping at h
  obtain ⟨process, hp, h⟩ := Option.bind_eq_some_iff.mp h
  split at h
  · rename_i hstage
    split at h
    · rename_i hinput
      cases h
      subst hinput
      exact .dropped hstops hp hstage
    · cases h
  · obtain ⟨process', hstep, heq⟩ := Option.map_eq_some_iff.mp h
    cases heq
    exact .stopped hstops hp hstep

theorem mark_effect {sh : Shell} {t t' : Thread} {error : String} {input : Input}
    (ht : (∃ generation error, t = .supervisor generation (.spawnFailed error) ∧ t' = .supervisor generation .ended) ∨
      ∃ error, t = .restart (.failing error) ∧ t' = .restart .over) :
    Effect platform sh t input ((sh.mark (sh.lifecycle.markFailed error)).getD sh) t' none := by
  cases hmark : sh.mark (sh.lifecycle.markFailed error) with
  | none =>
      rw [Option.getD_none]
      rcases ht with ⟨generation, error, rfl, rfl⟩ | ⟨error, rfl, rfl⟩
      · exact .moved (.leave rfl)
      · exact .unmarked
  | some sh' =>
      obtain ⟨_, l, hl, rfl⟩ := mark_eq_some hmark
      exact .marked (markFailed_marks hl) ht

theorem supervisorStep_effect {sh sh' : Shell} {generation : Nat} {pc : SupervisorPc} {input : Input} {t' : Thread}
    {added : Option Thread} (h : supervisorStep platform sh generation pc input = some (sh', t', added)) :
    Effect platform sh (.supervisor generation pc) input sh' t' added := by
  unfold supervisorStep at h
  dsimp only at h
  split at h
  · cases h
    split
    · exact .moved (.start ‹_›)
    · exact .moved (.leave rfl)
  · cases h
    exact .spawned
  · cases h
    exact .moved .fail
  · cases h
    exact mark_effect (.inl ⟨generation, _, rfl, rfl⟩)
  · cases h
    split
    · exact .moved (.grant ‹_›)
    · exact .moved (.refuse ‹_›)
  · split at h
    · rename_i hcommit
      cases h
      obtain ⟨hphase, hslot, rfl⟩ := commitSpawn_eq_some hcommit
      exact .committed hphase hslot
    · rename_i hcommit
      cases h
      exact .moved (.lose hcommit)
  · exact stopping_effect rfl h
  · split at h
    · split at h
      · cases h
        exact .moved .vanish
      · rename_i hslot
        split at h
        · rename_i hexited
          cases h
          exact .noticed hslot hexited .waiting
        · cases h
          exact .moved .probe
    · cases h
      exact .moved (.leave rfl)
  · split at h
    · obtain ⟨process, hslot, h⟩ := Option.bind_eq_some_iff.mp h
      cases h
      exact .moved (.unread hslot)
    · cases h
      exact .moved (.leave rfl)
  · cases h
    exact .moved .vanish
  · obtain ⟨process, hq, h⟩ := Option.bind_eq_some_iff.mp h
    split at h
    · cases h
    · rename_i halive
      cases h
      exact .moved (.answer hq (Bool.eq_false_iff.mpr halive))
  · cases h
    exact .moved .silence
  · split at h
    · rename_i hmark
      cases h
      obtain ⟨hexit, l, hl, rfl⟩ := mark_eq_some hmark
      exact .acted .ready (markReady_marks hl) hexit
    · cases h
      exact .moved (.leave rfl)
  · split at h
    · rename_i hmark
      cases h
      obtain ⟨hexit, l, hl, rfl⟩ := mark_eq_some hmark
      exact .acted .failure (markFailed_marks hl) hexit
    · cases h
      exact .moved (.leave rfl)
  · split at h
    · rename_i hslot hrequest
      cases h
      obtain ⟨process, hslot', hrequest⟩ := Option.bind_eq_some_iff.mp hrequest
      obtain ⟨p, hp, hprocess⟩ := slot_some hslot'
      rw [hslot] at hp
      cases hp
      exact .asked hslot hprocess hrequest
    · cases h
      exact .moved (.leave rfl)
  · split at h
    · split at h
      · cases h
        exact .moved (.leave rfl)
      · rename_i hslot
        split at h
        · rename_i hexited
          cases h
          exact .noticed hslot hexited .watching
        · cases h
          exact .moved .watch
    · cases h
      exact .moved (.leave rfl)
  · split at h
    · obtain ⟨_, _, h⟩ := Option.bind_eq_some_iff.mp h
      cases h
      exact .moved .watch
    · cases h
      exact .moved (.leave rfl)
  · split at h
    · rename_i hmark
      cases h
      obtain ⟨hexit, l, hl, rfl⟩ := mark_eq_some hmark
      exact .acted .exit (markFailed_marks hl) hexit
    · cases h
      exact .moved (.leave rfl)
  · cases h

theorem restartStep_effect {sh sh' : Shell} {pc : RestartPc} {input : Input} {t' : Thread} {added : Option Thread}
    (h : restartStep platform sh pc input = some (sh', t', added)) :
    Effect platform sh (.restart pc) input sh' t' added := by
  unfold restartStep at h
  dsimp only at h
  split at h
  · split at h
    · rename_i hrestartable
      cases h
      rcases beginShutdown_cases sh.lifecycle with ⟨hstopping, hstopped, hclaim⟩ | ⟨hphase, _⟩
      · rw [hclaim]
        exact .claimed hstopping hstopped
      · rcases hphase with hphase | hphase <;> simp [SidecarLifecycle.restartable, hphase] at hrestartable
    · cases h
      exact .declined
  · cases h
    exact .began
  · cases h
    exact .empty
  · obtain ⟨process, hp, h⟩ := Option.bind_eq_some_iff.mp h
    cases h
    exact .abandoned hp
  · cases h
    exact .empty
  · exact stopping_effect rfl h
  · cases h
    exact .finished
  · cases h
    exact .reset (.inr ⟨_, rfl⟩)
  · cases h
    exact .reset (.inl rfl)
  · cases h
    exact .respawned
  · cases h
    exact .notRespawned
  · cases h
    exact mark_effect (.inr ⟨_, rfl, rfl⟩)
  · cases h

theorem closerStep_effect {sh sh' : Shell} {pc : CloserPc} {input : Input} {t' : Thread} {added : Option Thread}
    (h : closerStep platform sh pc input = some (sh', t', added)) : Effect platform sh (.closer pc) input sh' t' added := by
  unfold closerStep at h
  dsimp only at h
  split at h
  · rcases beginShutdown_cases sh.lifecycle with ⟨hstopping, hstopped, hclaim⟩ | ⟨hphase, hclaim⟩
    · rw [hclaim] at h
      cases hslot : sh.lifecycle.process with
      | none =>
          rw [hslot] at h
          cases h
          exact .closing hstopping hstopped (by rw [hslot])
      | some p =>
          rw [hslot] at h
          cases h
          exact .closing hstopping hstopped (by rw [hslot])
    · rcases hclaim with hclaim | hclaim <;> rw [hclaim] at h <;> cases h <;> exact .closed hphase
  · exact stopping_effect rfl h
  · cases h
    exact .settled
  · cases h
    exact .allowed
  · cases h

theorem Thread.step_effect {sh sh' : Shell} {t t' : Thread} {input : Input} {added : Option Thread}
    (h : t.step platform sh input = some (sh', t', added)) : Effect platform sh t input sh' t' added := by
  cases t with
  | supervisor generation pc => exact supervisorStep_effect h
  | restart pc => exact restartStep_effect h
  | closer pc => exact closerStep_effect h

inductive Change (platform : Platform) (s : State) : Action → State → Prop
  | restart (hexit : s.shell.exit = .running) :
      Change platform s .restart { s with threads := s.threads ++ [.restart .requested] }
  | close (hexit : s.shell.exit = .running) :
      Change platform s .close
        { shell := { s.shell with exit := .cleaning }.note .exitRequested, threads := s.threads ++ [.closer .beginning] }
  | again (hexit : s.shell.exit ≠ .running) : Change platform s .close s
  | exits (p : Pid) :
      Change platform s (.exits p) { s with shell := s.shell.update p fun process => { process with exited := true } }
  | thread (i : Nat) (input : Input) (t t' : Thread) (sh' : Shell) (added : Option Thread) (hi : s.threads[i]? = some t)
      (hfree : t.locks = true → ∀ other ∈ s.threads, other.granted = false) (heffect : Effect platform s.shell t input sh' t' added) :
      Change platform s (.thread i input) { shell := sh', threads := Lib.replaceSlot s.threads i t' added }

theorem next_change {s s' : State} {a : Action} (h : next platform s a = some s') : Change platform s a s' := by
  cases a with
  | restart =>
      simp only [next] at h
      split at h
      · cases h
        exact .restart ‹_›
      · cases h
  | close =>
      simp only [next] at h
      cases hexit : s.shell.exit with
      | running =>
          rw [hexit] at h
          cases h
          exact .close hexit
      | cleaning | allowExit =>
          rw [hexit] at h
          cases h
          exact .again (by simp [hexit])
  | exits p =>
      cases h
      exact .exits p
  | thread i input =>
      simp only [next] at h
      obtain ⟨t, hi, h⟩ := Option.bind_eq_some_iff.mp h
      split at h
      · cases h
      · rename_i hlocks
        obtain ⟨⟨sh', t', added⟩, hstep, rfl⟩ := Option.map_eq_some_iff.mp h
        refine .thread i input t t' sh' added hi (fun hlock other hmem => ?_) (Thread.step_effect hstep)
        rw [hlock, Bool.true_and, Bool.not_eq_true, List.any_eq_false] at hlocks
        exact Bool.eq_false_iff.mpr (hlocks other hmem)

end GaHub.Desktop
