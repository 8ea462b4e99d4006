import GaHub.Desktop.Isolation

namespace GaHub.Desktop

variable {platform : Platform}

structure OwnedProcess.Orderly (platform : Platform) (process : OwnedProcess) : Prop where
  pipe : platform = .unix → process.childStdin = false → process.lineSent = true
  cleaned : process.cleanupComplete = true → process.exited = true
  swept : process.groupSwept = true → process.stage = .idle → process.exited = true
  asked : process.stoppedRunning = true → process.stage = .line → platform = .unix ∨ process.lineSent = true
  sent : process.stoppedRunning = true → process.stage ≠ .idle → process.stage ≠ .line → process.lineSent = true
  waited : process.stoppedRunning = true → process.stage = .forcing ∨ process.stage = .reaping → process.graceOver = true
  ended : process.stoppedRunning = true → process.stage = .stopped →
    process.graceOver = true ∨ process.cleanupComplete = true ∨ (platform = .unix ∧ process.groupSwept = true)
  forced : process.stoppedRunning = true → process.forced = true → process.graceOver = true
  unforced : process.stage = .idle → process.forced = true → process.dropped = true

-- A process that still runs is told to stop by a line that can reach it, and its status can be read while it is given
-- time.
def courteous (platform : Platform) (sh : Shell) (t : Thread) (input : Input) : Bool :=
  t.stops.all fun r => sh.processes[r.1]?.all fun process =>
    match process.stage, input with
    | .idle, .step => process.exited || decide (platform = .unix) || process.lineSent
    | .grace, .fails _ => false
    | _, _ => true

def Thread.closes : Thread → Bool
  | .closer .beginning => true
  | _ => false

-- A thread that has no process in hand, and is not about to have one.
def Thread.clear : Thread → Bool
  | .supervisor _ .spawning => false
  | t => decide (t.held = none)

-- No commit is between its look at the exit and the slot when the exit is requested; nobody has a process in hand when
-- the closing thread looks at the lifecycle; and a process that runs is stopped with its line, its time, and to its end.
def orderly (platform : Platform) (s : State) : Action → Bool
  | .close => s.threads.all fun t => !t.granted
  | .thread i input => s.threads[i]?.all fun t =>
      releases s.shell t input && courteous platform s.shell t input && (!t.closes || s.threads.all Thread.clear)
  | _ => true

theorem spawn_orderly (generation : Nat) : (OwnedProcess.spawn platform generation).Orderly platform := by
  cases platform <;>
    exact ⟨by simp [OwnedProcess.spawn], by simp [OwnedProcess.spawn], by simp [OwnedProcess.spawn], by simp [OwnedProcess.spawn],
      by simp [OwnedProcess.spawn], by simp [OwnedProcess.spawn], by simp [OwnedProcess.spawn], by simp [OwnedProcess.spawn],
      by simp [OwnedProcess.spawn]⟩

theorem stopStep_orderly {y z : OwnedProcess} {input : Input} (hy : y.Orderly platform) (hkept : y.dropped = false)
    (h : y.stopStep platform input = some z)
    (hbegin : y.stage = .idle → input = .step → y.exited = false → platform = .unix ∨ y.lineSent = true)
    (hgrace : ∀ error, y.stage = .grace → input ≠ .fails error) : z.Orderly platform := by
  obtain ⟨hpipe, hcleaned, hswept, hasked, hsent, hwaited, hended, hforced, hunforced⟩ := hy
  unfold OwnedProcess.stopStep at h
  split at h
  all_goals rename_i hstage
  · dsimp only at h
    split at h
    · cases h
      constructor <;> simp_all
    · split at h
      · cases h
        constructor <;> simp_all
      · cases h
        constructor <;> simp_all
  · split at h
    · cases h
      constructor <;> simp_all
    · rename_i hpipe'
      cases h
      -- the line has been sent before
      have hline : y.stoppedRunning = true → y.lineSent = true := by
        intro hrunning
        rcases hasked hrunning hstage with hunix | hline
        · exact hpipe hunix (Bool.eq_false_iff.mpr hpipe')
        · exact hline
      constructor <;> simp_all
  · split at h
    · cases h
      constructor <;> simp_all [OwnedProcess.finishExitedTree, OwnedProcess.sweep]
    · cases h
  · split at h
    · cases h
    · cases h
      constructor <;> simp_all
  · exact absurd rfl (hgrace _ hstage)
  · cases h
    constructor <;> simp_all [OwnedProcess.sweep]
  · split at h
    · cases h
      constructor <;> simp_all [OwnedProcess.finishExitedTree, OwnedProcess.sweep]
    · cases h
  · split at h
    · cases h
    · cases h
      constructor <;> simp_all
  · cases h
    constructor <;> simp_all
  · cases h

theorem Evolves.orderly {sh : Shell} {t : Thread} {input : Input} {p : Pid} {y z : OwnedProcess}
    (h : Evolves platform sh t input p y z) (hp : sh.processes[p]? = some y) (hy : y.Orderly platform)
    (hkept : t.held = some p → y.dropped = false) (hgo : releases sh t input = true)
    (hcourteous : courteous platform sh t input = true) : z.Orderly platform := by
  cases h with
  | same => exact hy
  | request h =>
      obtain ⟨hpipe, hcleaned, hswept, hasked, hsent, hwaited, hended, hforced, hunforced⟩ := hy
      unfold OwnedProcess.requestShutdown at h
      split at h <;> split at h <;> cases h <;>
        exact ⟨fun _ _ => rfl, hcleaned, hswept, fun _ _ => .inr rfl, fun _ _ _ => rfl, hwaited, hended, hforced, hunforced⟩
  | sweep hexited =>
      obtain ⟨hpipe, hcleaned, hswept, hasked, hsent, hwaited, hended, hforced, hunforced⟩ := hy
      exact ⟨hpipe, fun _ => hexited, fun _ _ => hexited, hasked, hsent, hwaited, fun _ _ => .inr (.inl hexited), hforced,
        hunforced⟩
  | stop hstops h =>
      simp only [courteous, hstops, hp, Option.all_some] at hcourteous
      refine stopStep_orderly hy (hkept (Thread.stops_held hstops).1) h (fun hidle hstep hrunning => ?_)
        fun error hgrace hfails => ?_
      · subst hstep
        rw [hidle] at hcourteous
        simpa [hrunning] using hcourteous
      · subst hfails
        rw [hgrace] at hcourteous
        cases hcourteous
  | drop hheld hgoes =>
      have hexited : y.exited = true := by
        rw [releases, hgoes, Option.all_some, hp, Option.all_some] at hgo
        exact hgo
      obtain ⟨hpipe, hcleaned, hswept, hasked, hsent, hwaited, hended, hforced, hunforced⟩ := hy
      have hrunning : ∀ {b : Bool}, (if y.stage = .stopped then b else !y.exited) = true → y.stage = .stopped ∧ b = true := by
        intro b hb
        split at hb
        · exact ⟨‹_›, hb⟩
        · rw [hexited] at hb
          cases hb
      refine ⟨hpipe, hcleaned, hswept, fun hrun hline => ?_, fun hrun hidle hline => ?_, fun hrun hstage => ?_,
        fun hrun hstage => ?_, fun hrun hkill => ?_, fun _ _ => rfl⟩
      · exact hasked (hrunning hrun).2 hline
      · exact hsent (hrunning hrun).2 hidle hline
      · exact hwaited (hrunning hrun).2 hstage
      · exact hended (hrunning hrun).2 hstage
      · obtain ⟨hstopped, hran⟩ := hrunning hrun
        rcases Bool.or_eq_true_iff.mp hkill with hbefore | hkilled
        · exact hforced hran hbefore
        · rcases hended hran hstopped with hwait | hclean | ⟨hunix, hsweep⟩
          · exact hwait
          · simp [hclean] at hkilled
          · simp [hunix, hsweep] at hkilled

def Thread.past : Thread → Bool
  | .closer .beginning => false
  | .closer _ => true
  | _ => false

def Thread.isCloser : Thread → Bool
  | .closer _ => true
  | _ => false

theorem Thread.past_closer {t : Thread} (h : t.past = true) : t.isCloser = true := by
  cases t with
  | closer _ => rfl
  | supervisor _ _ => cases h
  | restart _ => cases h

def Prompt (log : List Event) : Prop := log.Pairwise fun e f => e = .exitRequested → ∀ p, f ≠ .committed p

structure Closing (platform : Platform) (s : State) : Prop where
  prompt : Prompt s.shell.log
  requested : .exitRequested ∈ s.shell.log → s.shell.exit ≠ .running
  granted : ∀ t ∈ s.threads, t.granted = true → s.shell.exit = .running
  closer : ∀ t ∈ s.threads, t.isCloser = true → s.shell.exit ≠ .running
  one : s.threads.countP Thread.isCloser ≤ 1
  slot : ∀ t ∈ s.threads, t.past = true → s.shell.lifecycle.process = none
  clear : ∀ t ∈ s.threads, t.past = true → ∀ b ∈ s.threads, b.isCloser = false → b.clear = true
  allowed : s.shell.exit = .allowExit → .closer .over ∈ s.threads
  dropped : ∀ process ∈ s.shell.processes, process.dropped = true → process.exited = true
  processes : ∀ process ∈ s.shell.processes, process.Orderly platform

theorem closing_start : Closing platform {} where
  prompt := List.Pairwise.nil
  requested := by simp
  granted t ht := by
    rw [List.mem_singleton] at ht
    subst ht
    intro h
    cases h
  closer t ht := by
    rw [List.mem_singleton] at ht
    subst ht
    intro h
    cases h
  one := by decide
  slot _ _ _ := rfl
  clear t ht := by
    rw [List.mem_singleton] at ht
    subst ht
    intro h
    cases h
  allowed h := by cases h
  dropped := by simp
  processes := by simp

theorem Prompt.append {log : List Event} (h : Prompt log) {event : Event}
    (hevent : .exitRequested ∈ log → ∀ p, event ≠ .committed p) : Prompt (log ++ [event]) := by
  refine List.pairwise_append.mpr ⟨h, List.pairwise_singleton _ _, fun e he f hf hexit p => ?_⟩
  rw [List.mem_singleton] at hf
  subst hf
  exact hevent (hexit ▸ he) p

theorem Effect.exit {sh sh' : Shell} {t t' : Thread} {input : Input} {added : Option Thread}
    (h : Effect platform sh t input sh' t' added) :
    sh'.exit = sh.exit ∨ (sh'.exit = .allowExit ∧ t = .closer .allowing ∧ t' = .closer .over) := by
  cases h with
  | noticed _ _ _ =>
      refine .inl ?_
      unfold Shell.sweepSlot
      split <;> rfl
  | reset _ =>
      refine .inl ?_
      unfold Shell.reset
      dsimp only
      split <;> rfl
  | allowed => exact .inr ⟨rfl, rfl, rfl⟩
  | _ => exact .inl rfl

theorem Effect.logged {sh sh' : Shell} {t t' : Thread} {input : Input} {added : Option Thread}
    (h : Effect platform sh t input sh' t' added) :
    sh'.log = sh.log ∨ ∃ event, sh'.log = sh.log ++ [event] ∧ event ≠ .exitRequested ∧
      ∀ p, event = .committed p → t.granted = true := by
  cases h with
  | committed _ _ => exact .inr ⟨_, rfl, by simp, fun _ _ => rfl⟩
  | noticed _ _ _ => exact .inl (sweepSlot_log sh)
  | acted _ _ _ => exact .inr ⟨_, rfl, by simp, fun p hp => by cases hp⟩
  | asked _ _ _ => exact .inr ⟨_, rfl, by simp, fun p hp => by cases hp⟩
  | reset _ => exact .inl (reset_log sh)
  | _ => exact .inl rfl

theorem Effect.closer {sh sh' : Shell} {t t' : Thread} {input : Input} {added : Option Thread}
    (h : Effect platform sh t input sh' t' added) :
    t'.isCloser = t.isCloser ∧ (t.closes = false → t'.past = t.past) ∧ t ≠ .closer .over := by
  cases h with
  | marked _ hfails => rcases hfails with ⟨_, _, rfl, rfl⟩ | ⟨_, rfl, rfl⟩ <;> exact ⟨rfl, fun _ => rfl, by simp⟩
  | stopped hstops _ _ =>
      refine ⟨rfl, fun _ => rfl, fun hover => ?_⟩
      rw [hover] at hstops
      cases hstops
  | dropped hstops _ _ =>
      unfold Thread.stops at hstops
      split at hstops <;> cases hstops <;> exact ⟨rfl, fun _ => rfl, by simp⟩
  | closing _ _ _ | closed _ =>
      refine ⟨rfl, fun hclosed => ?_, by simp⟩
      cases hclosed
  | _ => exact ⟨rfl, fun _ => rfl, by simp⟩

theorem Effect.added_clear {sh sh' : Shell} {t t' : Thread} {input : Input} {added : Option Thread}
    (h : Effect platform sh t input sh' t' added) :
    ∀ b, added = some b → b.isCloser = false ∧ b.clear = true ∧ b.granted = false := by
  intro b hb
  cases h with
  | respawned =>
      cases hb
      exact ⟨rfl, rfl, rfl⟩
  | _ => cases hb

theorem Thread.clear_held {t : Thread} (h : t.clear = true) : t.held = none := by
  unfold Thread.clear at h
  split at h
  · cases h
  · exact of_decide_eq_true h

theorem Thread.stops_not_clear {t t' : Thread} {p : Pid} (h : t.stops = some (p, t')) : t.clear ≠ true := by
  intro hclear
  have hheld := (Thread.stops_held h).1
  rw [Thread.clear_held hclear] at hheld
  cases hheld

theorem Effect.clear {sh sh' : Shell} {t t' : Thread} {input : Input} {added : Option Thread}
    (h : Effect platform sh t input sh' t' added) (hexit : sh.exit ≠ .running) (hslot : sh.lifecycle.process = none)
    (hcloser : t.isCloser = false) (hclear : t.clear = true) : t'.clear = true := by
  have hheld := Thread.clear_held hclear
  cases h with
  | moved hmoves =>
      cases hmoves with
      | start hrunning => exact absurd hrunning hexit
      | fail => cases hclear
      | grant _ | refuse _ | lose _ => cases hheld
      | leave _ | vanish | unread _ | probe | answer _ _ | silence | watch => rfl
  | spawned => cases hclear
  | committed _ _ => cases hheld
  | noticed _ _ hnotices => cases hnotices <;> rfl
  | acted hacts _ _ => cases hacts <;> rfl
  | marked _ hfails => rcases hfails with ⟨_, _, _, rfl⟩ | ⟨_, _, rfl⟩ <;> rfl
  | stopped hstops _ _ => exact absurd hclear (Thread.stops_not_clear hstops)
  | dropped hstops _ _ => exact absurd hclear (Thread.stops_not_clear hstops)
  | claimed _ _ =>
      rw [hslot]
      rfl
  | began => cases hheld
  | abandoned _ => cases hheld
  | reset hpc => rcases hpc with rfl | ⟨_, rfl⟩ <;> rfl
  | closing _ _ _ | closed _ | settled | allowed => cases hcloser
  | asked _ _ _ | unmarked | declined | empty | finished | respawned | notRespawned => rfl

theorem Effect.granted {sh sh' : Shell} {t t' : Thread} {input : Input} {added : Option Thread}
    (h : Effect platform sh t input sh' t' added) (hgranted : t'.granted = true) : sh.exit = .running ∧ sh' = sh := by
  cases h with
  | moved hmoves =>
      cases hmoves with
      | grant hexit => exact ⟨hexit, rfl⟩
      | _ => cases hgranted
  | noticed _ _ hnotices => cases hnotices <;> cases hgranted
  | acted hacts _ _ => cases hacts <;> cases hgranted
  | marked _ hfails => rcases hfails with ⟨_, _, _, rfl⟩ | ⟨_, _, rfl⟩ <;> cases hgranted
  | stopped hstops _ _ =>
      unfold Thread.stops at hstops
      split at hstops <;> cases hstops <;> cases hgranted
  | dropped hstops _ _ =>
      unfold Thread.stops at hstops
      split at hstops <;> cases hstops <;> cases hgranted
  | _ => cases hgranted

theorem Thread.closes_eq {t : Thread} (h : t.closes = true) : t = .closer .beginning := by
  unfold Thread.closes at h
  split at h
  · rfl
  · cases h

theorem Effect.emptied {sh sh' : Shell} {t t' : Thread} {input : Input} {added : Option Thread}
    (h : Effect platform sh t input sh' t' added) (hstored : Stored sh.lifecycle) (hcloses : t.closes = true) :
    sh'.lifecycle.process = none := by
  have ht := Thread.closes_eq hcloses
  cases h with
  | closing _ _ _ => rfl
  | closed hphase =>
      cases hslot : sh.lifecycle.process with
      | none => rfl
      | some p =>
          obtain ⟨hstopping, hstopped⟩ := (hstored p hslot).2
          rcases hphase with hphase | hphase
          · exact absurd hphase hstopping
          · exact absurd hphase hstopped
  | marked _ hfails => rcases hfails with ⟨_, _, rfl, _⟩ | ⟨_, rfl, _⟩ <;> cases ht
  | stopped hstops _ _ =>
      rw [ht] at hstops
      cases hstops
  | dropped hstops _ _ =>
      rw [ht] at hstops
      cases hstops
  | _ => cases ht

theorem Closing.thread {s : State} {sh' : Shell} {i : Nat} {t t' : Thread} {input : Input} {added : Option Thread}
    (hs : Closing platform s) (hheld : Held s) (hi : s.threads[i]? = some t)
    (h : Effect platform s.shell t input sh' t' added) (hok : orderly platform s (.thread i input) = true) :
    Closing platform { shell := sh', threads := Lib.replaceSlot s.threads i t' added } := by
  have hmem := List.mem_of_getElem? hi
  have hreset := hheld.unslotted hmem
  simp only [orderly, hi, Option.all_some, Bool.and_eq_true, Bool.or_eq_true, Bool.not_eq_true'] at hok
  obtain ⟨⟨hgo, hcourteous⟩, hclears⟩ := hok
  obtain ⟨hkind, hpast, hover⟩ := h.closer
  have hadded := h.added_clear
  have hcleaning : s.shell.exit ≠ .running → sh'.exit ≠ .running := by
    intro hexit
    rcases h.exit with hsame | ⟨hallow, _⟩
    · exact hsame ▸ hexit
    · simp [hallow]
  have hcloserExit : ∀ b ∈ s.threads, b.past = true → s.shell.exit ≠ .running := by
    intro b hb hb'
    exact hs.closer b hb (Thread.past_closer hb')
  -- once a closing thread was past its look, the slot stays empty
  have hempty : ∀ b ∈ s.threads, b.past = true → sh'.lifecycle.process = none := by
    intro b hb hb'
    cases hslot : sh'.lifecycle.process with
    | none => rfl
    | some p =>
        rcases h.slot hslot with hbefore | ⟨generation, rfl⟩
        · rw [hs.slot b hb hb'] at hbefore
          cases hbefore
        · exact absurd (hs.granted _ hmem rfl) (hcloserExit b hb hb')
  -- a closing thread past its look was so before, or is looking
  have hlook : ∀ b ∈ Lib.replaceSlot s.threads i t' added, b.past = true → t.closes = true ∨ ∃ c ∈ s.threads, c.past = true := by
    intro b hb hb'
    rcases Lib.mem_replaceSlot hb with rfl | hb | hb
    · cases hcloses : t.closes with
      | true => exact .inl rfl
      | false => exact .inr ⟨t, hmem, (hpast hcloses).symm.trans hb'⟩
    · exact .inr ⟨b, hb, hb'⟩
    · have hnot := (hadded b hb).1
      rw [Thread.past_closer hb'] at hnot
      cases hnot
  refine ⟨?_, ?_, ?_, ?_, ?_, ?_, ?_, ?_, ?_, ?_⟩
  · rcases h.logged with hsame | ⟨event, hlog, _, hcommit⟩
    · exact hsame ▸ hs.prompt
    · show Prompt sh'.log
      rw [hlog]
      refine hs.prompt.append fun hrequested p hp => ?_
      exact hs.requested hrequested (hs.granted t hmem (hcommit p hp))
  · intro hrequested
    refine hcleaning (hs.requested ?_)
    rcases h.logged with hsame | ⟨event, hlog, hevent, _⟩
    · exact hsame ▸ hrequested
    · change Event.exitRequested ∈ sh'.log at hrequested
      rw [hlog, List.mem_append, List.mem_singleton] at hrequested
      exact hrequested.resolve_right hevent.symm
  · intro b hb hgranted
    rcases Lib.mem_replaceSlot hb with rfl | hb | hb
    · obtain ⟨hexit, rfl⟩ := h.granted hgranted
      exact hexit
    · have hexit := hs.granted b hb hgranted
      rcases h.exit with hsame | ⟨_, rfl, _⟩
      · exact hsame.trans hexit
      · exact absurd hexit (hs.closer _ hmem rfl)
    · rw [(hadded b hb).2.2] at hgranted
      cases hgranted
  · intro b hb hcloser
    rcases Lib.mem_replaceSlot hb with rfl | hb | hb
    · exact hcleaning (hs.closer t hmem (hkind ▸ hcloser))
    · exact hcleaning (hs.closer b hb hcloser)
    · rw [(hadded b hb).1] at hcloser
      cases hcloser
  · have hcount := Lib.countP_replaceSlot t' added Thread.isCloser hi fun b hb => (hadded b hb).1
    rw [hkind] at hcount
    have hone := hs.one
    show (Lib.replaceSlot s.threads i t' added).countP Thread.isCloser ≤ 1
    omega
  · intro b hb hb'
    rcases hlook b hb hb' with hcloses | ⟨c, hc, hc'⟩
    · exact h.emptied hheld.stored hcloses
    · exact hempty c hc hc'
  · intro b hb hb' c hc hc'
    have hclear : ∀ d ∈ s.threads, d.isCloser = false → d.clear = true := by
      rcases hlook b hb hb' with hcloses | ⟨d, hd, hd'⟩
      · rcases hclears with hnot | hall
        · rw [hcloses] at hnot
          cases hnot
        · exact fun d hd _ => List.all_eq_true.mp hall d hd
      · exact fun e he he' => hs.clear d hd hd' e he he'
    rcases Lib.mem_replaceSlot hc with rfl | hc | hc
    · have hother : t.isCloser = false := hkind ▸ hc'
      rcases hlook b hb hb' with hcloses | ⟨d, hd, hd'⟩
      · rw [Thread.closes_eq hcloses] at hother
        cases hother
      · exact h.clear (hcloserExit d hd hd') (hs.slot d hd hd') hother (hclear t hmem hother)
    · exact hclear c hc hc'
    · exact (hadded c hc).2.1
  · intro hallowed
    rcases h.exit with hsame | ⟨_, _, rfl⟩
    · obtain ⟨j, hj⟩ := List.getElem?_of_mem (hs.allowed (hsame.symm.trans hallowed))
      have hne : j ≠ i := by
        intro hji
        subst hji
        rw [hi] at hj
        exact hover (Option.some.inj hj)
      exact List.mem_of_getElem? (Lib.replaceSlot_ne hne hj)
    · exact List.mem_of_getElem? (Lib.replaceSlot_self hi)
  · exact h.released hreset hgo hs.dropped
  · intro z hz
    obtain ⟨p, hp⟩ := List.getElem?_of_mem hz
    rcases h.process hreset hp with ⟨y, hy, hevolves⟩ | ⟨_, generation, _, rfl⟩
    · refine hevolves.orderly hy (hs.processes y (List.mem_of_getElem? hy)) (fun hholds => ?_) hgo hcourteous
      exact hheld.undropped hmem hholds hy
    · exact spawn_orderly generation

theorem Closing.append {s : State} (hs : Closing platform s) (sh : Shell)
    (hp : sh.processes = s.shell.processes) (hlog : Prompt sh.log) (hrequested : .exitRequested ∈ sh.log → sh.exit ≠ .running)
    (hgranted : ∀ t ∈ s.threads, t.granted = true → sh.exit = .running) (hcleaning : sh.exit ≠ .allowExit)
    (hcloser : ∀ t ∈ s.threads, t.isCloser = false) (t : Thread) (ht : t.granted = false) (ht' : t.past = false)
    (hexit : t.isCloser = true → sh.exit ≠ .running) : Closing platform { shell := sh, threads := s.threads ++ [t] } := by
  have hpast : ∀ b ∈ s.threads ++ [t], b.past = false := by
    intro b hb
    rcases List.mem_append.mp hb with hb | hb
    · refine Bool.eq_false_iff.mpr fun hb' => ?_
      have hkind := Thread.past_closer hb'
      rw [hcloser b hb] at hkind
      cases hkind
    · rw [List.mem_singleton] at hb
      exact hb ▸ ht'
  have hnever : ∀ b ∈ s.threads ++ [t], b.past ≠ true := fun b hb => Bool.eq_false_iff.mp (hpast b hb)
  refine ⟨hlog, hrequested, fun b hb hb' => ?_, fun b hb hb' => ?_, ?_, fun b hb hb' => absurd hb' (hnever b hb),
    fun b hb hb' => absurd hb' (hnever b hb), fun hallow => absurd hallow hcleaning, ?_, ?_⟩
  · rcases List.mem_append.mp hb with hb | hb
    · exact hgranted b hb hb'
    · rw [List.mem_singleton] at hb
      subst hb
      rw [ht] at hb'
      cases hb'
  · rcases List.mem_append.mp hb with hb | hb
    · rw [hcloser b hb] at hb'
      cases hb'
    · rw [List.mem_singleton] at hb
      subst hb
      exact hexit hb'
  · have hnone : s.threads.countP Thread.isCloser = 0 := by
      rw [List.countP_eq_zero]
      exact fun b hb hb' => Bool.eq_false_iff.mp (hcloser b hb) hb'
    show (s.threads ++ [t]).countP Thread.isCloser ≤ 1
    rw [List.countP_append, hnone, Nat.zero_add]
    exact List.countP_le_length
  · exact hp ▸ hs.dropped
  · exact hp ▸ hs.processes

theorem Closing.next {s s' : State} {a : Action} (hs : Closing platform s) (hheld : Held s) (hok : orderly platform s a = true)
    (h : Change platform s a s') : Closing platform s' := by
  have hnone : s.shell.exit = .running → ∀ t ∈ s.threads, t.isCloser = false := by
    intro hexit t ht
    exact Bool.eq_false_iff.mpr fun hcloser => hs.closer t ht hcloser hexit
  cases h with
  | restart hexit =>
      exact hs.append s.shell rfl hs.prompt hs.requested hs.granted (by simp [hexit]) (hnone hexit) (.restart .requested)
        rfl rfl fun h => by cases h
  | close hexit =>
      refine hs.append ({ s.shell with exit := .cleaning }.note .exitRequested) rfl ?_ (fun _ => by simp [Shell.note]) ?_
        (by simp [Shell.note]) (hnone hexit) (.closer .beginning) rfl rfl fun _ => by simp [Shell.note]
      · exact hs.prompt.append fun _ p hp => by cases hp
      · intro t ht hgranted
        have hnot := List.all_eq_true.mp hok t ht
        rw [hgranted] at hnot
        cases hnot
  | again _ => exact hs
  | exits p =>
      refine ⟨hs.prompt, hs.requested, hs.granted, hs.closer, hs.one, hs.slot, hs.clear, hs.allowed, fun z hz hdropped => ?_,
        fun z hz => ?_⟩
      · rcases Lib.mem_modify_cases hz with ⟨y, _, rfl⟩ | hold
        · rfl
        · exact hs.dropped z hold hdropped
      · rcases Lib.mem_modify_cases hz with ⟨y, hy, rfl⟩ | hold
        · obtain ⟨hpipe, _, _, hasked, hsent, hwaited, hended, hforced, hunforced⟩ := hs.processes y (List.mem_of_getElem? hy)
          exact ⟨hpipe, fun _ => rfl, fun _ _ => rfl, hasked, hsent, hwaited, hended, hforced, hunforced⟩
        · exact hs.processes z hold
  | thread i input t t' sh' added hi _ heffect => exact hs.thread hheld hi heffect hok

theorem reachable_closing {s : State} (hs : ((machine platform).restrict fun s a => orderly platform s a).Reachable s) :
    Closing platform s :=
  hs.invariant_with (Q := Held) (fun hs => reachable_held hs.of_restrict) closing_start fun _ _ _ hc hh ha =>
    hc.next hh (Lib.Machine.restrict_next ha).1 (next_change (Lib.Machine.restrict_next ha).2)

theorem Closing.exited {s : State} (hs : Closing platform s) (hheld : Held s) (hallow : s.shell.exit = .allowExit) :
    ∀ process ∈ s.shell.processes, process.exited = true := by
  have hover := hs.allowed hallow
  have hslot := hs.slot _ hover rfl
  intro process hmem
  obtain ⟨p, hp⟩ := List.getElem?_of_mem hmem
  have hnone : s.threads.countP (Thread.holds p) = 0 := by
    rw [List.countP_eq_zero]
    intro b hb hholds
    have hheld : b.held = some p := of_decide_eq_true hholds
    cases hcloser : b.isCloser with
    | false =>
        rw [Thread.clear_held (hs.clear _ hover rfl b hb hcloser)] at hheld
        cases hheld
    | true =>
        -- the closing thread, which is done
        obtain ⟨i, hi⟩ := List.getElem?_of_mem hover
        obtain ⟨j, hj⟩ := List.getElem?_of_mem hb
        have hij := Lib.countP_unique hs.one hi hj rfl hcloser
        subst hij
        rw [hi] at hj
        cases hj
        cases hheld
  have hbalance := hheld.balance p
  rw [hnone, placed, hslot, lies_none, gone_some hp, Desktop.known, if_pos (List.getElem?_eq_some_iff.mp hp).1] at hbalance
  refine hs.dropped process hmem ?_
  by_contra hnot
  rw [if_neg hnot] at hbalance
  cases hbalance

-- A process that ran when its stop began has had its line when it is waited for, and its time when it is forced.
def OwnedProcess.Courteous (process : OwnedProcess) : Prop :=
  process.stoppedRunning = true →
    (process.stage ≠ .idle → process.stage ≠ .line → process.lineSent = true) ∧ (process.forced = true → process.graceOver = true)

-- No process is committed once the exit is requested, none is left when it is allowed, and each is stopped as it should.
def CleanExit (s : State) : Prop :=
  Prompt s.shell.log ∧ (s.shell.exit = .allowExit → ∀ process ∈ s.shell.processes, process.exited = true) ∧
    ∀ process ∈ s.shell.processes, process.Courteous

-- The exit is clean when it is not requested in the middle of a commit, nobody else has a process when the closing
-- thread looks at the lifecycle, and every process that is stopped can be told so, is given its time, and ends.
theorem exit_clean {s : State} (hs : ((machine platform).restrict fun s a => orderly platform s a).Reachable s) :
    CleanExit s := by
  have hclosing := reachable_closing hs
  refine ⟨hclosing.prompt, hclosing.exited (reachable_held hs.of_restrict), fun process hmem hran => ?_⟩
  have horderly := hclosing.processes process hmem
  exact ⟨horderly.sent hran, horderly.forced hran⟩

-- The window is closed on a ready sidecar, which answers its line.
def closedWell : List Action :=
  [Action.thread 0 .created] ++ starts 1 0 ++ [Action.close, .thread 2 .step, .thread 2 .step, .thread 2 .step, .exits 0,
    .thread 2 .exited, .thread 2 .step, .thread 2 .step, .thread 2 .step]

theorem exit_clean_closed : ∃ s : State,
    ((machine .unix).restrict fun s a => orderly .unix s a).run {} closedWell = some s ∧ s.shell.exit = .allowExit ∧
    s.shell.processes.length = 1 ∧ ∀ process ∈ s.shell.processes, process.exited = true ∧ process.Courteous := by
  have hrun : (((machine .unix).restrict fun s a => orderly .unix s a).run {} closedWell).map
      (fun s => (s.shell.exit, s.shell.processes.length)) = some (.allowExit, 1) := by decide
  obtain ⟨s, hrun, hfacts⟩ := Option.map_eq_some_iff.mp hrun
  obtain ⟨hexit, hlength⟩ := Prod.mk.inj hfacts
  obtain ⟨_, hexited, hcourteous⟩ := exit_clean ⟨closedWell, hrun⟩
  exact ⟨s, hrun, hexit, hlength, fun process hmem => ⟨hexited hexit process hmem, hcourteous process hmem⟩⟩

-- The pipe of a sidecar is looked for where it is not kept.
def closedSilently : List Action :=
  [Action.thread 0 .created] ++ starts 1 0 ++ [Action.close, .thread 2 .step, .thread 2 .step, .thread 2 .step]

def closedEarly : List Action :=
  [Action.thread 0 .created] ++ starts 1 0 ++ [Action.restart, .thread 2 .step, .thread 2 .created, .close, .thread 3 .step,
    .thread 3 .step]

theorem exit_not_clean :
    (¬ ∀ s : State, (machine .windows).Reachable s → CleanExit s) ∧
    ¬ ∀ s : State, (machine .unix).Reachable s → CleanExit s := by
  refine ⟨fun h => ?_, fun h => ?_⟩
  · have hrun : ((machine .windows).run {} closedSilently).map (fun s =>
        s.shell.processes.map fun process => (process.stoppedRunning, process.stage, process.lineSent)) =
        some [(true, .grace, false)] := by decide
    obtain ⟨s, hrun, hfacts⟩ := Option.map_eq_some_iff.mp hrun
    obtain ⟨process, hmem, hfact⟩ := List.mem_map.mp (hfacts ▸ List.mem_singleton_self (true, Stage.grace, false))
    obtain ⟨hran, hrest⟩ := Prod.mk.inj hfact
    obtain ⟨hstage, hline⟩ := Prod.mk.inj hrest
    have hsent := ((h s ⟨closedSilently, hrun⟩).2.2 process hmem hran).1 (by simp [hstage]) (by simp [hstage])
    rw [hline] at hsent
    cases hsent
  · have hrun : ((machine .unix).run {} closedEarly).map (fun s =>
        (s.shell.exit, s.shell.processes.map OwnedProcess.exited)) = some (.allowExit, [false]) := by decide
    obtain ⟨s, hrun, hfacts⟩ := Option.map_eq_some_iff.mp hrun
    obtain ⟨hexit, hprocesses⟩ := Prod.mk.inj hfacts
    obtain ⟨process, hmem, hrunning⟩ := List.mem_map.mp (hprocesses ▸ List.mem_singleton_self false)
    rw [(h s ⟨closedEarly, hrun⟩).2.1 hexit process hmem] at hrunning
    cases hrunning

end GaHub.Desktop
