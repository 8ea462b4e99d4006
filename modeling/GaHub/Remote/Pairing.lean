import GaHub.Remote.Worker

namespace GaHub.Remote.Worker

open Lib

variable {D R : Type} {compact : D → Option R} {s t : State D R} {i : CallId} {c : Call D R}

def Stage.inside : Stage R → Bool
  | .spawning | .writing _ | .draining _ | .reading _ | .killing _ => true
  | _ => false

def Stage.worker? : Stage R → Option WorkerId
  | .writing w | .draining w | .reading w | .killing w => some w
  | _ => none

def Stage.asked : Stage R → Option WorkerId
  | .draining w | .reading w | .killing w => some w
  | _ => none

theorem inside_of_worker? {stage : Stage R} {w : WorkerId} (h : stage.worker? = some w) : stage.inside = true := by
  cases stage <;> simp_all [Stage.worker?, Stage.inside]

theorem inside_of_asked {stage : Stage R} {w : WorkerId} (h : stage.asked = some w) : stage.inside = true := by
  cases stage <;> simp_all [Stage.asked, Stage.inside]

-- A call that has written its request is not cancelled before the answer is read or the worker is gone.
def Uninterrupted (s : State D R) : Action D → Prop
  | .cancel i => (s.calls[i]?.bind fun c => c.stage.asked) = none
  | _ => True

instance : ∀ (s : State D R) a, Decidable (Uninterrupted s a)
  | s, .cancel i => inferInstanceAs (Decidable ((s.calls[i]?.bind fun c => c.stage.asked) = none))
  | _, .arrive _ | _, .acquire .. | _, .spawned _ | _, .write _ | _, .drained _ | _, .read _ | _, .fault _
  | _, .reaped _ | _, .answer _ | _, .die _ | _, .notice _ => inferInstanceAs (Decidable True)

def traffic (p : Process D R) : List CallId := p.stdin.map Prod.fst ++ p.stdout.map Line.origin

structure Inv (compact : D → Option R) (s : State D R) : Prop where
  owned : ∀ (i : CallId) (c : Call D R), s.calls[i]? = some c → c.stage.inside = true → s.owner = some i
  current : ∀ (i : CallId) (c : Call D R) w, s.calls[i]? = some c → c.stage.worker? = some w → s.worker = some w
  quiet : ∀ (w : WorkerId) (p : Process D R), s.worker = some w → s.processes[w]? = some p →
    traffic p = [] ∨ ∃ (i : CallId) (c : Call D R), s.calls[i]? = some c ∧ c.stage.asked = some w ∧ traffic p = [i]
  asked : ∀ (w : WorkerId) (p : Process D R), s.processes[w]? = some p → ∀ e ∈ p.stdin,
    ∃ c, s.calls[e.1]? = some c ∧ c.data = e.2
  answers : ∀ (w : WorkerId) (p : Process D R), s.processes[w]? = some p → ∀ line ∈ p.stdout,
    ∃ c, s.calls[line.origin]? = some c ∧ line.result = compact c.data
  returned : ∀ (i : CallId) (c : Call D R) line, s.calls[i]? = some c → c.stage = .returned line →
    line.origin = i ∧ line.result = compact c.data
  bounded : ∀ w, s.worker = some w → w < s.processes.length

theorem getElem?_setStage (stage : Stage R) (j : CallId) :
    (s.setStage i stage).calls[j]? = if i = j then (s.calls[j]?).map fun c => { c with stage } else s.calls[j]? := by
  rw [State.setStage, List.getElem?_modify]
  split <;> simp_all

theorem setStage_cases {stage : Stage R} {j : CallId} {d : Call D R}
    (hd : (s.calls.modify i fun c => { c with stage })[j]? = some d) (hi : s.calls[i]? = some c) :
    (j = i ∧ d = { c with stage }) ∨ (j ≠ i ∧ s.calls[j]? = some d) := by
  have h := getElem?_setStage (s := s) (i := i) stage j
  rw [State.setStage] at h
  rw [h] at hd
  split at hd
  · rename_i hij
    subst hij
    rw [hi] at hd
    exact Or.inl ⟨rfl, (Option.some.inj hd).symm⟩
  · rename_i hij
    exact Or.inr ⟨fun h => hij h.symm, hd⟩

theorem data_setStage (stage : Stage R) {j : CallId} {d : Call D R} (hd : s.calls[j]? = some d) :
    ∃ e, (s.calls.modify i fun c => { c with stage })[j]? = some e ∧ e.data = d.data := by
  rw [List.getElem?_modify, hd]
  split
  · exact ⟨_, rfl, rfl⟩
  · exact ⟨_, rfl, rfl⟩

namespace Inv

theorem alone (h : Inv compact s) (howner : s.owner = none ∨ s.owner = some i) {j : CallId} {d : Call D R}
    (hd : s.calls[j]? = some d) (hinside : d.stage.inside = true) : j = i := by
  have howned := h.owned j d hd hinside
  rcases howner with hnone | hsome
  · rw [hnone] at howned
    cases howned
  · rw [hsome] at howned
    exact (Option.some.inj howned).symm

theorem move (h : Inv compact s) (hi : s.calls[i]? = some c) (halone : s.owner = none ∨ s.owner = some i) {stage : Stage R}
    {owner : Option CallId} {worker : Option WorkerId} (howner : stage.inside = true → owner = some i)
    (hworker : ∀ w, stage.worker? = some w → worker = some w)
    (hquiet : ∀ w p, worker = some w → s.processes[w]? = some p →
      traffic p = [] ∨ stage.asked = some w ∧ traffic p = [i])
    (hreturned : ∀ line, stage = .returned line → line.origin = i ∧ line.result = compact c.data)
    (hbounded : ∀ w, worker = some w → w < s.processes.length) :
    Inv compact { s.setStage i stage with owner, worker } := by
  refine ⟨?_, ?_, ?_, ?_, ?_, ?_, hbounded⟩
  · intro j d hd hinside
    rcases setStage_cases hd hi with ⟨rfl, rfl⟩ | ⟨hne, hd⟩
    · exact howner hinside
    · exact absurd (h.alone halone hd hinside) hne
  · intro j d w hd hw
    rcases setStage_cases hd hi with ⟨rfl, rfl⟩ | ⟨hne, hd⟩
    · exact hworker w hw
    · exact absurd (h.alone halone hd (inside_of_worker? hw)) hne
  · intro w p hw hp
    refine (hquiet w p hw hp).imp_right fun ⟨hasked, htraffic⟩ => ?_
    refine ⟨i, { c with stage }, ?_, hasked, htraffic⟩
    change (s.setStage i stage).calls[i]? = _
    rw [getElem?_setStage, if_pos rfl, hi]
    rfl
  · intro w p hp e he
    obtain ⟨d, hd, hdata⟩ := h.asked w p hp e he
    obtain ⟨d', hd', hdata'⟩ := data_setStage (i := i) stage hd
    exact ⟨d', hd', hdata'.trans hdata⟩
  · intro w p hp line hline
    obtain ⟨d, hd, hresult⟩ := h.answers w p hp line hline
    obtain ⟨d', hd', hdata⟩ := data_setStage (i := i) stage hd
    exact ⟨d', hd', by rw [hdata, hresult]⟩
  · intro j d line hd hline
    rcases setStage_cases hd hi with ⟨rfl, rfl⟩ | ⟨-, hd⟩
    · exact hreturned line hline
    · exact h.returned j d line hd hline

-- Something happens to the processes: the pipes still hold answers and requests of calls, and no other traffic.
theorem reprocess (h : Inv compact s) {w : WorkerId} {f : Process D R → Process D R}
    (htraffic : ∀ p, s.processes[w]? = some p →
      traffic (f p) = traffic p ∨ s.worker ≠ some w)
    (hstdin : ∀ p, s.processes[w]? = some p → ∀ e ∈ (f p).stdin, e ∈ p.stdin)
    (hstdout : ∀ p, s.processes[w]? = some p → ∀ line ∈ (f p).stdout, line ∈ p.stdout ∨
      ∃ e ∈ p.stdin, line = ⟨e.1, compact e.2⟩) : Inv compact (s.modifyProcess w f) := by
  have hcases : ∀ v p, (s.modifyProcess w f).processes[v]? = some p →
      (v = w ∧ ∃ q, s.processes[w]? = some q ∧ p = f q) ∨ s.processes[v]? = some p := by
    intro v p hp
    rw [State.modifyProcess, List.getElem?_modify] at hp
    by_cases hv : w = v
    · subst hv
      simp only [if_true] at hp
      obtain ⟨q, hq, rfl⟩ := Option.map_eq_some_iff.mp hp
      exact Or.inl ⟨rfl, q, hq, rfl⟩
    · simp only [hv, if_false] at hp
      exact Or.inr (by simpa using hp)
  refine ⟨h.owned, h.current, ?_, ?_, ?_, h.returned, ?_⟩
  · intro v p hv hp
    rcases hcases v p hp with ⟨rfl, q, hq, rfl⟩ | hp
    · rcases htraffic q hq with hsame | hother
      · rw [hsame]
        exact h.quiet v q hv hq
      · exact absurd hv hother
    · exact h.quiet v p hv hp
  · intro v p hp e he
    rcases hcases v p hp with ⟨rfl, q, hq, rfl⟩ | hp
    · exact h.asked v q hq e (hstdin q hq e he)
    · exact h.asked v p hp e he
  · intro v p hp line hline
    rcases hcases v p hp with ⟨rfl, q, hq, rfl⟩ | hp
    · rcases hstdout q hq line hline with hline | ⟨e, he, rfl⟩
      · exact h.answers v q hq line hline
      · obtain ⟨d, hd, hdata⟩ := h.asked v q hq e he
        exact ⟨d, hd, by rw [hdata]⟩
    · exact h.answers v p hp line hline
  · intro v hv
    rw [State.modifyProcess, List.length_modify]
    exact h.bounded v hv

theorem traffic_of_owner (h : Inv compact s) (hi : s.calls[i]? = some c) (halone : s.owner = none ∨ s.owner = some i)
    {w : WorkerId} {p : Process D R} (hw : s.worker = some w) (hp : s.processes[w]? = some p) :
    traffic p = [] ∨ c.stage.asked = some w ∧ traffic p = [i] := by
  refine (h.quiet w p hw hp).imp_right ?_
  rintro ⟨j, d, hj, hasked, htraffic⟩
  obtain rfl := h.alone halone hj (inside_of_asked hasked)
  rw [hi] at hj
  cases hj
  exact ⟨hasked, htraffic⟩

theorem setStage_self (h : Inv compact s) (hi : s.calls[i]? = some c) {stage : Stage R} (howner : s.owner = some i)
    (hworker : ∀ w, stage.worker? = some w → s.worker = some w)
    (hasked : ∀ w, s.worker = some w → c.stage.asked = some w → stage.asked = some w)
    (hreturned : ∀ line, stage ≠ .returned line) : Inv compact (s.setStage i stage) := by
  refine h.move hi (.inr howner) (fun _ => howner) hworker (fun w p hw hp => ?_)
    (fun line hline => absurd hline (hreturned line)) h.bounded
  refine (h.traffic_of_owner hi (.inr howner) hw hp).imp_right fun ⟨hold, htraffic⟩ => ?_
  exact ⟨hasked w hw hold, htraffic⟩

theorem abandon (h : Inv compact s) (hi : s.calls[i]? = some c) (halone : s.owner = none ∨ s.owner = some i)
    {stage : Stage R} (houtside : stage.inside = false) (hreturned : ∀ line, stage ≠ .returned line) :
    Inv compact { s.finish i stage with worker := none } := by
  refine h.move hi halone (fun hinside => ?_) (fun w hw => ?_) (fun w p hw _ => by cases hw)
    (fun line hline => absurd hline (hreturned line)) (fun w hw => by cases hw)
  · rw [houtside] at hinside
    cases hinside
  · rw [inside_of_worker? hw] at houtside
    cases houtside

theorem leave (h : Inv compact s) (hi : s.calls[i]? = some c) (halone : s.owner = none ∨ s.owner = some i)
    {stage : Stage R} (houtside : stage.inside = false)
    (hclean : ∀ w p, s.worker = some w → s.processes[w]? = some p → traffic p = [])
    (hreturned : ∀ line, stage = .returned line → line.origin = i ∧ line.result = compact c.data) :
    Inv compact (s.finish i stage) := by
  refine h.move hi halone (fun hinside => ?_) (fun w hw => ?_) (fun w p hw hp => .inl (hclean w p hw hp)) hreturned
    h.bounded
  · rw [houtside] at hinside
    cases hinside
  · rw [inside_of_worker? hw] at houtside
    cases houtside

theorem except (h : Inv compact s) (hi : s.calls[i]? = some c) (howner : s.owner = some i) {ww : Option WorkerId}
    (hlocal : ∀ w, ww = some w → s.worker = some w) : Inv compact (s.except i ww) := by
  have habandon : Inv compact { s.finish i .failed with worker := none } := h.abandon hi (.inr howner) rfl (by simp)
  unfold State.except
  split
  · exact habandon
  · rename_i w
    have hw := hlocal w rfl
    split
    · exact habandon
    · split
      · exact habandon
      · have hkilled : Inv compact (s.modifyProcess w fun p => { p with alive := false }) :=
          h.reprocess (fun _ _ => .inl rfl) (fun _ _ _ he => he) fun _ _ _ hline => .inl hline
        refine hkilled.setStage_self hi howner (fun v hv => ?_) (fun v hv _ => ?_) (by simp)
        · cases hv
          exact hw
        · obtain rfl := Option.some.inj (hw.symm.trans hv)
          rfl

theorem acquire (h : Inv compact s) (hi : s.calls[i]? = some c) (hwaiting : c.stage = .waiting) (hfree : s.owner = none)
    (node : Bool) : Inv compact (s.acquire i node) := by
  have hclean : ∀ w p, s.worker = some w → s.processes[w]? = some p → traffic p = [] := by
    intro w p hw hp
    refine (h.traffic_of_owner hi (.inl hfree) hw hp).resolve_right ?_
    rintro ⟨hasked, -⟩
    rw [hwaiting] at hasked
    cases hasked
  have houtside : ∀ (j : CallId) (d : Call D R), s.calls[j]? = some d → d.stage.inside ≠ true := by
    intro j d hd hinside
    have howned := h.owned j d hd hinside
    rw [hfree] at howned
    cases howned
  have hlocked : Inv compact { s with owner := some i } :=
    ⟨fun j d hd hinside => absurd hinside (houtside j d hd), h.current, h.quiet, h.asked, h.answers, h.returned,
      h.bounded⟩
  have hunasked : ∀ w, s.worker = some w → c.stage.asked = some w → False := by
    intro w _ hasked
    rw [hwaiting] at hasked
    cases hasked
  unfold State.acquire
  dsimp only
  split
  · rename_i w hw
    have hw' := (Option.filter_eq_some_iff.mp hw).1
    refine hlocked.setStage_self hi rfl (fun v hv => ?_) (fun v hv ha => (hunasked v hv ha).elim) (by simp)
    cases hv
    exact hw'
  · rename_i hnone
    split
    · exact hlocked.setStage_self hi rfl (fun v hv => by cases hv) (fun v hv ha => (hunasked v hv ha).elim) (by simp)
    · exact hlocked.except hi rfl fun w hw => hw

theorem spawned (h : Inv compact s) (hi : s.calls[i]? = some c) (hspawning : c.stage = .spawning) :
    Inv compact (s.spawned i) := by
  have howner : s.owner = some i := h.owned i c hi (by rw [hspawning]; rfl)
  have hgrown : Inv compact { s with processes := s.processes ++ [{}] } := by
    have hold : ∀ (w : WorkerId) (p : Process D R), (s.processes ++ [({} : Process D R)])[w]? = some p →
        s.processes[w]? = some p ∨ p = {} := by
      intro w p hp
      rcases Nat.lt_or_ge w s.processes.length with hlt | hge
      · rw [List.getElem?_append_left hlt] at hp
        exact .inl hp
      · rw [List.getElem?_append_right hge] at hp
        exact .inr (List.mem_singleton.mp (List.mem_of_getElem? hp))
    refine ⟨h.owned, h.current, ?_, ?_, ?_, h.returned, ?_⟩
    · intro w p hw hp
      rcases hold w p hp with hp | rfl
      · exact h.quiet w p hw hp
      · exact .inl rfl
    · intro w p hp e he
      rcases hold w p hp with hp | rfl
      · exact h.asked w p hp e he
      · cases he
    · intro w p hp line hline
      rcases hold w p hp with hp | rfl
      · exact h.answers w p hp line hline
      · cases hline
    · intro w hw
      exact Nat.lt_of_lt_of_le (h.bounded w hw) (by simp)
  refine hgrown.move hi (.inr howner) (fun _ => howner) (fun w hw => ?_) (fun w p hw hp => .inl ?_)
    (fun line hline => by cases hline) (fun w hw => ?_)
  · cases hw
    rfl
  · cases hw
    rw [List.getElem?_concat_length] at hp
    cases hp
    rfl
  · cases hw
    simp

theorem write (h : Inv compact s) (hi : s.calls[i]? = some c) {w : WorkerId} (hwriting : c.stage = .writing w) :
    Inv compact (s.write i c.data w) := by
  have howner : s.owner = some i := h.owned i c hi (by rw [hwriting]; rfl)
  have hw : s.worker = some w := h.current i c w hi (by rw [hwriting]; rfl)
  have hclean : ∀ p, s.processes[w]? = some p → traffic p = [] := by
    intro p hp
    refine (h.traffic_of_owner hi (.inr howner) hw hp).resolve_right ?_
    rintro ⟨hasked, -⟩
    rw [hwriting] at hasked
    cases hasked
  -- the invariant without the new line, and then the line that the call is waiting for
  have hmoved : Inv compact (s.setStage i (.draining w)) :=
    h.setStage_self hi howner (fun v hv => by cases hv; exact hw)
      (fun v _ ha => by rw [hwriting] at ha; cases ha) (by simp)
  have hi' : (s.setStage i (.draining w)).calls[i]? = some { c with stage := .draining w } := by
    rw [getElem?_setStage, if_pos rfl, hi]
    rfl
  have hcases : ∀ v p, (s.write i c.data w).processes[v]? = some p →
      (v = w ∧ traffic p = [i] ∧ p.stdin = [(i, c.data)] ∧ p.stdout = []) ∨ s.processes[v]? = some p := by
    intro v p hp
    change (s.processes.modify w _)[v]? = some p at hp
    rw [List.getElem?_modify] at hp
    by_cases hv : w = v
    · subst hv
      simp only [if_true] at hp
      obtain ⟨q, hq, rfl⟩ := Option.map_eq_some_iff.mp hp
      have hempty := hclean q hq
      simp only [traffic, List.append_eq_nil_iff, List.map_eq_nil_iff] at hempty
      cases halive : q.alive with
      | false =>
          rw [if_neg (by simp)]
          exact .inr hq
      | true =>
          rw [if_pos rfl]
          exact .inl ⟨rfl, by simp [traffic, hempty.1, hempty.2], by simp [hempty.1], hempty.2⟩
    · exact .inr (by simpa [hv] using hp)
  refine ⟨hmoved.owned, hmoved.current, ?_, ?_, ?_, hmoved.returned, ?_⟩
  · intro v p hv hp
    rcases hcases v p hp with ⟨rfl, htraffic, -, -⟩ | hp
    · exact .inr ⟨i, _, hi', rfl, htraffic⟩
    · exact hmoved.quiet v p hv hp
  · intro v p hp e he
    rcases hcases v p hp with ⟨-, -, hstdin, -⟩ | hp
    · rw [hstdin] at he
      rw [List.mem_singleton.mp he]
      exact ⟨_, hi', rfl⟩
    · exact hmoved.asked v p hp e he
  · intro v p hp line hline
    rcases hcases v p hp with ⟨-, -, -, hstdout⟩ | hp
    · rw [hstdout] at hline
      cases hline
    · exact hmoved.answers v p hp line hline
  · intro v hv
    change v < (s.processes.modify w _).length
    rw [List.length_modify]
    exact h.bounded v hv

theorem read (h : Inv compact s) (hi : s.calls[i]? = some c) {w : WorkerId} (hreading : c.stage = .reading w)
    (hread : s.read i w = some t) : Inv compact t := by
  have howner : s.owner = some i := h.owned i c hi (by rw [hreading]; rfl)
  have hw : s.worker = some w := h.current i c w hi (by rw [hreading]; rfl)
  obtain ⟨p, hp, hline⟩ := Option.bind_eq_some_iff.mp hread
  cases hstdout : p.stdout with
  | nil => simp [hstdout] at hline
  | cons line rest =>
      simp only [hstdout, Option.some.injEq] at hline
      subst hline
      -- the line is the only traffic there is
      have htraffic := h.traffic_of_owner hi (.inr howner) hw hp
      have honly : p.stdin = [] ∧ rest = [] ∧ line.origin = i := by
        rcases htraffic with hnone | ⟨-, hone⟩
        · simp [traffic, hstdout] at hnone
        · have hlength := congrArg List.length hone
          simp only [traffic, hstdout, List.length_append, List.length_map, List.length_cons, List.length_nil] at hlength
          have hstdin : p.stdin = [] := List.eq_nil_of_length_eq_zero (by omega)
          have hrest : rest = [] := List.eq_nil_of_length_eq_zero (by omega)
          simp only [traffic, hstdout, hstdin, hrest, List.map_nil, List.map_cons, List.nil_append, List.cons.injEq,
            and_true] at hone
          exact ⟨hstdin, hrest, hone⟩
      obtain ⟨hstdin, rfl, horigin⟩ := honly
      obtain ⟨d, hd, hresult⟩ := h.answers w p hp line (by simp [hstdout])
      rw [horigin, hi] at hd
      cases hd
      have hread : Inv compact (s.modifyProcess w fun p => { p with stdout := [] }) := by
        have hpop : ∀ (v : WorkerId) (q : Process D R),
            (s.modifyProcess w fun p => { p with stdout := [] }).processes[v]? = some q →
            (v = w ∧ q = { p with stdout := [] }) ∨ s.processes[v]? = some q := by
          intro v q hq
          rw [State.modifyProcess, List.getElem?_modify] at hq
          by_cases hv : w = v
          · subst hv
            simp only [if_true] at hq
            obtain ⟨q', hq', rfl⟩ := Option.map_eq_some_iff.mp hq
            rw [hp] at hq'
            cases hq'
            exact .inl ⟨rfl, rfl⟩
          · exact .inr (by simpa [hv] using hq)
        refine ⟨h.owned, h.current, ?_, ?_, ?_, h.returned, ?_⟩
        · intro v q hv hq
          rcases hpop v q hq with ⟨rfl, rfl⟩ | hq
          · exact .inl (by simp [traffic, hstdin])
          · exact h.quiet v q hv hq
        · intro v q hq e he
          rcases hpop v q hq with ⟨rfl, rfl⟩ | hq
          · exact h.asked v p hp e he
          · exact h.asked v q hq e he
        · intro v q hq e he
          rcases hpop v q hq with ⟨rfl, rfl⟩ | hq
          · cases he
          · exact h.answers v q hq e he
        · intro v hv
          rw [State.modifyProcess, List.length_modify]
          exact h.bounded v hv
      split
      · refine hread.leave hi (.inr howner) rfl (fun v q hv hq => ?_) fun line' hline' => ?_
        · obtain rfl := Option.some.inj (hw.symm.trans hv)
          rw [State.modifyProcess, List.getElem?_modify_eq, hp] at hq
          cases hq
          simp [traffic, hstdin]
        · cases hline'
          exact ⟨horigin, hresult⟩
      · exact hread.except hi howner fun v hv => by cases hv; exact hw

theorem next (h : Inv compact s) {a : Action D} (hok : Uninterrupted s a) (hnext : Worker.next compact s a = some t) :
    Inv compact t := by
  cases a with
  | arrive data =>
      obtain rfl := Option.some.inj hnext
      have hgrown : ∀ (j : CallId) (d : Call D R), (s.calls ++ [({ data } : Call D R)])[j]? = some d →
          s.calls[j]? = some d ∨ d = { data } := by
        intro j d hd
        rcases Nat.lt_or_ge j s.calls.length with hlt | hge
        · rw [List.getElem?_append_left hlt] at hd
          exact .inl hd
        · rw [List.getElem?_append_right hge] at hd
          exact .inr (List.mem_singleton.mp (List.mem_of_getElem? hd))
      have hkept : ∀ (j : CallId) (d : Call D R), s.calls[j]? = some d →
          (s.calls ++ [({ data } : Call D R)])[j]? = some d := by
        intro j d hd
        rw [List.getElem?_append_left (List.getElem?_eq_some_iff.mp hd).1]
        exact hd
      refine ⟨?_, ?_, ?_, ?_, ?_, ?_, h.bounded⟩
      · intro j d hd hinside
        rcases hgrown j d hd with hd | rfl
        · exact h.owned j d hd hinside
        · cases hinside
      · intro j d w hd hw
        rcases hgrown j d hd with hd | rfl
        · exact h.current j d w hd hw
        · cases hw
      · intro w p hw hp
        refine (h.quiet w p hw hp).imp_right ?_
        rintro ⟨j, d, hd, hasked, htraffic⟩
        exact ⟨j, d, hkept j d hd, hasked, htraffic⟩
      · intro w p hp e he
        obtain ⟨d, hd, hdata⟩ := h.asked w p hp e he
        exact ⟨d, hkept _ d hd, hdata⟩
      · intro w p hp line hline
        obtain ⟨d, hd, hresult⟩ := h.answers w p hp line hline
        exact ⟨d, hkept _ d hd, hresult⟩
      · intro j d line hd hline
        rcases hgrown j d hd with hd | rfl
        · exact h.returned j d line hd hline
        · cases hline
  | acquire i node =>
      obtain ⟨c, hi, hc⟩ := Option.bind_eq_some_iff.mp hnext
      cases hstage : c.stage <;> simp only [hstage] at hc <;> try cases hc
      split at hc
      · rename_i hfree
        obtain rfl := Option.some.inj hc
        exact h.acquire hi hstage (Option.isNone_iff_eq_none.mp hfree) node
      · cases hc
  | spawned i =>
      obtain ⟨c, hi, hc⟩ := Option.bind_eq_some_iff.mp hnext
      cases hstage : c.stage <;> simp only [hstage] at hc <;> cases hc
      exact h.spawned hi hstage
  | write i =>
      obtain ⟨c, hi, hc⟩ := Option.bind_eq_some_iff.mp hnext
      cases hstage : c.stage <;> simp only [hstage] at hc <;> cases hc
      exact h.write hi hstage
  | drained i =>
      obtain ⟨c, hi, hc⟩ := Option.bind_eq_some_iff.mp hnext
      cases hstage : c.stage <;> simp only [hstage] at hc <;> cases hc
      refine h.setStage_self hi (h.owned i c hi (by rw [hstage]; rfl)) (fun v hv => ?_) (fun v _ ha => ?_) (by simp)
      · exact h.current i c v hi (by rw [hstage]; exact hv)
      · rw [hstage] at ha
        exact ha
  | read i =>
      obtain ⟨c, hi, hc⟩ := Option.bind_eq_some_iff.mp hnext
      cases hstage : c.stage <;> simp only [hstage] at hc <;> try cases hc
      exact h.read hi hstage hc
  | fault i =>
      obtain ⟨c, hi, hc⟩ := Option.bind_eq_some_iff.mp hnext
      cases hstage : c.stage <;> simp only [hstage] at hc <;> cases hc
      · exact h.except hi (h.owned i c hi (by rw [hstage]; rfl)) fun w hw => hw
      all_goals
        refine h.except hi (h.owned i c hi (by rw [hstage]; rfl)) fun v hv => ?_
        exact h.current i c v hi (by rw [hstage]; exact hv)
  | reaped i =>
      obtain ⟨c, hi, hc⟩ := Option.bind_eq_some_iff.mp hnext
      cases hstage : c.stage <;> simp only [hstage] at hc <;> cases hc
      rename_i w
      have hended : Inv compact (s.modifyProcess w fun p => { p with returncode := true }) :=
        h.reprocess (fun _ _ => .inl rfl) (fun _ _ _ he => he) fun _ _ _ hline => .inl hline
      exact hended.abandon hi (.inr (h.owned i c hi (by rw [hstage]; rfl))) rfl (by simp)
  | cancel i =>
      obtain ⟨c, hi, hc⟩ := Option.bind_eq_some_iff.mp hnext
      have hunasked : c.stage.asked = none := by
        simpa [Uninterrupted, hi] using hok
      have hleave : c.stage.inside = true → Inv compact (s.finish i .cancelled) := by
        intro hinside
        have howner := h.owned i c hi hinside
        refine h.leave hi (.inr howner) rfl (fun w p hw hp => ?_) (by simp)
        refine (h.traffic_of_owner hi (.inr howner) hw hp).resolve_right ?_
        rintro ⟨hasked, -⟩
        rw [hunasked] at hasked
        cases hasked
      cases hstage : c.stage <;> simp only [hstage] at hc <;> cases hc
      · -- a call that waits for the lock owns nothing
        refine ⟨?_, ?_, ?_, ?_, ?_, ?_, h.bounded⟩
        · intro j d hd hinside
          rcases setStage_cases hd hi with ⟨rfl, rfl⟩ | ⟨-, hd⟩
          · cases hinside
          · exact h.owned j d hd hinside
        · intro j d w hd hw
          rcases setStage_cases hd hi with ⟨rfl, rfl⟩ | ⟨-, hd⟩
          · cases hw
          · exact h.current j d w hd hw
        · intro w p hw hp
          refine (h.quiet w p hw hp).imp_right ?_
          rintro ⟨j, d, hd, hasked, htraffic⟩
          refine ⟨j, d, ?_, hasked, htraffic⟩
          rw [getElem?_setStage, if_neg ?_, hd]
          rintro rfl
          rw [hi] at hd
          cases hd
          rw [hstage] at hasked
          cases hasked
        · intro w p hp e he
          obtain ⟨d, hd, hdata⟩ := h.asked w p hp e he
          obtain ⟨d', hd', hdata'⟩ := data_setStage (i := i) .cancelled hd
          exact ⟨d', hd', hdata'.trans hdata⟩
        · intro w p hp line hline
          obtain ⟨d, hd, hresult⟩ := h.answers w p hp line hline
          obtain ⟨d', hd', hdata⟩ := data_setStage (i := i) .cancelled hd
          exact ⟨d', hd', by rw [hdata, hresult]⟩
        · intro j d line hd hline
          rcases setStage_cases hd hi with ⟨rfl, rfl⟩ | ⟨-, hd⟩
          · cases hline
          · exact h.returned j d line hd hline
      all_goals exact hleave (by rw [hstage]; rfl)
  | answer w =>
      obtain ⟨p, hp, hc⟩ := Option.bind_eq_some_iff.mp hnext
      split at hc
      · cases hstdin : p.stdin with
        | nil => simp [hstdin] at hc
        | cons e rest =>
            obtain ⟨origin, data⟩ := e
            simp only [hstdin, Option.some.injEq] at hc
            subst hc
            have hsame : ∀ q, s.processes[w]? = some q → q = p := by
              intro q hq
              rw [hp] at hq
              exact (Option.some.inj hq).symm
            refine h.reprocess (fun q hq => ?_) (fun q hq e he => ?_) fun q hq line hline => ?_
            · obtain rfl := hsame q hq
              by_cases hw : s.worker = some w
              · left
                -- there is one request at most
                have hone : rest = [] ∧ q.stdout = [] := by
                  rcases h.quiet w q hw hp with hnone | ⟨j, d, -, -, hone⟩
                  · simp [traffic, hstdin] at hnone
                  · have hlength := congrArg List.length hone
                    simp only [traffic, hstdin, List.length_append, List.length_map, List.length_cons,
                      List.length_nil] at hlength
                    exact ⟨List.eq_nil_of_length_eq_zero (by omega), List.eq_nil_of_length_eq_zero (by omega)⟩
                simp [traffic, hstdin, hone.1, hone.2]
              · exact .inr hw
            · obtain rfl := hsame q hq
              rw [hstdin]
              exact List.mem_cons_of_mem _ he
            · obtain rfl := hsame q hq
              rcases List.mem_append.mp hline with hline | hline
              · exact .inl hline
              · exact .inr ⟨(origin, data), by simp [hstdin], List.mem_singleton.mp hline⟩
      · cases hc
  | die w =>
      obtain ⟨p, -, rfl⟩ := Option.map_eq_some_iff.mp hnext
      exact h.reprocess (fun _ _ => .inl rfl) (fun _ _ _ he => he) fun _ _ _ hline => .inl hline
  | notice w =>
      obtain ⟨p, -, hc⟩ := Option.bind_eq_some_iff.mp hnext
      split at hc
      · cases hc
      · obtain rfl := Option.some.inj hc
        exact h.reprocess (fun _ _ => .inl rfl) (fun _ _ _ he => he) fun _ _ _ hline => .inl hline

end Inv

theorem inv_start : Inv compact ({} : State D R) := by
  constructor <;> simp

-- For every interleaving of calls on one lane, with faults, timeouts and dying workers anywhere: a call that returns
-- has read the answer to its own request.
theorem answers_own (compact : D → Option R) {s : State D R}
    (h : ((machine compact).restrict Uninterrupted).Reachable s) {i : CallId} {c : Call D R} {line : Line R}
    (hi : s.calls[i]? = some c) (hline : c.stage = .returned line) :
    line.origin = i ∧ line.result = compact c.data := by
  have hinv : Inv compact s := by
    refine h.invariant inv_start fun s a t hs hnext => ?_
    obtain ⟨hok, hnext⟩ := Machine.restrict_next hnext
    exact hs.next hok hnext
  exact hinv.returned i c line hi hline

def asking (i : CallId) (data : String) : List (Action String) := [.arrive data, .acquire i true]

def answered (i : CallId) : List (Action String) := [.write i, .drained i, .answer 0, .read i]

theorem answers_own_run : ∃ (s : State String String) (line : Line String),
    ((machine some).restrict Uninterrupted).Reachable s ∧ s.calls[0]? = some ⟨"a", .returned line⟩ ∧
    line.origin = 0 ∧ line.result = some "a" := by
  have hrun : (((machine (R := String) some).restrict Uninterrupted).run {}
      (asking 0 "a" ++ .spawned 0 :: answered 0)).map (fun s => s.calls[0]?) =
      some (some ⟨"a", .returned ⟨0, some "a"⟩⟩) := by
    decide
  obtain ⟨s, hs, heq⟩ := Option.map_eq_some_iff.mp hrun
  exact ⟨s, ⟨0, some "a"⟩, ⟨_, hs⟩, heq, answers_own some ⟨_, hs⟩ heq rfl⟩

-- The call for "a" is cancelled while it waits for its answer; the call for "b" reads it.
theorem answer_of_another : ∃ s : State String String, (machine some).Reachable s ∧
    s.calls[1]? = some ⟨"b", .returned ⟨0, some "a"⟩⟩ := by
  have hrun : ((machine (R := String) some).run {}
      (asking 0 "a" ++ [Action.spawned 0, .write 0, .drained 0, .cancel 0] ++ asking 1 "b" ++ answered 1)).map
        (fun s => s.calls[1]?) = some (some ⟨"b", .returned ⟨0, some "a"⟩⟩) := by
    decide
  obtain ⟨s, hs, heq⟩ := Option.map_eq_some_iff.mp hrun
  exact ⟨s, ⟨_, hs⟩, heq⟩

end GaHub.Remote.Worker
