import Mathlib.Logic.Function.Basic
import Mathlib.Tactic.Common
import GaHub.Lib.Machine

namespace GaHub.Engine

open Lib

abbrev CallId := Nat
abbrev Child := Nat

-- What `is_healthy` does: it raises where the engine answers but is incompatible.
inductive Health where
  | healthy
  | unhealthy
  | incompatible
  deriving DecidableEq

inductive End where
  | returned
  | processError
  | external
  -- `stop` has returned
  | stopped
  deriving DecidableEq

-- Where a call of `ensure_running` or `stop` is.
inductive Stage where
  | unborn
  | probing
  | waiting
  -- under the lock: before the second health check, between reaping the old child and `self._proc = None`, before
  -- the spawn, in the startup loop, after finding the child exited, and between reaping it and `self._proc = None`
  | checking
  | replacing
  | preparing
  | starting (child : Child)
  | exiting (child : Child)
  | failing
  -- after a timeout, the lock given back: before `detail`, within it, after it, and after the reap
  | timedOut (child : Child)
  | describing (child : Child)
  | described (child : Child)
  | clearing
  | stopping
  | reaping (child : Child)
  | done (e : End)
  deriving DecidableEq

namespace Stage

def locks : Stage → Bool
  | checking => true
  | replacing => true
  | preparing => true
  | starting _ => true
  | exiting _ => true
  | failing => true
  | _ => false

def late : Stage → Bool
  | timedOut _ => true
  | describing _ => true
  | described _ => true
  | clearing => true
  | _ => false

end Stage

structure Manager where
  -- `self._proc`
  proc : Option Child := none
  lock : Option CallId := none
  fresh : Child := 0
  calls : List CallId := []
  stage : CallId → Stage := fun _ => .unborn
  spawns : List (CallId × Child) := []
  -- the children taken over under the lock
  takes : List (CallId × Child) := []
  reaps : List (CallId × Child) := []
  -- the calls whose last health check was successful
  sound : List CallId := []

inductive Action where
  | ensure (i : CallId)
  | stop (i : CallId)
  | health (i : CallId) (h : Health)
  | acquire (i : CallId)
  -- `gahub_app.py` is missing, or spawning is disabled or refused
  | refuse (i : CallId)
  -- the log cannot be opened or written, or the child not started
  | fail (i : CallId)
  | spawn (i : CallId)
  -- the child has exited during startup
  | exited (i : CallId)
  | timeout (i : CallId)
  | proceed (i : CallId)

namespace Manager

variable (m : Manager)

def put (i : CallId) (st : Stage) : Manager := { m with stage := Function.update m.stage i st }

def begin (i : CallId) (st : Stage) : Manager := { m.put i st with calls := i :: m.calls }

def finish (i : CallId) (e : End) : Manager :=
  { m.put i (.done e) with lock := if m.lock = some i then none else m.lock }

-- `self._terminate_child(self._proc)`
def reapCurrent (i : CallId) : Manager :=
  match m.proc with
  | some c => { m with reaps := (i, c) :: m.reaps }
  | none => m

def takeOver (i : CallId) : Manager :=
  match m.proc with
  | some c => { m with takes := (i, c) :: m.takes }
  | none => m

def clear : Manager := { m with proc := none }

def onHealth (i : CallId) (h : Health) : Option Manager :=
  let sound := if h = .healthy then { m with sound := i :: m.sound } else m
  match m.stage i, h with
  | .probing, .healthy => some (sound.finish i .returned)
  | .probing, .unhealthy => some (m.put i .waiting)
  | .probing, .incompatible => some (m.finish i .processError)
  | .checking, .healthy => some (sound.finish i .returned)
  | .checking, .unhealthy =>
    some (if m.proc = none then m.put i .preparing else ((m.takeOver i).reapCurrent i).put i .replacing)
  | .checking, .incompatible => some (m.finish i .processError)
  | .starting _, .healthy => some (sound.finish i .returned)
  -- `self._proc.poll()`
  | .starting _, .unhealthy => some (if m.proc = none then m.finish i .external else m)
  | .starting _, .incompatible => some ((m.reapCurrent i).put i .failing)
  | _, _ => none

def onSpawn (i : CallId) : Manager :=
  { m.put i (.starting m.fresh) with
    proc := some m.fresh, fresh := m.fresh + 1, spawns := (i, m.fresh) :: m.spawns }

-- `stop` gives the lock back at once.
def onStop (i : CallId) : Manager :=
  match m.proc with
  | some c => { (m.takeOver i).put i (.reaping c) with proc := none }
  | none => m.put i (.done .stopped)

def proceed (i : CallId) : Option Manager :=
  match m.stage i with
  | .replacing => some (m.clear.put i .preparing)
  -- `self._proc.returncode`
  | .exiting _ => some (m.finish i (if m.proc = none then .external else .processError))
  | .failing => some (m.clear.finish i .processError)
  -- `self._proc.poll() if self._proc else …`
  | .timedOut c => some (m.put i (if m.proc = none then .described c else .describing c))
  | .describing c => some (if m.proc = none then m.finish i .external else m.put i (.described c))
  | .described _ =>
    some (if m.proc = none then m.finish i .processError else (m.reapCurrent i).put i .clearing)
  | .clearing => some (m.clear.finish i .processError)
  | .reaping c => some ({ m with reaps := (i, c) :: m.reaps }.put i (.done .stopped))
  | _ => none

def next : Action → Option Manager
  | .ensure i => if m.stage i = .unborn then some (m.begin i .probing) else none
  | .stop i => if m.stage i = .unborn then some (m.begin i .stopping) else none
  | .health i h => m.onHealth i h
  | .acquire i =>
    if m.lock ≠ none then none
    else match m.stage i with
      | .waiting => some { m.put i .checking with lock := some i }
      | .stopping => some (m.onStop i)
      | _ => none
  | .refuse i => if m.stage i = .preparing then some (m.finish i .processError) else none
  | .fail i => if m.stage i = .preparing then some (m.finish i .external) else none
  | .spawn i => if m.stage i = .preparing then some (m.onSpawn i) else none
  | .exited i =>
    match m.stage i with
    | .starting c => some (if m.proc = none then m.finish i .external else m.put i (.exiting c))
    | _ => none
  | .timeout i =>
    match m.stage i with
    | .starting c => some { m.put i (.timedOut c) with lock := none }
    | _ => none
  | .proceed i => m.proceed i

end Manager

def machine : Machine Manager Action := ⟨{}, Manager.next⟩

def Manager.late (m : Manager) : Bool := m.calls.any fun j => (m.stage j).late

-- No child is taken over, under the lock by `ensure_running` or by `stop`, while a call is past its startup timeout,
-- and the log and the child can be started.
def orderly (m : Manager) : Action → Bool
  | .health i .unhealthy => !(m.stage i == .checking && m.proc.isSome && m.late)
  | .acquire i => !(m.stage i == .stopping && m.proc.isSome && m.late)
  | .fail _ => false
  | _ => true

def Stage.owns (st : Stage) : Bool := st.late || st.locks && st != .checking

def Holds (m : Manager) (i : CallId) : Stage → Prop
  | .preparing => m.proc = none
  | .starting c => m.proc = some c ∧ (i, c) ∈ m.spawns ∧ ∀ k, (k, c) ∉ m.reaps
  | .exiting c => m.proc = some c ∧ (i, c) ∈ m.spawns ∧ ∀ k, (k, c) ∉ m.reaps
  | .timedOut c => m.proc = some c ∧ (i, c) ∈ m.spawns ∧ ∀ k, (k, c) ∉ m.reaps
  | .describing c => m.proc = some c ∧ (i, c) ∈ m.spawns ∧ ∀ k, (k, c) ∉ m.reaps
  | .described c => m.proc = some c ∧ (i, c) ∈ m.spawns ∧ ∀ k, (k, c) ∉ m.reaps
  | .replacing => ∃ c k, m.proc = some c ∧ (k, c) ∈ m.reaps
  | .failing => ∃ c k, m.proc = some c ∧ (k, c) ∈ m.reaps
  | .clearing => ∃ c k, m.proc = some c ∧ (k, c) ∈ m.reaps
  | .reaping c => (i, c) ∈ m.takes ∧ c < m.fresh ∧ m.proc ≠ some c
  | .done e => e ≠ .external ∧ (e = .returned → i ∈ m.sound)
  | _ => True

structure Inv (m : Manager) : Prop where
  called : ∀ i, m.stage i ≠ .unborn → i ∈ m.calls
  lock : ∀ i, m.lock = some i ↔ (m.stage i).locks
  owner : ∀ i j, (m.stage i).owns → (m.stage j).owns → i = j
  holds : ∀ i, Holds m i (m.stage i)
  accounted : ∀ c < m.fresh, m.proc = some c ∨ (∃ k, (k, c) ∈ m.reaps) ∨ ∃ k, m.stage k = .reaping c
  entitled : ∀ p ∈ m.reaps, p ∈ m.spawns ∨ p ∈ m.takes
  proc_lt : ∀ c, m.proc = some c → c < m.fresh
  reaps_lt : ∀ p ∈ m.reaps, p.2 < m.fresh

theorem inv_start : Inv {} := by
  constructor <;> simp [Stage.locks, Stage.owns, Stage.late, Holds]

section Steps

variable {m m' : Manager} {i : CallId} {st : Stage}

theorem owns_cases (h : st.owns) : st.late ∨ st.locks := by
  simp only [Stage.owns, Bool.or_eq_true, Bool.and_eq_true] at h
  exact h.imp_right And.left

theorem reaping_stays {k : CallId} {c : Child} (hk : m.stage k = .reaping c) (hi : m.stage i ≠ .reaping c) :
    Function.update m.stage i st k = .reaping c := by
  have hki : k ≠ i := by
    rintro rfl
    exact hi hk
  exact (Function.update_of_ne hki _ _).trans hk

theorem Holds.grow {j : CallId} (hst : st.owns = false) (htakes : m.takes ⊆ m'.takes) (hfresh : m.fresh ≤ m'.fresh)
    (hnew : ∀ c < m.fresh, m'.proc = some c → m.proc = some c) (hsound : m.sound ⊆ m'.sound) (h : Holds m j st) :
    Holds m' j st := by
  cases st with
  | reaping c => exact ⟨htakes h.1, Nat.lt_of_lt_of_le h.2.1 hfresh, fun hc => h.2.2 (hnew c h.2.1 hc)⟩
  | done e => exact ⟨h.1, fun he => hsound (h.2 he)⟩
  | _ => first | exact trivial | cases hst

theorem Inv.move (h : Inv m) (hstage : m'.stage = Function.update m.stage i st) (hproc : m'.proc = m.proc)
    (hfresh : m'.fresh = m.fresh) (hspawns : m'.spawns = m.spawns) (htakes : m'.takes = m.takes)
    (hreaps : m'.reaps = m.reaps) (hsound : m.sound ⊆ m'.sound) (hcalls : m.calls ⊆ m'.calls) (hcall : i ∈ m'.calls)
    (hlock : ∀ j, m'.lock = some j ↔ (m'.stage j).locks) (howner : st.owns → ∀ j ≠ i, (m.stage j).owns = false)
    (hholds : Holds m' i st) (hnot : ∀ c, m.stage i ≠ .reaping c) : Inv m' where
  called j hj := by
    by_cases hji : j = i
    · exact hji ▸ hcall
    · rw [hstage, Function.update_of_ne hji] at hj
      exact hcalls (h.called j hj)
  lock := hlock
  owner j k hj hk := by
    rw [hstage, Function.update_apply] at hj hk
    split at hj <;> split at hk
    · subst_vars
      rfl
    · exact absurd hk (by simp [howner hj k ‹_›])
    · exact absurd hj (by simp [howner hk j ‹_›])
    · exact h.owner j k hj hk
  holds j := by
    by_cases hji : j = i
    · rw [hstage, hji, Function.update_self]
      exact hholds
    · rw [hstage, Function.update_of_ne hji]
      have hj := h.holds j
      cases hst : m.stage j with
      | done e =>
          rw [hst] at hj
          exact ⟨hj.1, fun he => hsound (hj.2 he)⟩
      | _ =>
          rw [hst] at hj
          first | exact trivial | simpa only [Holds, hproc, hspawns, hreaps, htakes, hfresh] using hj
  accounted c hc := by
    rw [hproc, hreaps]
    rcases h.accounted c (hfresh ▸ hc) with hcur | hreaped | ⟨k, hk⟩
    · exact .inl hcur
    · exact .inr (.inl hreaped)
    · exact .inr (.inr ⟨k, hstage ▸ reaping_stays hk (hnot c)⟩)
  entitled p hp := by
    rw [hspawns, htakes]
    exact h.entitled p (hreaps ▸ hp)
  proc_lt c hc := hfresh ▸ h.proc_lt c (hproc ▸ hc)
  reaps_lt p hp := hfresh ▸ h.reaps_lt p (hreaps ▸ hp)

theorem Inv.act (h : Inv m) (hstage : m'.stage = Function.update m.stage i st) (hcalls : m'.calls = m.calls)
    (hborn : m.stage i ≠ .unborn) (htakes : m.takes ⊆ m'.takes) (hfresh : m.fresh ≤ m'.fresh)
    (hnew : ∀ c < m.fresh, m'.proc = some c → m.proc = some c) (hsound : m.sound ⊆ m'.sound)
    (hlock : ∀ j, m'.lock = some j ↔ (m'.stage j).locks)
    (hfree : ∀ j ≠ i, (m.stage j).owns = false) (hholds : Holds m' i st)
    (haccounted : ∀ c < m'.fresh, m'.proc = some c ∨ (∃ k, (k, c) ∈ m'.reaps) ∨ ∃ k, m'.stage k = .reaping c)
    (hentitled : ∀ p ∈ m'.reaps, p ∈ m'.spawns ∨ p ∈ m'.takes) (hproc_lt : ∀ c, m'.proc = some c → c < m'.fresh)
    (hreaps_lt : ∀ p ∈ m'.reaps, p.2 < m'.fresh) : Inv m' where
  called j hj := by
    rw [hcalls]
    by_cases hji : j = i
    · exact hji ▸ h.called i hborn
    · rw [hstage, Function.update_of_ne hji] at hj
      exact h.called j hj
  lock := hlock
  owner j k hj hk := by
    rw [hstage, Function.update_apply] at hj hk
    split at hj <;> split at hk
    · subst_vars
      rfl
    · exact absurd hk (by simp [hfree k ‹_›])
    · exact absurd hj (by simp [hfree j ‹_›])
    · exact absurd hj (by simp [hfree j ‹_›])
  holds j := by
    by_cases hji : j = i
    · rw [hstage, hji, Function.update_self]
      exact hholds
    · rw [hstage, Function.update_of_ne hji]
      exact (h.holds j).grow (hfree j hji) htakes hfresh hnew hsound
  accounted := haccounted
  entitled := hentitled
  proc_lt := hproc_lt
  reaps_lt := hreaps_lt

theorem lock_keep (h : Inv m) (hstage : m'.stage = Function.update m.stage i st) (hlock : m'.lock = m.lock)
    (hsame : st.locks = (m.stage i).locks) (j : CallId) : m'.lock = some j ↔ (m'.stage j).locks := by
  rw [hlock, h.lock j, hstage, Function.update_apply]
  split
  · subst_vars
    rw [hsame]
  · rfl

theorem lock_give (h : Inv m) (hstage : m'.stage = Function.update m.stage i st)
    (hlock : m'.lock = if m.lock = some i then none else m.lock) (hst : st.locks = false) (j : CallId) :
    m'.lock = some j ↔ (m'.stage j).locks := by
  have hj := h.lock j
  rw [hlock, hstage, Function.update_apply]
  by_cases hji : j = i
  · subst hji
    simp [hst]
  · rw [if_neg hji, ← hj]
    split
    · rename_i hi
      simp [hi, Ne.symm hji]
    · rfl

theorem lock_take (hnone : m.lock = none) (h : Inv m) (hstage : m'.stage = Function.update m.stage i st)
    (hlock : m'.lock = some i) (hst : st.locks) (j : CallId) : m'.lock = some j ↔ (m'.stage j).locks := by
  have hj := h.lock j
  rw [hnone] at hj
  rw [hlock, hstage, Function.update_apply]
  split
  · subst_vars
    simp [hst]
  · rename_i hji
    rw [← hj]
    simp [Ne.symm hji]

theorem Inv.unlocked (h : Inv m) (hlock : m.lock = some i ∨ m.lock = none) {j : CallId} (hji : j ≠ i) :
    (m.stage j).locks = false := by
  refine Bool.eq_false_iff.mpr fun hj => ?_
  have hj := (h.lock j).mpr hj
  rcases hlock with hlock | hlock
  · exact hji (Option.some.inj (hj.symm.trans hlock))
  · rw [hlock] at hj
    cases hj

theorem Inv.late_proc (h : Inv m) {j : CallId} (hj : (m.stage j).late) : m.proc ≠ none := by
  have hholds := h.holds j
  intro hnone
  cases hst : m.stage j with
  | clearing =>
      rw [hst] at hholds
      obtain ⟨c, k, hc, -⟩ := hholds
      rw [hnone] at hc
      cases hc
  | _ =>
      rw [hst] at hj hholds
      first
      | exact absurd (hnone.symm.trans hholds.1) (by simp)
      | cases hj

theorem Inv.free (h : Inv m) (hlock : m.lock = some i ∨ m.lock = none) (hlate : (m.proc.isSome && m.late) = false)
    {j : CallId} (hji : j ≠ i) : (m.stage j).owns = false := by
  refine Bool.eq_false_iff.mpr fun hj => ?_
  rcases owns_cases hj with hlatej | hlocks
  · have hproc := Option.isSome_iff_ne_none.mpr (h.late_proc hlatej)
    have hborn : m.stage j ≠ .unborn := by
      intro hunborn
      rw [hunborn] at hlatej
      cases hlatej
    have hany : m.late := List.any_eq_true.mpr ⟨j, h.called j hborn, hlatej⟩
    rw [hproc, hany] at hlate
    cases hlate
  · exact Bool.false_ne_true ((h.unlocked hlock hji).symm.trans hlocks)

theorem Inv.holds_at (h : Inv m) (hi : m.stage i = st) : Holds m i st := hi ▸ h.holds i

theorem Inv.only (h : Inv m) (hi : (m.stage i).owns) {j : CallId} (hji : j ≠ i) : (m.stage j).owns = false :=
  Bool.eq_false_iff.mpr fun hj => hji (h.owner j i hj hi)

theorem Inv.begin (h : Inv m) (hst : st = .probing ∨ st = .stopping) (hi : m.stage i = .unborn) :
    Inv (m.begin i st) := by
  have hplain : st.locks = false ∧ st.owns = false ∧ Holds (m.begin i st) i st := by
    rcases hst with rfl | rfl <;> exact ⟨rfl, rfl, trivial⟩
  refine h.move rfl rfl rfl rfl rfl rfl (List.Subset.refl _) (List.subset_cons_self i m.calls) List.mem_cons_self
    (lock_keep h rfl rfl (hplain.1.trans (by rw [hi]; rfl))) ?_ hplain.2.2 ?_
  · intro howns
    exact absurd (howns.symm.trans hplain.2.1) (by decide)
  · intro c hc
    rw [hi] at hc
    cases hc

theorem Inv.finish {sound : List CallId} {e : End} (h : Inv m) (hborn : m.stage i ≠ .unborn)
    (hnot : ∀ c, m.stage i ≠ .reaping c) (hsound : m.sound ⊆ sound) (he : e ≠ .external ∧ (e = .returned → i ∈ sound)) :
    Inv ({ m with sound }.finish i e) :=
  @Inv.move m _ i (.done e) h rfl rfl rfl rfl rfl rfl hsound (List.Subset.refl _) (h.called i hborn)
    (lock_give h rfl rfl rfl) (by rintro ⟨⟩) he hnot

theorem Inv.let_go (h : Inv m) {stage : Stage} (hi : m.stage i = stage) (hproc : ∃ c k, m.proc = some c ∧ (k, c) ∈ m.reaps)
    (howns : stage.owns) (hm : m' = m.clear.put i st ∨ m' = m.clear.finish i .processError ∧ st = .done .processError)
    (hlock : ∀ j, m'.lock = some j ↔ (m'.stage j).locks) (hholds : Holds m' i st) : Inv m' := by
  obtain ⟨c, k, hc, hreaped⟩ := hproc
  have hborn : m.stage i ≠ .unborn := by
    rintro hunborn
    rw [hi.symm.trans hunborn] at howns
    cases howns
  have hstage : m'.stage = Function.update m.stage i st := by
    rcases hm with rfl | ⟨rfl, rfl⟩ <;> rfl
  have hnone : m'.proc = none := by
    rcases hm with rfl | ⟨rfl, -⟩ <;> rfl
  have hsame : m'.calls = m.calls ∧ m'.takes = m.takes ∧ m'.fresh = m.fresh ∧ m'.sound = m.sound ∧
      m'.reaps = m.reaps ∧ m'.spawns = m.spawns := by
    rcases hm with rfl | ⟨rfl, -⟩ <;> exact ⟨rfl, rfl, rfl, rfl, rfl, rfl⟩
  obtain ⟨hcalls, htakes, hfresh, hsound, hreaps, hspawns⟩ := hsame
  have hnew : ∀ d < m.fresh, m'.proc = some d → m.proc = some d := by
    intro d _ hd
    rw [hnone] at hd
    cases hd
  refine h.act hstage hcalls hborn (htakes ▸ List.Subset.refl _) (Nat.le_of_eq hfresh.symm) hnew
    (hsound ▸ List.Subset.refl _) hlock (fun j hj => h.only (hi ▸ howns) hj) hholds ?_ ?_ ?_ ?_
  · intro d hd
    rw [hreaps]
    rcases h.accounted d (hfresh ▸ hd) with hcur | hr | ⟨j, hj⟩
    · obtain rfl : c = d := Option.some.inj (hc.symm.trans hcur)
      exact .inr (.inl ⟨k, hreaped⟩)
    · exact .inr (.inl hr)
    · refine .inr (.inr ⟨j, hstage ▸ reaping_stays hj ?_⟩)
      intro hd
      rw [hi.symm.trans hd] at howns
      cases howns
  · intro p hp
    rw [hspawns, htakes]
    exact h.entitled p (hreaps ▸ hp)
  · intro d hd
    rw [hnone] at hd
    cases hd
  · intro p hp
    exact hfresh ▸ h.reaps_lt p (hreaps ▸ hp)

theorem Inv.reap {c : Child} {takes : List (CallId × Child)} (h : Inv m) (hproc : m.proc = some c)
    (hborn : m.stage i ≠ .unborn) (hnot : ∀ d, m.stage i ≠ .reaping d) (htakes : m.takes ⊆ takes)
    (hentitled : (i, c) ∈ m.spawns ∨ (i, c) ∈ takes) (hst : st = .replacing ∨ st = .failing ∨ st = .clearing)
    (hlocks : st.locks = (m.stage i).locks) (hfree : ∀ j ≠ i, (m.stage j).owns = false) :
    Inv ({ m with takes, reaps := (i, c) :: m.reaps }.put i st) := by
  have hholds : Holds ({ m with takes, reaps := (i, c) :: m.reaps }.put i st) i st := by
    rcases hst with rfl | rfl | rfl <;> exact ⟨c, i, hproc, List.mem_cons_self⟩
  refine h.act rfl rfl hborn htakes (Nat.le_refl _) (fun _ _ => id) (List.Subset.refl _) (lock_keep h rfl rfl hlocks)
    hfree hholds ?_ ?_ h.proc_lt ?_
  · intro d hd
    rcases h.accounted d hd with hcur | ⟨k, hk⟩ | ⟨j, hj⟩
    · exact .inl hcur
    · exact .inr (.inl ⟨k, List.mem_cons_of_mem _ hk⟩)
    · exact .inr (.inr ⟨j, reaping_stays hj (hnot d)⟩)
  · intro p hp
    rcases List.mem_cons.mp hp with rfl | hp
    · exact hentitled
    · exact (h.entitled p hp).imp_right fun ht => htakes ht
  · intro p hp
    rcases List.mem_cons.mp hp with rfl | hp
    · exact h.proc_lt _ hproc
    · exact h.reaps_lt p hp

-- The stages of a call that waits for the child it has spawned, or is late for it.
def Stage.minds : Stage → Child → Prop
  | .starting c, d => c = d
  | .exiting c, d => c = d
  | .timedOut c, d => c = d
  | .describing c, d => c = d
  | .described c, d => c = d
  | _, _ => False

theorem Stage.minds_owns {c : Child} (h : st.minds c) : st.owns ∧ st ≠ .unborn ∧ ∀ d, st ≠ .reaping d := by
  cases st with
  | starting _ | exiting _ | timedOut _ | describing _ | described _ => exact ⟨rfl, by simp, by simp⟩
  | _ => cases h

theorem holds_minds {c : Child} (h : st.minds c) :
    Holds m i st ↔ m.proc = some c ∧ (i, c) ∈ m.spawns ∧ ∀ k, (k, c) ∉ m.reaps := by
  cases st with
  | starting _ | exiting _ | timedOut _ | describing _ | described _ =>
      cases h
      exact Iff.rfl
  | _ => cases h

theorem Inv.minds {c : Child} (h : Inv m) (hi : (m.stage i).minds c) :
    m.proc = some c ∧ (i, c) ∈ m.spawns ∧ ∀ k, (k, c) ∉ m.reaps := (holds_minds hi).mp (h.holds i)

theorem Inv.minding {c : Child} {lock : Option CallId} (h : Inv m) (hi : (m.stage i).minds c) (hst : st.minds c)
    (hlock : ∀ j, lock = some j ↔ (Function.update m.stage i st j).locks) : Inv ({ m with lock }.put i st) := by
  obtain ⟨howns, hborn, hnot⟩ := Stage.minds_owns hi
  exact h.move rfl rfl rfl rfl rfl rfl (List.Subset.refl _) (List.Subset.refl _) (h.called i hborn) hlock
    (fun _ j hji => h.only howns hji) ((holds_minds hst).mpr (h.minds hi)) hnot

theorem Inv.reap_minded {c : Child} (h : Inv m) (hi : (m.stage i).minds c)
    (hst : st = .failing ∨ st = .clearing) (hlocks : st.locks = (m.stage i).locks) :
    Inv ((m.reapCurrent i).put i st) := by
  obtain ⟨howns, hborn, hnot⟩ := Stage.minds_owns hi
  obtain ⟨hproc, hspawned, -⟩ := h.minds hi
  have hreap : m.reapCurrent i = { m with reaps := (i, c) :: m.reaps } := by
    rw [Manager.reapCurrent, hproc]
  rw [hreap]
  exact h.reap hproc hborn hnot (List.Subset.refl _) (.inl hspawned) (.inr hst) hlocks fun j hji => h.only howns hji

theorem Inv.replace (h : Inv m) (hi : m.stage i = .checking) (hlate : (m.proc.isSome && m.late) = false) :
    Inv (if m.proc = none then m.put i .preparing else ((m.takeOver i).reapCurrent i).put i .replacing) := by
  have hown : m.lock = some i := (h.lock i).mpr (by rw [hi]; rfl)
  have hfree : ∀ j ≠ i, (m.stage j).owns = false := fun j hji =>
    h.free (.inl hown) hlate hji
  cases hproc : m.proc with
  | none =>
      rw [if_pos rfl]
      exact h.move rfl rfl rfl rfl rfl rfl (List.Subset.refl _) (List.Subset.refl _) (h.called i (by simp [hi]))
        (lock_keep h rfl rfl (by rw [hi]; rfl)) (fun _ => hfree) hproc (by simp [hi])
  | some c =>
      rw [if_neg (by simp)]
      have hreap : (m.takeOver i).reapCurrent i = { m with takes := (i, c) :: m.takes, reaps := (i, c) :: m.reaps } := by
        simp only [Manager.takeOver, Manager.reapCurrent, hproc]
      rw [hreap]
      exact h.reap hproc (by simp [hi]) (by simp [hi]) (List.subset_cons_self _ _) (.inr List.mem_cons_self)
        (.inl rfl) (by rw [hi]; rfl) hfree

theorem Inv.onHealth {ans : Health} (h : Inv m) (horderly : orderly m (.health i ans))
    (hstep : m.onHealth i ans = some m') : Inv m' := by
  have hsound : m.sound ⊆ i :: m.sound := List.subset_cons_self i m.sound
  have hreturned : End.returned ≠ .external ∧ (End.returned = .returned → i ∈ i :: m.sound) := by simp
  have hfailed : End.processError ≠ .external ∧ (End.processError = .returned → i ∈ m.sound) := by simp
  simp only [Manager.onHealth] at hstep
  split at hstep
  · rename_i hi
    cases hstep
    exact h.finish (by simp [hi]) (by simp [hi]) hsound hreturned
  · rename_i hi
    cases hstep
    exact h.move rfl rfl rfl rfl rfl rfl (List.Subset.refl _) (List.Subset.refl _) (h.called i (by simp [hi]))
      (lock_keep h rfl rfl (by rw [hi]; rfl)) (by rintro ⟨⟩) trivial (by simp [hi])
  · rename_i hi
    cases hstep
    exact h.finish (by simp [hi]) (by simp [hi]) (List.Subset.refl _) hfailed
  · rename_i hi
    cases hstep
    exact h.finish (by simp [hi]) (by simp [hi]) hsound hreturned
  · rename_i hi
    cases hstep
    exact h.replace hi (by simpa only [orderly, hi, beq_self_eq_true, Bool.true_and, Bool.not_eq_true'] using horderly)
  · rename_i hi
    cases hstep
    exact h.finish (by simp [hi]) (by simp [hi]) (List.Subset.refl _) hfailed
  · rename_i hi
    cases hstep
    exact h.finish (by simp [hi]) (by simp [hi]) hsound hreturned
  · rename_i c hi
    have hminds : (m.stage i).minds c := by rw [hi]; rfl
    rw [if_neg (by simp [(h.minds hminds).1])] at hstep
    cases hstep
    exact h
  · rename_i c hi
    have hminds : (m.stage i).minds c := by rw [hi]; rfl
    cases hstep
    exact h.reap_minded hminds (.inl rfl) (by rw [hi]; rfl)
  · cases hstep

theorem Inv.take (h : Inv m) (hlock : m.lock = none) (hi : m.stage i = .stopping)
    (hlate : (m.proc.isSome && m.late) = false) : Inv (m.onStop i) := by
  have hborn : m.stage i ≠ .unborn := by simp [hi]
  rw [Manager.onStop]
  split
  · rename_i c hproc
    have htake : m.takeOver i = { m with takes := (i, c) :: m.takes } := by
      simp only [Manager.takeOver, hproc]
    rw [htake]
    have hnone : ∀ d, (none : Option Child) ≠ some d := fun d => Option.some_ne_none d |>.symm
    refine h.act rfl rfl hborn (List.subset_cons_self _ _) (Nat.le_refl _) (fun d _ hd => absurd hd (hnone d))
      (List.Subset.refl _) (@lock_keep m _ i (.reaping c) h rfl rfl (by rw [hi]; rfl))
      (fun j hji => h.free (.inr hlock) hlate hji)
      ⟨List.mem_cons_self, h.proc_lt c hproc, hnone c⟩ ?_ ?_ (fun d hd => absurd hd (hnone d)) h.reaps_lt
    · intro d hd
      rcases h.accounted d hd with hcur | hreaped | ⟨j, hj⟩
      · obtain rfl := Option.some.inj (hproc.symm.trans hcur)
        exact .inr (.inr ⟨i, Function.update_self i _ _⟩)
      · exact .inr (.inl hreaped)
      · exact .inr (.inr ⟨j, reaping_stays hj (by simp [hi])⟩)
    · exact fun p hp => (h.entitled p hp).imp_right (List.mem_cons_of_mem _)
  · exact h.move rfl rfl rfl rfl rfl rfl (List.Subset.refl _) (List.Subset.refl _) (h.called i hborn)
      (lock_keep h rfl rfl (by rw [hi]; rfl)) (by rintro ⟨⟩) (by simp [Holds]) (by simp [hi])

theorem Inv.acquire (h : Inv m) (horderly : orderly m (.acquire i)) (hstep : m.next (.acquire i) = some m') :
    Inv m' := by
  obtain ⟨hlock, heq⟩ := Option.ite_none_left_eq_some.mp hstep
  rw [not_not] at hlock
  split at heq
  · rename_i hi
    cases heq
    have hfree : ∀ j, (m.stage j).locks = false := by
      intro j
      refine Bool.eq_false_iff.mpr fun hj => ?_
      have hj := (h.lock j).mpr hj
      rw [hlock] at hj
      cases hj
    exact h.move rfl rfl rfl rfl rfl rfl (List.Subset.refl _) (List.Subset.refl _) (h.called i (by simp [hi]))
      (lock_take hlock h rfl rfl rfl) (by rintro ⟨⟩) trivial (by simp [hi])
  · rename_i hi
    cases heq
    exact h.take hlock hi (by simpa only [orderly, hi, beq_self_eq_true, Bool.true_and, Bool.not_eq_true'] using horderly)
  · cases heq

theorem Inv.spawn (h : Inv m) (hi : m.stage i = .preparing) : Inv (m.onSpawn i) := by
  have hnone : m.proc = none := h.holds_at hi
  refine h.act rfl rfl (by simp [hi]) (List.Subset.refl _) (Nat.le_succ _) ?_ (List.Subset.refl _)
    (lock_keep h rfl rfl (by rw [hi]; rfl)) (fun j hji => h.only (by rw [hi]; rfl) hji) ?_ ?_ ?_ ?_ ?_
  · intro c hlt hc
    exact absurd (Option.some.inj hc) (Nat.ne_of_gt hlt)
  · refine ⟨rfl, List.mem_cons_self, fun k hk => ?_⟩
    exact absurd (h.reaps_lt _ hk) (Nat.lt_irrefl _)
  · intro c hc
    rcases Nat.lt_succ_iff_lt_or_eq.mp hc with hlt | rfl
    · rcases h.accounted c hlt with hcur | hreaped | ⟨k, hk⟩
      · rw [hnone] at hcur
        cases hcur
      · exact .inr (.inl hreaped)
      · exact .inr (.inr ⟨k, reaping_stays hk (by simp [hi])⟩)
    · exact .inl rfl
  · intro p hp
    exact (h.entitled p hp).imp_left (List.mem_cons_of_mem _)
  · intro c hc
    obtain rfl := Option.some.inj hc
    exact Nat.lt_succ_self _
  · intro p hp
    exact Nat.lt_succ_of_lt (h.reaps_lt p hp)

theorem Holds.reaped {j : CallId} {c : Child} (hcur : m.proc ≠ some c) (h : Holds m j st) :
    Holds ({ m with reaps := (i, c) :: m.reaps }.put i (.done .stopped)) j st := by
  have hothers : ∀ d, m.proc = some d → (∀ k, (k, d) ∉ m.reaps) → ∀ k, (k, d) ∉ (i, c) :: m.reaps := by
    intro d hd hfree k hk
    rcases List.mem_cons.mp hk with heq | hk
    · obtain rfl : d = c := (Prod.ext_iff.mp heq).2
      exact hcur hd
    · exact hfree k hk
  cases st with
  | starting d | exiting d | timedOut d | describing d | described d =>
      exact ⟨h.1, h.2.1, hothers d h.1 h.2.2⟩
  | replacing | failing | clearing =>
      obtain ⟨d, k, hd, hk⟩ := h
      exact ⟨d, k, hd, List.mem_cons_of_mem _ hk⟩
  | _ => exact h

theorem Inv.reap_taken {c : Child} (h : Inv m) (hi : m.stage i = .reaping c) :
    Inv ({ m with reaps := (i, c) :: m.reaps }.put i (.done .stopped)) := by
  obtain ⟨htaken, hlt, hcur⟩ : (i, c) ∈ m.takes ∧ c < m.fresh ∧ m.proc ≠ some c := h.holds_at hi
  have hmono : ∀ p ∈ m.reaps, p ∈ (i, c) :: m.reaps := fun p => List.mem_cons_of_mem _
  refine ⟨?called, lock_keep h rfl rfl (by rw [hi]; rfl), ?owner, ?holds, ?accounted, ?entitled, h.proc_lt, ?reaps_lt⟩
  case called =>
    intro j hj
    by_cases hji : j = i
    · exact hji ▸ h.called i (by simp [hi])
    · exact h.called j ((Function.update_of_ne hji _ m.stage) ▸ hj)
  case owner =>
    have hother : ∀ j, (Function.update m.stage i (.done .stopped) j).owns → (m.stage j).owns := by
      intro j hj
      by_cases hji : j = i
      · rw [hji, Function.update_self] at hj
        cases hj
      · rwa [Function.update_of_ne hji] at hj
    exact fun j k hj hk => h.owner j k (hother j hj) (hother k hk)
  case holds =>
    intro j
    by_cases hji : j = i
    · rw [hji, show (Manager.put _ i (.done .stopped)).stage i = .done .stopped from Function.update_self ..]
      simp [Holds]
    · rw [show (Manager.put { m with reaps := (i, c) :: m.reaps } i (.done .stopped)).stage j = m.stage j from
        Function.update_of_ne hji ..]
      exact (h.holds j).reaped hcur
  case accounted =>
    intro d hd
    by_cases hdc : d = c
    · exact .inr (.inl ⟨i, hdc ▸ List.mem_cons_self⟩)
    · rcases h.accounted d hd with hproc | ⟨k, hk⟩ | ⟨j, hj⟩
      · exact .inl hproc
      · exact .inr (.inl ⟨k, hmono _ hk⟩)
      · refine .inr (.inr ⟨j, reaping_stays hj fun hd => ?_⟩)
        exact hdc (Stage.reaping.inj (hd.symm.trans hi))
  case entitled =>
    intro p hp
    rcases List.mem_cons.mp hp with rfl | hp
    · exact .inr htaken
    · exact h.entitled p hp
  case reaps_lt =>
    intro p hp
    rcases List.mem_cons.mp hp with rfl | hp
    · exact hlt
    · exact h.reaps_lt p hp

theorem Inv.proceed (h : Inv m) (hstep : m.proceed i = some m') : Inv m' := by
  simp only [Manager.proceed] at hstep
  split at hstep
  · rename_i hi
    cases hstep
    have hproc : ∃ c k, m.proc = some c ∧ (k, c) ∈ m.reaps := h.holds_at hi
    exact h.let_go hi hproc rfl (.inl rfl) (lock_keep h rfl rfl (by rw [hi]; rfl)) rfl
  · rename_i c hi
    have hminds : (m.stage i).minds c := by rw [hi]; rfl
    rw [if_neg (by simp [(h.minds hminds).1])] at hstep
    cases hstep
    exact h.finish (by simp [hi]) (by simp [hi]) (List.Subset.refl _) (by simp)
  · rename_i hi
    cases hstep
    have hproc : ∃ c k, m.proc = some c ∧ (k, c) ∈ m.reaps := h.holds_at hi
    exact h.let_go hi hproc rfl (.inr ⟨rfl, rfl⟩) (lock_give h rfl rfl rfl) (by simp [Holds])
  · rename_i c hi
    have hminds : (m.stage i).minds c := by rw [hi]; rfl
    rw [if_neg (by simp [(h.minds hminds).1])] at hstep
    cases hstep
    exact h.minding hminds rfl (@lock_keep m (m.put i (.describing c)) i _ h rfl rfl (by rw [hi]; rfl))
  · rename_i c hi
    have hminds : (m.stage i).minds c := by rw [hi]; rfl
    rw [if_neg (by simp [(h.minds hminds).1])] at hstep
    cases hstep
    exact h.minding hminds rfl (@lock_keep m (m.put i (.described c)) i _ h rfl rfl (by rw [hi]; rfl))
  · rename_i c hi
    have hminds : (m.stage i).minds c := by rw [hi]; rfl
    rw [if_neg (by simp [(h.minds hminds).1])] at hstep
    cases hstep
    exact h.reap_minded hminds (.inr rfl) (by rw [hi]; rfl)
  · rename_i hi
    cases hstep
    have hproc : ∃ c k, m.proc = some c ∧ (k, c) ∈ m.reaps := h.holds_at hi
    exact h.let_go hi hproc rfl (.inr ⟨rfl, rfl⟩) (lock_give h rfl rfl rfl) (by simp [Holds])
  · rename_i c hi
    cases hstep
    exact h.reap_taken hi
  · cases hstep

theorem Inv.next {a : Action} (h : Inv m) (horderly : orderly m a) (hstep : m.next a = some m') : Inv m' := by
  cases a with
  | ensure i =>
      obtain ⟨hi, heq⟩ := Option.ite_none_right_eq_some.mp hstep
      cases heq
      exact h.begin (.inl rfl) hi
  | stop i =>
      obtain ⟨hi, heq⟩ := Option.ite_none_right_eq_some.mp hstep
      cases heq
      exact h.begin (.inr rfl) hi
  | health i ans => exact h.onHealth horderly hstep
  | acquire i => exact h.acquire horderly hstep
  | refuse i =>
      obtain ⟨hi, heq⟩ := Option.ite_none_right_eq_some.mp hstep
      cases heq
      exact h.finish (by simp [hi]) (by simp [hi]) (List.Subset.refl _) (by simp)
  | fail i => cases horderly
  | spawn i =>
      obtain ⟨hi, heq⟩ := Option.ite_none_right_eq_some.mp hstep
      cases heq
      exact h.spawn hi
  | exited i =>
      simp only [Manager.next] at hstep
      split at hstep
      · rename_i c hi
        have hminds : (m.stage i).minds c := by rw [hi]; rfl
        rw [if_neg (by simp [(h.minds hminds).1])] at hstep
        cases hstep
        exact h.minding hminds rfl (@lock_keep m (m.put i (.exiting c)) i _ h rfl rfl (by rw [hi]; rfl))
      · cases hstep
  | timeout i =>
      simp only [Manager.next] at hstep
      split at hstep
      · rename_i c hi
        have hminds : (m.stage i).minds c := by rw [hi]; rfl
        have hown : m.lock = some i := (h.lock i).mpr (by rw [hi]; rfl)
        cases hstep
        exact h.minding hminds rfl
          (@lock_give m { m.put i (.timedOut c) with lock := none } i _ h rfl (by simp [hown]) rfl)
      · cases hstep
  | proceed i => exact h.proceed hstep

end Steps

structure Owned (m : Manager) : Prop where
  -- the current one, reaped, or with the stop that has just taken it over
  accounted : ∀ c < m.fresh, m.proc = some c ∨ (∃ i, (i, c) ∈ m.reaps) ∨ ∃ i, m.stage i = .reaping c
  entitled : ∀ p ∈ m.reaps, p ∈ m.spawns ∨ p ∈ m.takes
  undisturbed : ∀ i c, m.stage i = .starting c → ∀ k, (k, c) ∉ m.reaps
  ended : ∀ i e, m.stage i = .done e → e ≠ .external ∧ (e = .returned → i ∈ m.sound)

theorem Inv.owned {m : Manager} (h : Inv m) : Owned m where
  accounted := h.accounted
  entitled := h.entitled
  undisturbed i c hi := (h.minds (by rw [hi]; rfl)).2.2
  ended _ _ hi := h.holds_at hi

theorem owned_of_orderly {m : Manager} (h : (machine.restrict fun m a => orderly m a = true).Reachable m) :
    Owned m := by
  refine Inv.owned (h.invariant inv_start fun m a m' hinv hstep => ?_)
  obtain ⟨horderly, hnext⟩ := Machine.restrict_next hstep
  exact hinv.next horderly hnext

def startup (i : CallId) : List Action := [.ensure i, .health i .unhealthy, .acquire i, .health i .unhealthy]

-- A call that gives up on its child, and one that starts the next.
theorem owned_after_timeout :
    ∃ m, (machine.restrict fun m a => orderly m a = true).Reachable m ∧ Owned m ∧ m.reaps = [(0, 0)] ∧
      m.stage 1 = .done .returned := by
  have hrun : ((machine.restrict fun m a => orderly m a = true).run machine.start
      (startup 0 ++ [Action.spawn 0, .timeout 0, .proceed 0, .proceed 0, .proceed 0, .proceed 0] ++ startup 1 ++
        [Action.spawn 1, .health 1 .healthy])).map (fun m => (m.reaps, m.stage 1)) =
      some ([(0, 0)], .done .returned) := by decide
  obtain ⟨m, hm, hlast⟩ := Option.map_eq_some_iff.mp hrun
  obtain ⟨hreaps, hstage⟩ := Prod.mk.inj hlast
  exact ⟨m, ⟨_, hm⟩, owned_of_orderly ⟨_, hm⟩, hreaps, hstage⟩

-- Past its timeout a call reaps what child is current by then, here the one the next call waits for.
theorem timeout_reaps_successor : ¬∀ m, machine.Reachable m → Owned m := by
  intro h
  have hrun : (machine.run machine.start
      (startup 0 ++ [Action.spawn 0, .timeout 0, .proceed 0, .proceed 0] ++ startup 1 ++
        [Action.proceed 1, .spawn 1, .proceed 0])).map (fun m => (m.stage 1, m.reaps)) = some (.starting 1, [(0, 1), (1, 0)]) := by
    decide
  obtain ⟨m, hm, hlast⟩ := Option.map_eq_some_iff.mp hrun
  obtain ⟨hstage, hreaps⟩ := Prod.mk.inj hlast
  exact (h m ⟨_, hm⟩).undisturbed 1 1 hstage 0 (by simp [hreaps])

end GaHub.Engine
