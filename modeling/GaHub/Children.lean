import Mathlib.Logic.Function.Basic
import Mathlib.Data.List.Infix
import Mathlib.Data.List.Sort
import Mathlib.Tactic.Common
import GaHub.Lib.Machine
import GaHub.Lib.Text

namespace GaHub.Children

open Lib

abbrev Pid := Int
abbrev CallId := Nat

-- A process is a pid and how many processes have had it.
abbrev Hub := Pid × Nat

structure Proc where
  alive : Bool := false
  gen : Nat := 0
  parent : Option Hub := none
  cmdline : List Char := []

-- One entry of the registry, `none` where the value is not an int or not a string.
structure Row where
  pid : Option Pid
  parent : Option Pid
  marker : Option (List Char)
  deriving DecidableEq

-- `kill` of a pid, and what holds of the row's parent and of the live command line then.
structure Kill where
  row : Row
  parentAlive : Bool
  identified : Bool
  deriving DecidableEq

-- A sweep and what it has read, the rows still to be checked and those kept so far.
structure Sweep where
  version : Nat
  rows : List Row
  todo : List Row
  survivors : List Row
  deriving DecidableEq

inductive Job where
  | adopt (pid : Pid) (row : Row)
  -- `forget`, and what is left of `reap_all`
  | forget (pid : Pid) (rest : List Pid)
  | sweep (s : Sweep)
  deriving DecidableEq

-- `_write_registry`: before opening the temporary file, before filling it, and before `tmp.replace(path)`.
inductive Part where
  | opening
  | filling
  | replacing
  deriving DecidableEq

-- `version` is how many times the file had been replaced when it was read.
structure Write where
  job : Job
  rows : List Row
  version : Nat
  deriving DecidableEq

inductive Stage where
  | unborn
  | adopting (pid : Pid) (row : Row)
  -- before `_registry_lock` and before the read
  | locking (job : Job)
  | reading (job : Job)
  | writing (part : Part) (w : Write)
  | sweepReading
  -- before `pid_alive(parent)`, `pid_alive(pid)`, `_matches_identity` and `_terminate_tree`
  | checking (s : Sweep)
  | probing (row : Row) (s : Sweep)
  | matching (row : Row) (s : Sweep)
  | killing (row : Row) (s : Sweep)
  | reaping (pids : List Pid)
  | done
  deriving DecidableEq

def Job.begun : Job → Stage
  | .adopt pid row => .reading (.adopt pid row)
  | .forget pid rest => .reading (.forget pid rest)
  | .sweep s => .writing .opening ⟨.sweep s, s.survivors, s.version⟩

def Job.over : Job → Stage
  | .forget _ (pid :: rest) => .reaping (pid :: rest)
  | _ => .done

structure Removal where
  pid : Pid
  parent : Pid
  job : Job
  hub : Hub
  deriving DecidableEq

structure State where
  procs : Pid → Proc := fun _ => {}
  -- a file that is there may be unreadable
  file : Option (Option (List Row)) := none
  tmp : Option (Option (List Row)) := none
  version : Nat := 0
  lock : Hub → Option CallId := fun _ => none
  -- `_pids`
  pids : Hub → List Pid := fun _ => []
  calls : List CallId := []
  hub : CallId → Hub := fun _ => (0, 0)
  stage : CallId → Stage := fun _ => .unborn
  kills : List Kill := []
  removals : List Removal := []

inductive Action where
  | start (pid : Pid) (cmdline : List Char)
  | exit (pid : Pid)
  | spawn (c : CallId) (hub pid : Pid) (cmdline : List Char) (marker : List Char)
  | forget (c : CallId) (hub pid : Pid)
  | reapAll (c : CallId) (hub : Pid)
  | sweep (c : CallId) (hub : Pid)
  -- A call goes on. `ok` is false where the file cannot be read or written, a process not probed, its command line
  -- not read, or a pid not terminated.
  | step (c : CallId) (ok : Bool)

def rowsOf : Option (Option (List Row)) → List Row
  | some (some rows) => rows
  | _ => []

section Model

-- `str.lower`
variable (lower : List Char → List Char)

def normalize (text : List Char) : List Char := lower (text.map fun c => if c = '\\' then '/' else c)

def matchesIdentity (cmdline : List Char) : Option (List Char) → Bool
  | some marker => marker.any (!isSpace ·) && decide (normalize lower marker <:+: normalize lower cmdline)
  | none => false

namespace State

variable (m : State)

-- `pid_alive`
def alive (pid : Pid) : Bool := decide (0 < pid) && (m.procs pid).alive

def self (pid : Pid) : Hub := (pid, (m.procs pid).gen)

def runs (c : CallId) : Bool := m.alive (m.hub c).1 && m.self (m.hub c).1 == m.hub c

-- The process `parent` runs, and the process `pid` is its child and runs.
def live (pid parent : Pid) : Bool :=
  m.alive pid && m.alive parent && (m.procs pid).parent == some (m.self parent)

def put (c : CallId) (st : Stage) : State := { m with stage := Function.update m.stage c st }

def birth (pid : Pid) (parent : Option Hub) (cmdline : List Char) : State :=
  { m with procs := Function.update m.procs pid ⟨true, (m.procs pid).gen + 1, parent, cmdline⟩ }

def death (pid : Pid) : State :=
  { m with procs := Function.update m.procs pid { m.procs pid with alive := false } }

def begin (c : CallId) (hub : Pid) (st : Stage) : State :=
  { m.put c st with calls := c :: m.calls, hub := Function.update m.hub c (m.self hub) }

-- `_registry_lock` is given back, and `reap_all` goes on.
def finish (c : CallId) (job : Job) : State :=
  { m.put c job.over with lock := Function.update m.lock (m.hub c) none }

def lost (c : CallId) (job : Job) : List Removal :=
  (rowsOf m.file).filterMap fun row => match row.pid, row.parent with
    | some pid, some parent =>
      if m.live pid parent ∧ ¬(rowsOf m.tmp).any (fun r => r.pid = some pid ∧ r.parent = some parent) then
        some ⟨pid, parent, job, m.hub c⟩
      else none
    | _, _ => none

def onRead (c : CallId) (job : Job) (rows : List Row) : State :=
  match job with
  | .adopt pid row =>
    m.put c (.writing .opening ⟨job, rows.filter (·.pid ≠ some pid) ++ [row], m.version⟩)
  | .forget pid _ =>
    let kept := rows.filter (·.pid ≠ some pid)
    if kept.length = rows.length then m.finish c job else m.put c (.writing .opening ⟨job, kept, m.version⟩)
  | .sweep _ => m

def onWrite (c : CallId) (part : Part) (w : Write) (ok : Bool) : State :=
  match part, ok with
  | .opening, true => { m.put c (.writing .filling w) with tmp := some none }
  | .filling, true => { m.put c (.writing .replacing w) with tmp := some (some w.rows) }
  | .replacing, true =>
    match m.tmp with
    | some _ =>
      { m.finish c w.job with
        file := m.tmp, tmp := none, version := m.version + 1, removals := m.lost c w.job ++ m.removals }
    | none => m.finish c w.job
  | _, false => m.finish c w.job

def onCheck (c : CallId) (s : Sweep) (sure : Bool) : State :=
  match s.todo with
  | [] => m.put c (.locking (.sweep s))
  | row :: todo =>
    let drop : Sweep := { s with todo }
    let keep : Sweep := { s with todo, survivors := s.survivors ++ [row] }
    match row.pid, row.parent with
    | none, _ => m.put c (.checking drop)
    | some pid, parent =>
      if pid ≤ 0 then m.put c (.checking drop)
      else match parent with
        | none => m.put c (.checking keep)
        | some parent =>
          if parent ≤ 0 then m.put c (.checking keep)
          else if m.alive parent || !sure then m.put c (.checking keep)
          else m.put c (.probing row drop)

def aliveRow (pid : Option Pid) : Bool := pid.any m.alive

-- The recorded marker is on the live command line, if there is one.
def identified (row : Row) : Bool :=
  row.pid.all fun pid => !m.alive pid || matchesIdentity lower (m.procs pid).cmdline row.marker

def kill (row : Row) : State :=
  { m with kills := ⟨row, m.aliveRow row.parent, m.identified lower row⟩ :: m.kills }

def deathOf (pid : Option Pid) : State := pid.elim m m.death

def next (m : State) : Action → Option State
  | .start pid cmdline =>
    if 0 < pid ∧ m.alive pid = false then some (m.birth pid none cmdline) else none
  | .exit pid => some (m.death pid)
  | .spawn c hub pid cmdline marker =>
    if m.stage c = .unborn ∧ m.alive hub ∧ 0 < pid ∧ m.alive pid = false then
      some ((m.birth pid (some (m.self hub)) cmdline).begin c hub (.adopting pid ⟨some pid, some hub, some marker⟩))
    else none
  | .forget c hub pid =>
    if m.stage c = .unborn ∧ m.alive hub then
      some { m.begin c hub (if pid ≤ 0 then .done else .locking (.forget pid [])) with
        pids := Function.update m.pids (m.self hub) ((m.pids (m.self hub)).filter (· ≠ pid)) }
    else none
  | .reapAll c hub =>
    if m.stage c = .unborn ∧ m.alive hub then
      some (m.begin c hub (.reaping ((m.pids (m.self hub)).insertionSort (· ≤ ·))))
    else none
  | .sweep c hub =>
    if m.stage c = .unborn ∧ m.alive hub then some (m.begin c hub .sweepReading) else none
  | .step c ok =>
    if m.runs c then
      match m.stage c with
      | .adopting pid row =>
        some (if m.alive pid || !ok then
            { m.put c (.locking (.adopt pid row)) with
              pids := Function.update m.pids (m.hub c) (pid :: (m.pids (m.hub c)).filter (· ≠ pid)) }
          else m.put c .done)
      | .locking job =>
        if m.lock (m.hub c) ≠ none then none
        else
          some { m.put c job.begun with lock := Function.update m.lock (m.hub c) (some c) }
      | .reading job => some (m.onRead c job (if ok then rowsOf m.file else []))
      | .writing part w => some (m.onWrite c part w ok)
      | .sweepReading =>
        let rows := if ok then rowsOf m.file else []
        some (m.put c (if rows = [] then .done else .checking ⟨m.version, rows, rows, []⟩))
      | .checking s => some (m.onCheck c s ok)
      | .probing row s =>
        some (m.put c (if m.aliveRow row.pid || !ok then .matching row s else .checking s))
      | .matching row s =>
        some (m.put c (if ok && m.aliveRow row.pid && m.identified lower row then .killing row s else .checking s))
      | .killing row s =>
        some (if ok then ((m.kill lower row).deathOf row.pid).put c (.checking s)
          else (m.kill lower row).put c (.checking { s with survivors := s.survivors ++ [row] }))
      | .reaping [] => some (m.put c .done)
      | .reaping (pid :: rest) =>
        some (if ok then
            { (m.death pid).put c (.locking (.forget pid rest)) with
              pids := Function.update m.pids (m.hub c) ((m.pids (m.hub c)).filter (· ≠ pid)) }
          else m.put c (.reaping rest))
      | _ => none
    else none

end State

def machine (procs : Pid → Proc) (file : Option (Option (List Row))) : Machine State Action :=
  ⟨{ procs, file }, State.next lower⟩

end Model

def Sweep.pids (s : Sweep) : List Pid := s.rows.flatMap fun row => row.pid.toList ++ row.parent.toList

def Job.pids : Job → List Pid
  | adopt pid _ => [pid]
  | forget pid _ => [pid]
  | sweep s => s.pids

-- The pids a call goes by.
def Stage.inHand : Stage → List Pid
  | adopting pid _ => [pid]
  | locking job => job.pids
  | reading job => job.pids
  | writing _ w => w.job.pids
  | checking s => s.pids
  | probing _ s => s.pids
  | matching _ s => s.pids
  | killing _ s => s.pids
  | _ => []

def State.inHand (m : State) (pid : Pid) : Bool := m.calls.any fun c => decide (pid ∈ (m.stage c).inHand)

-- A file that is there is read, a write replaces what it was made from, a process forgets children of its own only, and
-- no new process is given a pid that a call goes by.
def orderly (m : State) : Action → Bool
  | .start pid _ => !m.inHand pid
  | .spawn _ _ pid _ _ => !m.inHand pid
  | .forget _ hub pid => decide (pid ≤ 0) || (m.procs pid).parent == some (m.self hub)
  | .step c ok => match m.stage c with
    | .reading _ => ok || rowsOf m.file == []
    | .sweepReading => ok || rowsOf m.file == []
    | .writing .replacing w => !ok || w.version == m.version && m.tmp == some (some w.rows)
    | .reaping (pid :: _) => !ok || (m.procs pid).parent == some (m.hub c)
    | _ => true
  | _ => true

section Invariant

variable (lower : List Char → List Char)

def Dead (m : State) (row : Row) : Prop :=
  ∀ pid parent, row.pid = some pid → row.parent = some parent → m.live pid parent = false

def Job.Sound (m : State) (c : CallId) : Job → Prop
  | .adopt pid row => row.pid = some pid ∧ row.parent = some (m.hub c).1 ∧ (m.procs pid).parent = some (m.hub c)
  | .forget pid _ => (m.procs pid).parent = some (m.hub c)
  | .sweep _ => True

structure Sweep.Sound (m : State) (s : Sweep) : Prop where
  le : s.version ≤ m.version
  file : s.version = m.version → rowsOf m.file ⊆ s.rows
  todo : s.todo ⊆ s.rows
  rows : ∀ row ∈ s.rows, row ∈ s.todo ∨ row ∈ s.survivors ∨ Dead m row

def Job.Omits (m : State) (row : Row) : Job → Prop
  | .adopt pid _ => row.pid = some pid
  | .forget pid _ => row.pid = some pid
  | .sweep s => row ∈ s.rows ∧ Dead m row

def Write.Sound (m : State) (w : Write) : Prop :=
  w.version ≤ m.version ∧ (w.version = m.version → ∀ row ∈ rowsOf m.file, row ∈ w.rows ∨ w.job.Omits m row) ∧
    ∀ pid row, w.job = .adopt pid row → row ∈ w.rows

def Orphan (m : State) (s : Sweep) (row : Row) : Prop :=
  row ∈ s.rows ∧ row.pid.isSome ∧ row.parent.isSome ∧ m.aliveRow row.parent = false

def Holds (m : State) (c : CallId) : Stage → Prop
  | .adopting pid row => (Job.adopt pid row).Sound m c
  | .locking (.sweep s) => s.Sound m ∧ s.todo = []
  | .locking job => job.Sound m c
  | .reading job => job.Sound m c
  | .writing _ w => w.job.Sound m c ∧ w.Sound m
  | .checking s => s.Sound m
  | .probing row s => s.Sound m ∧ Orphan m s row
  | .matching row s => s.Sound m ∧ Orphan m s row
  | .killing row s => s.Sound m ∧ Orphan m s row ∧ m.identified lower row
  | _ => True

structure Inv (m : State) : Prop where
  called : ∀ c, m.stage c ≠ .unborn → c ∈ m.calls
  holds : ∀ c, Holds lower m c (m.stage c)
  kills : ∀ k ∈ m.kills, k.row.parent.isSome ∧ k.parentAlive = false ∧ k.identified
  removals : ∀ e ∈ m.removals, (∃ rest, e.job = .forget e.pid rest) ∧ e.hub.1 = e.parent

-- The processes with the pids some call goes by are as they were, or have ended.
def Ages (m m' : State) (pids : List Pid) : Prop :=
  ∀ pid ∈ pids, (m'.alive pid → m.alive pid) ∧ m'.self pid = m.self pid ∧
    (m'.procs pid).parent = (m.procs pid).parent ∧ (m'.procs pid).cmdline = (m.procs pid).cmdline

variable {lower} {m m' : State} {c : CallId} {st : Stage} {row : Row} {s : Sweep}

theorem mem_sweep_pids (hrow : row ∈ s.rows) {pid : Pid} (hpid : row.pid = some pid ∨ row.parent = some pid) :
    pid ∈ s.pids := by
  refine List.mem_flatMap.mpr ⟨row, hrow, ?_⟩
  rcases hpid with hpid | hpid <;> simp [hpid]

theorem Dead.age (hages : Ages m m' s.pids) (hrow : row ∈ s.rows) (h : Dead m row) : Dead m' row := by
  intro pid parent hpid hparent
  have hold := h pid parent hpid hparent
  obtain ⟨hchild, -, hof, -⟩ := hages pid (mem_sweep_pids hrow (.inl hpid))
  obtain ⟨hhub, hself, -, -⟩ := hages parent (mem_sweep_pids hrow (.inr hparent))
  refine Bool.eq_false_iff.mpr fun hlive => ?_
  simp only [State.live, Bool.and_eq_true] at hlive
  rw [hself, hof] at hlive
  have hlive : m.live pid parent := by
    simp only [State.live, Bool.and_eq_true]
    exact ⟨⟨hchild hlive.1.1, hhub hlive.1.2⟩, hlive.2⟩
  exact Bool.false_ne_true (hold.symm.trans hlive)

def Later (m m' : State) : Prop := m'.version = m.version ∧ m'.file = m.file ∨ m.version < m'.version

theorem Later.le (h : Later m m') : m.version ≤ m'.version := by
  rcases h with ⟨heq, -⟩ | hlt
  · exact Nat.le_of_eq heq.symm
  · exact Nat.le_of_lt hlt

theorem Later.file (h : Later m m') {version : Nat} (hle : version ≤ m.version) (heq : version = m'.version) :
    version = m.version ∧ m'.file = m.file := by
  rcases h with ⟨hver, hfile⟩ | hlt
  · exact ⟨heq.trans hver, hfile⟩
  · omega

theorem Job.Sound.age {job : Job} (hhub : m'.hub c = m.hub c) (hages : Ages m m' job.pids) (h : job.Sound m c) :
    job.Sound m' c := by
  cases job with
  | adopt pid row =>
      obtain ⟨hpid, hparent, hof⟩ := h
      refine ⟨hpid, hhub ▸ hparent, ?_⟩
      rw [(hages pid (List.mem_singleton_self pid)).2.2.1, hhub]
      exact hof
  | forget pid rest =>
      have hof : (m.procs pid).parent = some (m.hub c) := h
      show (m'.procs pid).parent = some (m'.hub c)
      rw [(hages pid (List.mem_singleton_self pid)).2.2.1, hhub]
      exact hof
  | sweep s => trivial

theorem Sweep.Sound.age (hlater : Later m m') (hages : Ages m m' s.pids) (h : s.Sound m) : s.Sound m' := by
  obtain ⟨hle, hfile, htodo, hrows⟩ := h
  refine ⟨hle.trans hlater.le, fun heq => ?_, htodo, fun row hrow => ?_⟩
  · obtain ⟨hver, hsame⟩ := hlater.file hle heq
    exact hsame ▸ hfile hver
  · exact (hrows row hrow).imp_right (Or.imp_right (Dead.age hages hrow))

theorem Write.Sound.age {w : Write} (hlater : Later m m') (hages : Ages m m' w.job.pids) (h : w.Sound m) :
    w.Sound m' := by
  obtain ⟨hle, hfile, hadopt⟩ := h
  refine ⟨hle.trans hlater.le, fun heq row hrow => ?_, hadopt⟩
  obtain ⟨hver, hsame⟩ := hlater.file hle heq
  refine (hfile hver row (hsame ▸ hrow)).imp_right fun homits => ?_
  cases hjob : w.job with
  | sweep s =>
      rw [hjob] at homits hages
      exact ⟨homits.1, homits.2.age hages homits.1⟩
  | _ =>
      rw [hjob] at homits
      exact homits

theorem Orphan.age (hages : Ages m m' s.pids) (h : Orphan m s row) : Orphan m' s row := by
  obtain ⟨hrow, hpid, hsome, hdead⟩ := h
  refine ⟨hrow, hpid, hsome, ?_⟩
  cases hparent : row.parent with
  | none => rfl
  | some parent =>
      rw [hparent] at hdead
      refine Bool.eq_false_iff.mpr fun halive => ?_
      exact Bool.false_ne_true (hdead.symm.trans ((hages parent (mem_sweep_pids hrow (.inr hparent))).1 halive))

theorem identified_age (hages : Ages m m' s.pids) (hrow : row ∈ s.rows) (h : m.identified lower row) :
    m'.identified lower row := by
  simp only [State.identified, Option.all_eq_true, Bool.or_eq_true, Bool.not_eq_true'] at h ⊢
  intro pid hpid
  obtain ⟨halive, -, -, hcmd⟩ := hages pid (mem_sweep_pids hrow (.inl hpid))
  rcases h pid hpid with hdead | hmatches
  · exact .inl (Bool.eq_false_iff.mpr fun hlive => Bool.false_ne_true (hdead.symm.trans (halive hlive)))
  · exact .inr (hcmd ▸ hmatches)

theorem Holds.age (hhub : m'.hub c = m.hub c) (hlater : Later m m') (hages : Ages m m' st.inHand)
    (h : Holds lower m c st) : Holds lower m' c st := by
  cases st with
  | adopting pid row => exact @Job.Sound.age m m' c (.adopt pid row) hhub hages h
  | locking job =>
      cases job with
      | sweep s => exact ⟨h.1.age hlater hages, h.2⟩
      | adopt pid row => exact @Job.Sound.age m m' c (.adopt pid row) hhub hages h
      | forget pid rest => exact @Job.Sound.age m m' c (.forget pid rest) hhub hages h
  | reading job => exact Job.Sound.age hhub hages h
  | writing part w => exact ⟨h.1.age hhub hages, h.2.age hlater hages⟩
  | checking s => exact Sweep.Sound.age hlater hages h
  | probing row s => exact ⟨h.1.age hlater hages, h.2.age hages⟩
  | matching row s => exact ⟨h.1.age hlater hages, h.2.age hages⟩
  | killing row s => exact ⟨h.1.age hlater hages, h.2.1.age hages, identified_age hages h.2.1.1 h.2.2⟩
  | _ => trivial

theorem ages_refl (hprocs : m'.procs = m.procs) (pids : List Pid) : Ages m m' pids := by
  intro pid _
  simp only [State.alive, State.self, hprocs]
  exact ⟨id, trivial, trivial, trivial⟩

theorem ages_death {x : Pid} (hprocs : m'.procs = (m.death x).procs) (pids : List Pid) : Ages m m' pids := by
  intro pid _
  simp only [State.alive, State.self, hprocs, State.death, Function.update_apply]
  split
  · subst_vars
    exact ⟨by simp, rfl, rfl, rfl⟩
  · exact ⟨id, rfl, rfl, rfl⟩

theorem ages_birth {x : Pid} {parent : Option Hub} {cmdline : List Char} {pids : List Pid} (hx : x ∉ pids)
    (hprocs : m'.procs = (m.birth x parent cmdline).procs) : Ages m m' pids := by
  intro pid hpid
  have hne : pid ≠ x := by
    rintro rfl
    exact hx hpid
  simp only [State.alive, State.self, hprocs, State.birth, Function.update_of_ne hne]
  exact ⟨id, trivial, trivial, trivial⟩

theorem Inv.move (h : Inv lower m) (hstage : m'.stage = Function.update m.stage c st) (hcalls : m.calls ⊆ m'.calls)
    (hc : c ∈ m'.calls) (hhub : ∀ d ≠ c, m'.hub d = m.hub d) (hlater : Later m m')
    (hages : ∀ d ≠ c, Ages m m' (m.stage d).inHand) (hholds : Holds lower m' c st)
    (hkills : ∀ k ∈ m'.kills, k.row.parent.isSome ∧ k.parentAlive = false ∧ k.identified)
    (hremovals : ∀ e ∈ m'.removals, (∃ rest, e.job = .forget e.pid rest) ∧ e.hub.1 = e.parent) : Inv lower m' where
  called d hd := by
    by_cases hdc : d = c
    · exact hdc ▸ hc
    · rw [hstage, Function.update_of_ne hdc] at hd
      exact hcalls (h.called d hd)
  holds d := by
    by_cases hdc : d = c
    · rw [hstage, hdc, Function.update_self]
      exact hholds
    · rw [hstage, Function.update_of_ne hdc]
      exact (h.holds d).age (hhub d hdc) hlater (hages d hdc)
  kills := hkills
  removals := hremovals

theorem Inv.step (h : Inv lower m) (hstage : m'.stage = Function.update m.stage c st) (hborn : m.stage c ≠ .unborn)
    (hcalls : m'.calls = m.calls) (hhub : m'.hub = m.hub) (hfile : m'.version = m.version ∧ m'.file = m.file)
    (hprocs : m'.procs = m.procs) (hkills : m'.kills = m.kills) (hremovals : m'.removals = m.removals)
    (hholds : Holds lower m c st) : Inv lower m' := by
  refine h.move hstage (hcalls ▸ List.Subset.refl _) (hcalls ▸ h.called c hborn) (fun d _ => hhub ▸ rfl) (.inl hfile)
    (fun d _ => ages_refl hprocs _) ?_ (hkills ▸ h.kills) (hremovals ▸ h.removals)
  exact hholds.age (hhub ▸ rfl) (.inl hfile) (ages_refl hprocs _)

theorem Inv.holds_at (h : Inv lower m) (hc : m.stage c = st) : Holds lower m c st := hc ▸ h.holds c

theorem not_inHand {pid : Pid} (h : Inv lower m) (hpid : m.inHand pid = false) (d : CallId) :
    pid ∉ (m.stage d).inHand := by
  intro hmem
  have hborn : m.stage d ≠ .unborn := by
    intro hd
    rw [hd] at hmem
    cases hmem
  have hany : m.inHand pid := List.any_eq_true.mpr ⟨d, h.called d hborn, decide_eq_true hmem⟩
  exact Bool.false_ne_true (hpid.symm.trans hany)

theorem holds_over (job : Job) : Holds lower m c job.over := by
  unfold Job.over
  split <;> trivial

theorem Inv.finish {job : Job} (h : Inv lower m) (hborn : m.stage c ≠ .unborn) : Inv lower (m.finish c job) := by
  exact h.step rfl hborn rfl rfl ⟨rfl, rfl⟩ rfl rfl rfl (holds_over job)

theorem Inv.birth {pid : Pid} {parent : Option Hub} {cmdline : List Char} (h : Inv lower m)
    (hpid : m.inHand pid = false) : Inv lower (m.birth pid parent cmdline) where
  called := h.called
  holds d := by
    have hd := h.holds d
    exact @Holds.age lower m (m.birth pid parent cmdline) d _ rfl (.inl ⟨rfl, rfl⟩)
      (ages_birth (not_inHand h hpid d) rfl) hd
  kills := h.kills
  removals := h.removals

theorem Inv.death {pid : Pid} (h : Inv lower m) : Inv lower (m.death pid) where
  called := h.called
  holds d := by
    have hd := h.holds d
    exact @Holds.age lower m (m.death pid) d _ rfl (.inl ⟨rfl, rfl⟩) (ages_death rfl _) hd
  kills := h.kills
  removals := h.removals

theorem Inv.begin {hub : Pid} (h : Inv lower m) (hholds : Holds lower (m.begin c hub st) c st) :
    Inv lower (m.begin c hub st) :=
  h.move rfl (List.subset_cons_self _ _) List.mem_cons_self (fun _ hd => Function.update_of_ne hd ..)
    (.inl ⟨rfl, rfl⟩) (fun _ _ => ages_refl rfl _) hholds h.kills h.removals

theorem Inv.onRead {job : Job} {rows : List Row} (h : Inv lower m) (hc : m.stage c = .reading job)
    (hrows : rows = rowsOf m.file) : Inv lower (m.onRead c job rows) := by
  have hborn : m.stage c ≠ .unborn := by simp [hc]
  have hjob : job.Sound m c := h.holds_at hc
  have homit : ∀ (pid : Pid), ∀ row ∈ rowsOf m.file, row ∈ rows.filter (·.pid ≠ some pid) ∨ row.pid = some pid := by
    intro pid row hrow
    by_cases hpid : row.pid = some pid
    · exact .inr hpid
    · exact .inl (List.mem_filter.mpr ⟨hrows ▸ hrow, decide_eq_true hpid⟩)
  cases job with
  | adopt pid own =>
      refine h.step rfl hborn rfl rfl ⟨rfl, rfl⟩ rfl rfl rfl ⟨hjob, Nat.le_refl _, fun _ row hrow => ?_, ?_⟩
      · exact (homit pid row hrow).imp_left fun hmem => List.mem_append_left _ hmem
      · rintro _ _ ⟨⟩
        exact List.mem_append_right _ (List.mem_singleton_self _)
  | forget pid rest =>
      simp only [State.onRead]
      split
      · exact h.finish hborn
      · refine h.step rfl hborn rfl rfl ⟨rfl, rfl⟩ rfl rfl rfl ⟨hjob, Nat.le_refl _, fun _ row hrow => ?_, ?_⟩
        · exact homit pid row hrow
        · rintro _ _ ⟨⟩
  | sweep s => exact h

theorem lost_sound {w : Write} (hjob : w.job.Sound m c) (hw : w.Sound m) (hver : w.version = m.version)
    (htmp : m.tmp = some (some w.rows)) :
    ∀ e ∈ m.lost c w.job, (∃ rest, e.job = .forget e.pid rest) ∧ e.hub.1 = e.parent := by
  intro e he
  obtain ⟨row, hrow, hlost⟩ := List.mem_filterMap.mp he
  split at hlost
  · rename_i pid parent hpid hparent
    obtain ⟨⟨hlive, hgone⟩, heq⟩ := Option.ite_none_right_eq_some.mp hlost
    have hcovered : ∀ r ∈ w.rows, r.pid = some pid → r.parent = some parent → False := by
      intro r hr hrp hrq
      refine hgone (List.any_eq_true.mpr ⟨r, ?_, by simp [hrp, hrq]⟩)
      rw [htmp]
      exact hr
    have hof : (m.procs pid).parent = some (m.self parent) := by
      simp only [State.live, Bool.and_eq_true] at hlive
      exact eq_of_beq hlive.2
    have homits := (hw.2.1 hver row hrow).resolve_left fun hmem => hcovered row hmem hpid hparent
    cases heq
    cases hj : w.job with
    | adopt own mine =>
        rw [hj] at homits hjob
        obtain rfl : own = pid := Option.some.inj (homits.symm.trans hpid)
        have hhub : m.hub c = m.self parent := Option.some.inj (hjob.2.2.symm.trans hof)
        have hmine : mine.parent = some parent := by rw [hjob.2.1, hhub]; rfl
        exact absurd (hcovered mine (hw.2.2 own mine hj) hjob.1 hmine) id
    | forget own rest =>
        rw [hj] at homits hjob
        obtain rfl : own = pid := Option.some.inj (homits.symm.trans hpid)
        have hmine : (m.procs own).parent = some (m.hub c) := hjob
        have hhub : m.hub c = m.self parent := Option.some.inj (hmine.symm.trans hof)
        exact ⟨⟨rest, rfl⟩, by rw [hhub]; rfl⟩
    | sweep s =>
        rw [hj] at homits
        exact absurd hlive (by simp [homits.2 pid parent hpid hparent])
  · cases hlost

theorem Inv.onWrite {part : Part} {w : Write} {ok : Bool} (h : Inv lower m) (hc : m.stage c = .writing part w)
    (horderly : part = .replacing → ok → w.version = m.version ∧ m.tmp = some (some w.rows)) :
    Inv lower (m.onWrite c part w ok) := by
  have hborn : m.stage c ≠ .unborn := by simp [hc]
  obtain ⟨hjob, hw⟩ : w.job.Sound m c ∧ w.Sound m := h.holds_at hc
  cases ok with
  | false => cases part <;> exact h.finish hborn
  | true =>
      cases part with
      | opening => exact h.step rfl hborn rfl rfl ⟨rfl, rfl⟩ rfl rfl rfl ⟨hjob, hw⟩
      | filling => exact h.step rfl hborn rfl rfl ⟨rfl, rfl⟩ rfl rfl rfl ⟨hjob, hw⟩
      | replacing =>
          obtain ⟨hver, htmp⟩ := horderly rfl rfl
          simp only [State.onWrite, htmp]
          refine h.move rfl (List.Subset.refl _) (h.called c hborn) (fun _ _ => rfl) (.inr (Nat.lt_succ_self _))
            (fun _ _ => ages_refl rfl _) ?_ h.kills ?_
          · exact holds_over w.job
          · intro e he
            rcases List.mem_append.mp he with he | he
            · exact lost_sound hjob hw hver htmp e he
            · exact h.removals e he

theorem Sweep.Sound.keep {todo : List Row} (h : s.Sound m) (htodo : s.todo = row :: todo) :
    ({ s with todo, survivors := s.survivors ++ [row] } : Sweep).Sound m := by
  have hsub : todo ⊆ s.rows := fun r hr => h.todo (htodo ▸ List.mem_cons_of_mem _ hr)
  refine ⟨h.le, h.file, hsub, fun r hr => ?_⟩
  rcases h.rows r hr with hmem | hmem | hdead
  · rcases List.mem_cons.mp (htodo ▸ hmem) with rfl | hmem
    · exact .inr (.inl (List.mem_append_right _ (List.mem_singleton_self _)))
    · exact .inl hmem
  · exact .inr (.inl (List.mem_append_left _ hmem))
  · exact .inr (.inr hdead)

theorem Sweep.Sound.drop {todo : List Row} (h : s.Sound m) (htodo : s.todo = row :: todo) (hdead : Dead m row) :
    ({ s with todo } : Sweep).Sound m := by
  have hsub : todo ⊆ s.rows := fun r hr => h.todo (htodo ▸ List.mem_cons_of_mem _ hr)
  refine ⟨h.le, h.file, hsub, fun r hr => ?_⟩
  rcases h.rows r hr with hmem | hmem | hdead
  · rcases List.mem_cons.mp (htodo ▸ hmem) with rfl | hmem
    · exact .inr (.inr hdead)
    · exact .inl hmem
  · exact .inr (.inl hmem)
  · exact .inr (.inr hdead)

theorem Sweep.Sound.survive (h : s.Sound m) : ({ s with survivors := s.survivors ++ [row] } : Sweep).Sound m :=
  ⟨h.le, h.file, h.todo, fun r hr => (h.rows r hr).imp_right (Or.imp_left fun hmem => List.mem_append_left _ hmem)⟩

theorem dead_of_parent (h : m.aliveRow row.parent = false) : Dead m row := by
  intro pid parent _ hparent
  rw [hparent] at h
  have halive : m.alive parent = false := h
  simp [State.live, halive]

theorem dead_of_pid (h : m.aliveRow row.pid = false) : Dead m row := by
  intro pid parent hpid _
  rw [hpid] at h
  have halive : m.alive pid = false := h
  simp [State.live, halive]

theorem alive_nonpos {pid : Pid} (h : pid ≤ 0) : m.alive pid = false := by
  simp [State.alive, Int.not_lt.mpr h]

theorem Inv.onCheck {sure : Bool} (h : Inv lower m) (hc : m.stage c = .checking s) :
    Inv lower (m.onCheck c s sure) := by
  have hborn : m.stage c ≠ .unborn := by simp [hc]
  have hs : s.Sound m := h.holds_at hc
  have hput : ∀ {st : Stage}, Holds lower m c st → Inv lower (m.put c st) := fun hst =>
    h.step rfl hborn rfl rfl ⟨rfl, rfl⟩ rfl rfl rfl hst
  simp only [State.onCheck]
  split
  · rename_i htodo
    exact hput ⟨hs, htodo⟩
  · rename_i row todo hcons
    have hrow : row ∈ s.rows := hs.todo (hcons ▸ List.mem_cons_self)
    split
    · rename_i hpid
      exact hput (hs.drop hcons (dead_of_pid (by rw [hpid]; rfl)))
    · rename_i pid parent hpid
      split
      · rename_i hle
        exact hput (hs.drop hcons (dead_of_pid (by rw [hpid]; exact alive_nonpos hle)))
      · split
        · exact hput (hs.keep hcons)
        · rename_i parent hparent
          split
          · exact hput (hs.keep hcons)
          · split
            · exact hput (hs.keep hcons)
            · rename_i halive
              have hdead : m.aliveRow row.parent = false := by
                rw [hparent]
                exact Bool.eq_false_iff.mpr fun hlive => halive (Bool.or_eq_true_iff.mpr (.inl hlive))
              exact hput ⟨hs.drop hcons (dead_of_parent hdead), hrow, by simp [hpid], by simp [hparent], hdead⟩

theorem Inv.locked {job : Job} (h : Inv lower m) (hc : m.stage c = .locking job) :
    Inv lower { m.put c job.begun with lock := Function.update m.lock (m.hub c) (some c) } := by
  have hborn : m.stage c ≠ .unborn := by simp [hc]
  have hholds := h.holds_at hc
  cases job with
  | adopt pid row => exact h.step rfl hborn rfl rfl ⟨rfl, rfl⟩ rfl rfl rfl hholds
  | forget pid rest => exact h.step rfl hborn rfl rfl ⟨rfl, rfl⟩ rfl rfl rfl hholds
  | sweep s =>
      obtain ⟨hs, htodo⟩ := hholds
      refine h.step rfl hborn rfl rfl ⟨rfl, rfl⟩ rfl rfl rfl ⟨trivial, hs.le, fun hver row hrow => ?_, ?_⟩
      · have hmem := hs.file hver hrow
        rcases hs.rows row hmem with hleft | hkept | hdead
        · rw [htodo] at hleft
          cases hleft
        · exact .inl hkept
        · exact .inr ⟨hmem, hdead⟩
      · rintro _ _ ⟨⟩

theorem Inv.recordKill (h : Inv lower m) (hsome : row.parent.isSome) (hdead : m.aliveRow row.parent = false)
    (hident : m.identified lower row) :
    Inv lower (m.kill lower row) where
  called := h.called
  holds d := by
    have hd := h.holds d
    exact @Holds.age lower m (m.kill lower row) d _ rfl (.inl ⟨rfl, rfl⟩) (ages_refl rfl _) hd
  kills k hk := by
    rcases List.mem_cons.mp hk with rfl | hk
    · exact ⟨hsome, hdead, hident⟩
    · exact h.kills k hk
  removals := h.removals

theorem Inv.onKill {ok : Bool} (h : Inv lower m) (hc : m.stage c = .killing row s) :
    Inv lower (if ok then ((m.kill lower row).deathOf row.pid).put c (.checking s)
      else (m.kill lower row).put c (.checking { s with survivors := s.survivors ++ [row] })) := by
  have hborn : m.stage c ≠ .unborn := by simp [hc]
  obtain ⟨hs, ⟨-, hpid, hsome, hdead⟩, hident⟩ : s.Sound m ∧ Orphan m s row ∧ m.identified lower row := h.holds_at hc
  have hinv := h.recordKill hsome hdead hident
  have hsound : s.Sound (m.kill lower row) := @Sweep.Sound.age m _ s (.inl ⟨rfl, rfl⟩) (ages_refl rfl _) hs
  split
  · obtain ⟨pid, hpid⟩ := Option.isSome_iff_exists.mp hpid
    rw [hpid]
    have haged : s.Sound ((m.kill lower row).death pid) :=
      @Sweep.Sound.age (m.kill lower row) _ s (.inl ⟨rfl, rfl⟩) (ages_death rfl _) hsound
    exact (@Inv.death _ _ pid hinv).step rfl hborn rfl rfl ⟨rfl, rfl⟩ rfl rfl rfl haged
  · exact hinv.step rfl hborn rfl rfl ⟨rfl, rfl⟩ rfl rfl rfl hsound.survive

theorem rows_read {ok : Bool} (h : ok || rowsOf m.file == []) : (if ok then rowsOf m.file else []) = rowsOf m.file := by
  cases ok with
  | true => rfl
  | false => exact (eq_of_beq h).symm

theorem Inv.onStep {ok : Bool} (h : Inv lower m) (horderly : orderly m (.step c ok))
    (hstep : m.next lower (.step c ok) = some m') : Inv lower m' := by
  obtain ⟨-, hstep⟩ := Option.ite_none_right_eq_some.mp hstep
  simp only [orderly] at horderly
  cases hc : m.stage c with
  | unborn | done =>
      rw [hc] at hstep
      cases hstep
  | adopting pid row =>
      have hborn : m.stage c ≠ .unborn := by simp [hc]
      have hjob : (Job.adopt pid row).Sound m c := h.holds_at hc
      rw [hc] at hstep
      cases hstep
      split
      · exact h.step rfl hborn rfl rfl ⟨rfl, rfl⟩ rfl rfl rfl hjob
      · exact h.step rfl hborn rfl rfl ⟨rfl, rfl⟩ rfl rfl rfl trivial
  | locking job =>
      rw [hc] at hstep
      obtain ⟨-, heq⟩ := Option.ite_none_left_eq_some.mp hstep
      cases heq
      exact h.locked hc
  | reading job =>
      rw [hc] at hstep horderly
      cases hstep
      exact h.onRead hc (rows_read horderly)
  | writing part w =>
      rw [hc] at hstep horderly
      cases hstep
      refine h.onWrite hc ?_
      rintro rfl rfl
      simpa using horderly
  | sweepReading =>
      have hborn : m.stage c ≠ .unborn := by simp [hc]
      rw [hc] at hstep horderly
      cases hstep
      rw [rows_read horderly]
      refine h.step rfl hborn rfl rfl ⟨rfl, rfl⟩ rfl rfl rfl ?_
      split
      · trivial
      · exact ⟨Nat.le_refl _, fun _ => List.Subset.refl _, List.Subset.refl _, fun _ => .inl⟩
  | checking s =>
      rw [hc] at hstep
      cases hstep
      exact h.onCheck hc
  | probing row s =>
      have hborn : m.stage c ≠ .unborn := by simp [hc]
      have hholds : s.Sound m ∧ Orphan m s row := h.holds_at hc
      rw [hc] at hstep
      cases hstep
      refine h.step rfl hborn rfl rfl ⟨rfl, rfl⟩ rfl rfl rfl ?_
      split
      · exact hholds
      · exact hholds.1
  | matching row s =>
      have hborn : m.stage c ≠ .unborn := by simp [hc]
      obtain ⟨hs, horphan⟩ : s.Sound m ∧ Orphan m s row := h.holds_at hc
      rw [hc] at hstep
      cases hstep
      refine h.step rfl hborn rfl rfl ⟨rfl, rfl⟩ rfl rfl rfl ?_
      split
      · rename_i hmatches
        exact ⟨hs, horphan, (Bool.and_eq_true_iff.mp hmatches).2⟩
      · exact hs
  | killing row s =>
      rw [hc] at hstep
      cases hstep
      exact h.onKill hc
  | reaping pids =>
      have hborn : m.stage c ≠ .unborn := by simp [hc]
      rw [hc] at hstep horderly
      cases pids with
      | nil =>
          cases hstep
          exact h.step rfl hborn rfl rfl ⟨rfl, rfl⟩ rfl rfl rfl trivial
      | cons pid rest =>
          cases hstep
          split
          · rename_i hok
            have hof : (m.procs pid).parent = some (m.hub c) := by simpa [hok] using horderly
            have hof : ((m.death pid).procs pid).parent = some (m.hub c) := by simpa [State.death] using hof
            exact (@Inv.death _ _ pid h).step rfl hborn rfl rfl ⟨rfl, rfl⟩ rfl rfl rfl hof
          · exact h.step rfl hborn rfl rfl ⟨rfl, rfl⟩ rfl rfl rfl trivial

theorem Inv.next {a : Action} (h : Inv lower m) (horderly : orderly m a) (hstep : m.next lower a = some m') :
    Inv lower m' := by
  cases a with
  | start pid cmdline =>
      obtain ⟨-, heq⟩ := Option.ite_none_right_eq_some.mp hstep
      cases heq
      exact h.birth (by simpa [orderly] using horderly)
  | exit pid =>
      cases hstep
      exact h.death
  | spawn c hub pid cmdline marker =>
      obtain ⟨⟨-, hhub, -, hpid⟩, heq⟩ := Option.ite_none_right_eq_some.mp hstep
      cases heq
      have hinv : Inv lower (m.birth pid (some (m.self hub)) cmdline) := h.birth (by simpa [orderly] using horderly)
      have hne : hub ≠ pid := by
        rintro rfl
        exact Bool.false_ne_true (hpid.symm.trans hhub)
      refine hinv.begin ⟨rfl, ?_, ?_⟩
      · simp [State.begin, State.self]
      · simp [State.begin, State.put, State.birth, State.self, Function.update_of_ne hne]
  | forget c hub pid =>
      obtain ⟨-, heq⟩ := Option.ite_none_right_eq_some.mp hstep
      cases heq
      refine h.move rfl (List.subset_cons_self _ _) List.mem_cons_self (fun _ hd => Function.update_of_ne hd ..)
        (.inl ⟨rfl, rfl⟩) (fun _ _ => ages_refl rfl _) ?_ h.kills h.removals
      split
      · trivial
      · rename_i hpos
        have hof : (m.procs pid).parent = some (m.self hub) := by simpa [orderly, hpos] using horderly
        show (m.procs pid).parent = some (Function.update m.hub c (m.self hub) c)
        rw [Function.update_self]
        exact hof
  | reapAll c hub =>
      obtain ⟨-, heq⟩ := Option.ite_none_right_eq_some.mp hstep
      cases heq
      exact h.begin trivial
  | sweep c hub =>
      obtain ⟨-, heq⟩ := Option.ite_none_right_eq_some.mp hstep
      cases heq
      exact h.begin trivial
  | step c ok => exact h.onStep horderly hstep

end Invariant

-- What the registry is for: a pid is killed while its row's parent does not run and only a process with the recorded
-- marker does, and a live child of a live process loses its row to that process's own `forget` only.
structure Kept (m : State) : Prop where
  kills : ∀ k ∈ m.kills, k.row.parent.isSome ∧ k.parentAlive = false ∧ k.identified
  removals : ∀ e ∈ m.removals, (∃ rest, e.job = .forget e.pid rest) ∧ e.hub.1 = e.parent

theorem kept_of_orderly {lower : List Char → List Char} {procs : Pid → Proc} {file : Option (Option (List Row))}
    {m : State} (h : ((machine lower procs file).restrict fun m a => orderly m a = true).Reachable m) : Kept m := by
  have hstart : Inv lower (machine lower procs file).start :=
    ⟨by intro c hc; exact absurd rfl hc, fun _ => trivial, by rintro _ ⟨⟩, by rintro _ ⟨⟩⟩
  have hinv : Inv lower m := h.invariant hstart fun m a m' hinv hstep => by
    obtain ⟨horderly, hnext⟩ := Machine.restrict_next hstep
    exact hinv.next horderly hnext
  exact ⟨hinv.kills, hinv.removals⟩

-- The processes 1 and 2 run, and an orphan of a process that does not.
def twoHubs (pid : Pid) : Proc :=
  if pid = 1 ∨ pid = 2 then ⟨true, 1, none, []⟩
  else if pid = 5 then ⟨true, 1, some (9, 1), ['a']⟩
  else {}

def orphan : Row := ⟨some 5, some 9, some ['a']⟩

def steps (c : CallId) (n : Nat) : List Action := List.replicate n (.step c true)

-- A sweep, then a spawn, each undisturbed.
theorem kept_sweep_spawn :
    ∃ m, ((machine id twoHubs (some (some [orphan]))).restrict fun m a => orderly m a = true).Reachable m ∧ Kept m ∧
      m.kills = [⟨orphan, false, true⟩] ∧ m.file = some (some [⟨some 7, some 1, some ['b']⟩]) := by
  have hrun : (((machine id twoHubs (some (some [orphan]))).restrict fun m a => orderly m a = true).run
      (machine id twoHubs (some (some [orphan]))).start
      (.sweep 0 2 :: steps 0 10 ++ .spawn 1 1 7 ['b'] ['b'] :: steps 1 6)).map (fun m => (m.kills, m.file)) =
      some ([⟨orphan, false, true⟩], some (some [⟨some 7, some 1, some ['b']⟩])) := by decide
  obtain ⟨m, hm, hlast⟩ := Option.map_eq_some_iff.mp hrun
  obtain ⟨hkills, hfile⟩ := Prod.mk.inj hlast
  exact ⟨m, ⟨_, hm⟩, kept_of_orderly ⟨_, hm⟩, hkills, hfile⟩

-- A sweep writes back what it has read, without the child that another process has registered since.
theorem sweep_drops_live : ¬∀ m, (machine id twoHubs (some (some [orphan]))).Reachable m → Kept m := by
  intro h
  have hrun : ((machine id twoHubs (some (some [orphan]))).run (machine id twoHubs (some (some [orphan]))).start
      (.sweep 0 2 :: steps 0 1 ++ .spawn 1 1 7 ['b'] ['b'] :: steps 1 6 ++ steps 0 9)).map (fun m => m.removals) =
      some [⟨7, 1, .sweep ⟨0, [orphan], [], []⟩, (2, 1)⟩] := by decide
  obtain ⟨m, hm, hlast⟩ := Option.map_eq_some_iff.mp hrun
  obtain ⟨-, hparent⟩ := (h m ⟨_, hm⟩).removals _ (hlast ▸ List.mem_cons_self)
  cases hparent

end GaHub.Children
