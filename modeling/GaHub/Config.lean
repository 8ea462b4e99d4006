import Mathlib.Logic.Function.Basic
import Mathlib.Tactic.Common
import GaHub.Lib.Machine

namespace GaHub.Config

open Lib

abbrev CallId := Nat

-- What `load_config` knows a file by, its path apart.
structure Sig where
  mtime : Nat
  size : Nat
  deriving DecidableEq

inductive Value (α β : Type) where
  | scalar (a : α)
  | nested (b : β)
  deriving DecidableEq

abbrev Settings (α β : Type) := List (String × Value α β)

def Value.shape {α β : Type} : Value α β → Option α
  | scalar a => some a
  | nested _ => none

-- `mutate` is given `dict(data)`, which shares its nested values with `data`: it makes something of the copy and
-- something of the dict that was copied.
structure Mutate (α β : Type) where
  copy : Settings α β → Settings α β
  source : Settings α β → Settings α β
  raises : Settings α β → Bool
  shallow : ∀ s, (source s).map (fun p => (p.1, p.2.shape)) = s.map fun p => (p.1, p.2.shape)

inductive End where
  | returned
  | raised
  -- `'NoneType' object is not subscriptable`
  | crashed
  deriving DecidableEq

-- Where a call of `load_config` or `update_config` is. The dict a call parses is known by the call.
inductive Stage (α β : Type) where
  | unborn
  -- for `_config_rmw_lock`
  | waiting
  | entered
  -- before `_config_cache is not None`, `_config_cache[0] == sig` and `dict(_config_cache[1])`
  | stated (sig : Sig)
  | seen (sig : Sig)
  | matched (sig : Sig)
  | reading (sig : Sig)
  | parsed (sig : Sig)
  -- with the dict it was copied from
  | loaded (source : Option CallId) (cfg : Settings α β)
  | mutated (cfg : Settings α β)
  -- before `reset_config_cache`
  | replaced
  | done (e : End)

namespace Stage

variable {α β : Type}

def inside : Stage α β → Bool
  | unborn => false
  | waiting => false
  | done _ => false
  | _ => true

-- What the call goes by may be older than the file.
def working : Stage α β → Bool
  | stated _ => true
  | seen _ => true
  | matched _ => true
  | parsed _ => true
  | loaded _ _ => true
  | mutated _ => true
  | _ => false

def past : Stage α β → Bool
  | loaded _ _ => true
  | mutated _ => true
  | replaced => true
  | done _ => true
  | _ => false

def stored : Stage α β → Bool
  | replaced => true
  | done .returned => true
  | _ => false

end Stage

structure Store (α β : Type) where
  call : CallId
  before : Settings α β
  mutate : Mutate α β
  after : Settings α β

structure State (α β : Type) where
  file : Option (Sig × Settings α β) := none
  -- `_config_cache`
  cache : Option (Sig × CallId) := none
  dicts : CallId → Settings α β := fun _ => []
  lock : Option CallId := none
  stage : CallId → Stage α β := fun _ => .unborn
  -- what a call of `update_config` is given
  mutates : CallId → Option (Mutate α β) := fun _ => none
  -- Nested values have been edited in place since the cache was last dropped.
  edited : Bool := false
  used : List Sig := []
  -- what the file has held since it had a signature, and since a call began
  after : Sig → List (Settings α β) := fun _ => []
  during : CallId → List (Settings α β) := fun _ => []
  -- what `load_config` has returned, and what the file held during the call
  returns : List (Settings α β × List (Settings α β)) := []
  stores : List (Store α β) := []

inductive Action (α β : Type) where
  | load (i : CallId)
  | update (i : CallId) (mutate : Mutate α β)
  | acquire (i : CallId)
  | stat (i : CallId) (ok : Bool)
  | check (i : CallId)
  | compare (i : CallId)
  | take (i : CallId)
  -- `ok` is false where the file cannot be read or parsed.
  | read (i : CallId) (ok : Bool)
  | store (i : CallId)
  | mutate (i : CallId)
  | replace (i : CallId) (sig : Sig)
  | fail (i : CallId)
  | reset (i : CallId)
  | external (file : Option (Sig × Settings α β))

section Model

variable {α β : Type}

def settings : Option (Sig × Settings α β) → Settings α β
  | some (_, s) => s
  | none => []

namespace State

variable (m : State α β)

def put (i : CallId) (st : Stage α β) : State α β := { m with stage := Function.update m.stage i st }

def begin (i : CallId) (mutates : Option (Mutate α β)) (st : Stage α β) : State α β :=
  { m.put i st with
    mutates := Function.update m.mutates i mutates, during := Function.update m.during i [settings m.file] }

def finish (i : CallId) (e : End) : State α β :=
  { m.put i (.done e) with lock := if m.lock = some i then none else m.lock }

-- The load ends, on its own or within `update_config`.
def answer (i : CallId) (source : Option CallId) (cfg : Settings α β) : State α β :=
  match m.mutates i with
  | none => { m.finish i .returned with returns := (cfg, m.during i) :: m.returns }
  | some _ => m.put i (.loaded source cfg)

def change (file : Option (Sig × Settings α β)) : State α β :=
  { m with
    file
    used := match file with
      | some (sig, _) => sig :: m.used
      | none => m.used
    after := fun sig =>
      if file.map Prod.fst = some sig then [settings file] else settings file :: m.after sig
    during := fun i => settings file :: m.during i }

def onStat (i : CallId) (ok : Bool) : State α β :=
  match m.file with
  | some (sig, _) => if ok then m.put i (.stated sig) else { m with cache := none }.answer i none []
  | none => { m with cache := none }.answer i none []

def onCompare (i : CallId) (sig : Sig) : State α β :=
  match m.cache with
  | none => m.finish i .crashed
  | some (sig', _) => m.put i (if sig' = sig then .matched sig else .reading sig)

def onTake (i : CallId) : State α β :=
  match m.cache with
  | none => m.finish i .crashed
  | some (_, d) => m.answer i (some d) (m.dicts d)

variable [DecidableEq α] [DecidableEq β]

def onMutate (i : CallId) (mutate : Mutate α β) (source : Option CallId) (cfg : Settings α β) : State α β :=
  let shared := match source with
    | some d =>
      { m with
        dicts := Function.update m.dicts d (mutate.source (m.dicts d))
        edited := m.edited || mutate.source cfg ≠ cfg }
    | none => m
  if mutate.raises cfg then shared.finish i .raised else shared.put i (.mutated (mutate.copy cfg))

def next : Action α β → Option (State α β)
  | .load i => match m.stage i with
    | .unborn => some (m.begin i none .entered)
    | _ => none
  | .update i mutate => match m.stage i with
    | .unborn => some (m.begin i (some mutate) .waiting)
    | _ => none
  | .acquire i => match m.stage i, m.lock with
    | .waiting, none => some { m.put i .entered with lock := some i }
    | _, _ => none
  | .stat i ok => match m.stage i with
    | .entered => some (m.onStat i ok)
    | _ => none
  | .check i => match m.stage i with
    | .stated sig => some (m.put i (if m.cache = none then .reading sig else .seen sig))
    | _ => none
  | .compare i => match m.stage i with
    | .seen sig => some (m.onCompare i sig)
    | _ => none
  | .take i => match m.stage i with
    | .matched _ => some (m.onTake i)
    | _ => none
  | .read i ok => match m.stage i with
    | .reading sig =>
      some { m.put i (.parsed sig) with dicts := Function.update m.dicts i (if ok then settings m.file else []) }
    | _ => none
  | .store i => match m.stage i with
    | .parsed sig => some ({ m with cache := some (sig, i) }.answer i (some i) (m.dicts i))
    | _ => none
  | .mutate i => match m.stage i, m.mutates i with
    | .loaded source cfg, some mutate => some (m.onMutate i mutate source cfg)
    | _, _ => none
  | .replace i sig => match m.stage i, m.mutates i with
    | .mutated cfg, some mutate =>
      some { (m.change (some (sig, cfg))).put i .replaced with stores := ⟨i, settings m.file, mutate, cfg⟩ :: m.stores }
    | _, _ => none
  | .fail i => match m.stage i with
    | .mutated _ => some (m.finish i .raised)
    | _ => none
  | .reset i => match m.stage i with
    | .replaced => some ({ m with cache := none, edited := false }.finish i .returned)
    | _ => none
  | .external file =>
    if file.map Prod.fst = m.file.map Prod.fst then none else some (m.change file)

end State

end Model

section Run

variable {α β : Type} [DecidableEq α] [DecidableEq β]

def machine (file : Option (Sig × Settings α β)) : Machine (State α β) (Action α β) :=
  ⟨{ ({} : State α β).change file with during := fun _ => [] }, fun m a => m.next a⟩

def State.updating (m : State α β) : Bool := m.lock.any fun j => (m.stage j).working

def orderly (m : State α β) : Action α β → Bool
  | .stat _ ok => ok || m.file.isNone
  | .compare _ => m.cache.isSome
  | .take i => match m.stage i with
    | .matched sig => m.cache.any (·.1 == sig) && !m.edited
    | _ => true
  | .read _ ok => ok || m.file.isNone
  | .mutate i => match m.stage i, m.mutates i with
    | .loaded source cfg, some mutate => source.isNone || !mutate.raises cfg || mutate.source cfg == cfg
    | _, _ => true
  | .replace _ sig => sig ∉ m.used
  | .fail _ => !m.edited
  | .external (some (sig, _)) => sig ∉ m.used && !m.updating
  | .external none => !m.updating
  | _ => true

end Run

section Invariant

variable {α β : Type}

def Holds (m : State α β) (i : CallId) : Stage α β → Prop
  | .stated sig => sig ∈ m.used ∧ m.after sig ⊆ m.during i ∧ (m.mutates i ≠ none → m.file.map Prod.fst = some sig)
  | .seen sig => sig ∈ m.used ∧ m.after sig ⊆ m.during i ∧ (m.mutates i ≠ none → m.file.map Prod.fst = some sig)
  | .matched sig => sig ∈ m.used ∧ m.after sig ⊆ m.during i ∧ (m.mutates i ≠ none → m.file.map Prod.fst = some sig)
  | .reading sig => sig ∈ m.used
  | .parsed sig => sig ∈ m.used ∧ m.dicts i ∈ m.after sig ∧ m.dicts i ∈ m.during i ∧
      (m.mutates i ≠ none → m.dicts i = settings m.file)
  | .loaded source cfg => m.mutates i ≠ none ∧ cfg = settings m.file ∧
      ∀ d ∈ source, m.dicts d = cfg ∧ (m.stage d).past
  | .mutated cfg => ∃ mutate, m.mutates i = some mutate ∧ cfg = mutate.copy (settings m.file)
  | .done e => e ≠ .crashed
  | _ => True

structure Inv (m : State α β) : Prop where
  file_used : ∀ sig s, m.file = some (sig, s) → sig ∈ m.used ∧ m.after sig = [s]
  now_during : ∀ i, m.stage i ≠ .unborn → settings m.file ∈ m.during i
  now_after : ∀ sig ∈ m.used, settings m.file ∈ m.after sig
  cached : ∀ sig d, m.cache = some (sig, d) →
    sig ∈ m.used ∧ (m.stage d).past ∧ (m.edited = false → m.dicts d ∈ m.after sig)
  locked : ∀ i, (m.stage i).inside → m.mutates i ≠ none → m.lock = some i
  holds : ∀ i, Holds m i (m.stage i)
  returns : ∀ p ∈ m.returns, p.1 ∈ p.2
  stores : ∀ p ∈ m.stores, p.after = p.mutate.copy p.before

theorem inv_start (file : Option (Sig × Settings α β)) :
    Inv { ({} : State α β).change file with during := fun _ => [] } where
  file_used sig s hfile := by
    subst hfile
    simp [State.change, settings]
  now_during i hi := absurd rfl hi
  now_after sig hsig := by
    simp only [State.change]
    split
    · exact List.mem_singleton_self _
    · exact List.mem_cons_self
  cached sig d hcache := by cases hcache
  locked i hi := by cases hi
  holds i := trivial
  returns p hp := by cases hp
  stores p hp := by cases hp

variable {m m' : State α β} {i : CallId} {st : Stage α β}

theorem Holds.congr {j : CallId} (hstage : ∀ d, (m.stage d).past → (m'.stage d).past) (hused : m'.used = m.used)
    (hafter : m'.after = m.after) (hduring : m'.during j = m.during j) (hmutates : m'.mutates j = m.mutates j)
    (hfile : m'.file = m.file) (hown : (∃ sig, st = .parsed sig) → m'.dicts j = m.dicts j)
    (hdicts : ∀ d cfg, st = .loaded (some d) cfg → m'.dicts d = m.dicts d) (h : Holds m j st) : Holds m' j st := by
  cases st with
  | parsed sig =>
      have hj := hown ⟨sig, rfl⟩
      simpa only [Holds, hused, hafter, hduring, hmutates, hfile, hj] using h
  | loaded source cfg =>
      refine ⟨hmutates ▸ h.1, hfile ▸ h.2.1, ?_⟩
      intro d hd
      obtain ⟨hcfg, hpast⟩ := h.2.2 d hd
      have hd : source = some d := hd
      exact ⟨(hdicts d cfg (hd ▸ rfl)).trans hcfg, hstage d hpast⟩
  | _ =>
      first | exact trivial | simpa only [Holds, hused, hafter, hduring, hmutates, hfile] using h

theorem Inv.quiet (h : Inv m) (hstage : m'.stage = Function.update m.stage i st) (hfile : m'.file = m.file)
    (hused : m'.used = m.used) (hafter : m'.after = m.after) (hduring : m'.during = m.during)
    (hmutates : m'.mutates = m.mutates) (hdicts : m'.dicts = m.dicts) (hborn : m.stage i ≠ .unborn)
    (hpast : (m.stage i).past → st.past)
    (hcached : ∀ sig d, m'.cache = some (sig, d) →
      sig ∈ m.used ∧ (m'.stage d).past ∧ (m'.edited = false → m.dicts d ∈ m.after sig))
    (hlocked : ∀ j, (m'.stage j).inside → m.mutates j ≠ none → m'.lock = some j) (hholds : Holds m' i st)
    (hreturns : ∀ p ∈ m'.returns, p.1 ∈ p.2) (hstores : m'.stores = m.stores) : Inv m' where
  file_used sig s hs := by
    rw [hused, hafter]
    exact h.file_used sig s (hfile ▸ hs)
  now_during j hj := by
    rw [hfile, hduring]
    by_cases hji : j = i
    · exact h.now_during j (hji ▸ hborn)
    · rw [hstage, Function.update_of_ne hji] at hj
      exact h.now_during j hj
  now_after sig hsig := by
    rw [hfile, hafter]
    exact h.now_after sig (hused ▸ hsig)
  cached sig d hc := by
    rw [hused, hafter, hdicts]
    exact hcached sig d hc
  locked j hj hm := hlocked j hj (hmutates ▸ hm)
  holds j := by
    by_cases hji : j = i
    · rw [hstage, hji, Function.update_self]
      exact hholds
    · have hpast' : ∀ d, (m.stage d).past → (m'.stage d).past := by
        intro d hd
        rw [hstage, Function.update_apply]
        split
        · subst_vars
          exact hpast hd
        · exact hd
      rw [hstage, Function.update_of_ne hji]
      exact (h.holds j).congr hpast' hused hafter (hduring ▸ rfl) (hmutates ▸ rfl) hfile (fun _ => hdicts ▸ rfl)
        (fun _ _ _ => hdicts ▸ rfl)
  returns := hreturns
  stores p hp := h.stores p (hstores ▸ hp)

theorem past_keep (hstage : m'.stage = Function.update m.stage i st) (hpast : (m.stage i).past → st.past) {d : CallId}
    (hd : (m.stage d).past) : (m'.stage d).past := by
  rw [hstage, Function.update_apply]
  split
  · subst_vars
    exact hpast hd
  · exact hd

theorem cached_keep (h : Inv m) (hstage : m'.stage = Function.update m.stage i st)
    (hpast : (m.stage i).past → st.past) (hcache : m'.cache = m.cache) (hedited : m'.edited = m.edited)
    (sig : Sig) (d : CallId) (hc : m'.cache = some (sig, d)) :
    sig ∈ m.used ∧ (m'.stage d).past ∧ (m'.edited = false → m.dicts d ∈ m.after sig) := by
  obtain ⟨hsig, hd, hdict⟩ := h.cached sig d (hcache ▸ hc)
  exact ⟨hsig, past_keep hstage hpast hd, fun he => hdict (hedited ▸ he)⟩

theorem locked_keep (h : Inv m) (hstage : m'.stage = Function.update m.stage i st) (hlock : m'.lock = m.lock)
    (hin : st.inside → (m.stage i).inside) (j : CallId) (hj : (m'.stage j).inside) (hm : m.mutates j ≠ none) :
    m'.lock = some j := by
  rw [hlock]
  rw [hstage, Function.update_apply] at hj
  split at hj
  · subst_vars
    exact h.locked _ (hin hj) hm
  · exact h.locked j hj hm

theorem locked_give (h : Inv m) (hstage : m'.stage = Function.update m.stage i st)
    (hlock : m'.lock = if m.lock = some i then none else m.lock) (hin : st.inside = false) (j : CallId)
    (hj : (m'.stage j).inside) (hm : m.mutates j ≠ none) : m'.lock = some j := by
  rw [hstage, Function.update_apply] at hj
  split at hj
  · exact absurd hj (by simp [hin])
  · rename_i hji
    have hown := h.locked j hj hm
    rw [hlock, hown, if_neg]
    exact fun hi => hji (Option.some.inj hi)

theorem born_of_inside (h : (m.stage i).inside) : m.stage i ≠ .unborn := by
  intro hi
  rw [hi] at h
  cases h

theorem Inv.move (h : Inv m) (hin : (m.stage i).inside) (hpast : (m.stage i).past → st.past)
    (hholds : Holds (m.put i st) i st) : Inv (m.put i st) :=
  h.quiet rfl rfl rfl rfl rfl rfl rfl (born_of_inside hin) hpast (cached_keep h rfl hpast rfl rfl)
    (locked_keep h rfl rfl fun _ => hin) hholds h.returns rfl

theorem Inv.finish {e : End} (h : Inv m) (hin : (m.stage i).inside) (he : e ≠ .crashed) : Inv (m.finish i e) :=
  h.quiet rfl rfl rfl rfl rfl rfl rfl (born_of_inside hin) (fun _ => rfl) (cached_keep h rfl (fun _ => rfl) rfl rfl)
    (@locked_give _ _ m _ i (.done e) h rfl rfl rfl) he h.returns rfl

theorem Inv.answer {cache : Option (Sig × CallId)} {source : Option CallId} {cfg : Settings α β} (h : Inv m)
    (hin : (m.stage i).inside)
    (hcache : ∀ sig d, cache = some (sig, d) →
      sig ∈ m.used ∧ (d = i ∨ (m.stage d).past) ∧ (m.edited = false → m.dicts d ∈ m.after sig))
    (hnow : cfg ∈ m.during i)
    (hupdate : m.mutates i ≠ none →
      cfg = settings m.file ∧ ∀ d ∈ source, m.dicts d = cfg ∧ (d = i ∨ (m.stage d).past)) :
    Inv ({ m with cache }.answer i source cfg) := by
  have hpasts : ∀ {st : Stage α β} {d : CallId}, st.past → d = i ∨ (m.stage d).past →
      (Function.update m.stage i st d).past := by
    intro st d hst hd
    rw [Function.update_apply]
    split
    · exact hst
    · exact hd.resolve_left ‹_›
  have hcached : ∀ {st : Stage α β}, st.past → ∀ sig d, cache = some (sig, d) → sig ∈ m.used ∧
      (Function.update m.stage i st d).past ∧ (m.edited = false → m.dicts d ∈ m.after sig) := by
    intro st hst sig d hc
    obtain ⟨hsig, hd, hdict⟩ := hcache sig d hc
    exact ⟨hsig, hpasts hst hd, hdict⟩
  rw [State.answer]
  cases hm : m.mutates i with
  | none =>
      refine @Inv.quiet _ _ m _ i (.done .returned) h rfl rfl rfl rfl rfl rfl rfl (born_of_inside hin) (fun _ => rfl)
        (hcached rfl) (@locked_give _ _ m _ i (.done .returned) h rfl rfl rfl) (by simp [Holds]) ?_ rfl
      intro p hp
      rcases List.mem_cons.mp hp with rfl | hp
      · exact hnow
      · exact h.returns p hp
  | some mutate =>
      have hm : m.mutates i ≠ none := by simp [hm]
      obtain ⟨hcfg, hsource⟩ := hupdate hm
      refine @Inv.quiet _ _ m _ i (.loaded source cfg) h rfl rfl rfl rfl rfl rfl rfl (born_of_inside hin) (fun _ => rfl)
        (hcached rfl) (@locked_keep _ _ m _ i (.loaded source cfg) h rfl rfl fun _ => hin) ⟨hm, hcfg, ?_⟩ h.returns rfl
      intro d hd
      obtain ⟨hdict, hpast⟩ := hsource d hd
      exact ⟨hdict, hpasts rfl hpast⟩

theorem Inv.change {file : Option (Sig × Settings α β)} (h : Inv m) (hfresh : ∀ sig ∈ file.map Prod.fst, sig ∉ m.used)
    (hidle : ∀ j, (m.stage j).working → m.mutates j = none) : Inv (m.change file) := by
  have hgrow : ∀ sig ∈ m.used, (m.change file).after sig = settings file :: m.after sig := by
    intro sig hsig
    refine if_neg fun hsame => hfresh sig hsame hsig
  have hused : ∀ sig ∈ m.used, sig ∈ (m.change file).used := by
    intro sig hsig
    cases file with
    | none => exact hsig
    | some p => exact List.mem_cons_of_mem _ hsig
  have hstated : ∀ j sig, m.mutates j = none → sig ∈ m.used ∧ m.after sig ⊆ m.during j ∧
      (m.mutates j ≠ none → m.file.map Prod.fst = some sig) → sig ∈ (m.change file).used ∧
      (m.change file).after sig ⊆ (m.change file).during j ∧
      (m.mutates j ≠ none → (m.change file).file.map Prod.fst = some sig) := by
    rintro j sig hj ⟨hsig, hsub, -⟩
    refine ⟨hused sig hsig, ?_, fun hm => absurd hj hm⟩
    rw [hgrow sig hsig]
    exact List.cons_subset_cons _ hsub
  refine ⟨?file_used, ?now_during, ?now_after, ?cached, h.locked, ?holds, h.returns, h.stores⟩
  case file_used =>
    intro sig s hs
    cases hs
    exact ⟨List.mem_cons_self, if_pos rfl⟩
  case now_during => exact fun j _ => List.mem_cons_self
  case now_after =>
    intro sig _
    simp only [State.change]
    split
    · exact List.mem_singleton_self _
    · exact List.mem_cons_self
  case cached =>
    intro sig d hc
    obtain ⟨hsig, hd, hdict⟩ := h.cached sig d hc
    refine ⟨hused sig hsig, hd, fun he => ?_⟩
    rw [hgrow sig hsig]
    exact List.mem_cons_of_mem _ (hdict he)
  case holds =>
    intro j
    have hj := h.holds j
    have hidle := hidle j
    change Holds (m.change file) j (m.stage j)
    cases hst : m.stage j with
    | stated sig | seen sig | matched sig =>
        rw [hst] at hj hidle
        exact hstated j sig (hidle rfl) hj
    | reading sig =>
        rw [hst] at hj
        exact hused sig hj
    | parsed sig =>
        rw [hst] at hj hidle
        obtain ⟨hsig, hafter, hduring, -⟩ := hj
        refine ⟨hused sig hsig, ?_, List.mem_cons_of_mem _ hduring, fun hm => absurd (hidle rfl) hm⟩
        rw [hgrow sig hsig]
        exact List.mem_cons_of_mem _ hafter
    | loaded source cfg =>
        rw [hst] at hj hidle
        exact absurd (hidle rfl) hj.1
    | mutated cfg =>
        rw [hst] at hj hidle
        obtain ⟨mutate, hm, -⟩ := hj
        exact absurd ((hidle rfl).symm.trans hm) (by simp)
    | done e =>
        rw [hst] at hj
        exact hj
    | _ => trivial

theorem Inv.begin {mutates : Option (Mutate α β)} (h : Inv m) (hi : m.stage i = .unborn)
    (hst : st = .entered ∧ mutates = none ∨ st = .waiting) : Inv (m.begin i mutates st) := by
  have hst' : Holds (m.begin i mutates st) i st ∧ st.past = false ∧ (st.inside → mutates = none) := by
    rcases hst with ⟨rfl, rfl⟩ | rfl
    · exact ⟨trivial, rfl, fun _ => rfl⟩
    · exact ⟨trivial, rfl, fun h => by cases h⟩
  have hkeep : ∀ d, (m.stage d).past → ((m.begin i mutates st).stage d).past := fun d =>
    past_keep rfl (by rw [hi]; rintro ⟨⟩)
  refine ⟨h.file_used, ?now_during, h.now_after, ?cached, ?locked, ?holds, h.returns, h.stores⟩
  case now_during =>
    intro j hj
    by_cases hji : j = i
    · subst hji
      have hduring : (m.begin j mutates st).during j = [settings m.file] := Function.update_self ..
      rw [hduring]
      exact List.mem_singleton_self _
    · have hstage : (m.begin i mutates st).stage j = m.stage j := Function.update_of_ne hji ..
      have hduring : (m.begin i mutates st).during j = m.during j := Function.update_of_ne hji ..
      rw [hduring]
      exact h.now_during j (hstage ▸ hj)
  case cached =>
    intro sig d hc
    obtain ⟨hsig, hd, hdict⟩ := h.cached sig d hc
    exact ⟨hsig, hkeep d hd, hdict⟩
  case locked =>
    intro j hj hm
    by_cases hji : j = i
    · subst hji
      have hstage : (m.begin j mutates st).stage j = st := Function.update_self ..
      have hmutates : (m.begin j mutates st).mutates j = mutates := Function.update_self ..
      exact absurd (hmutates.trans (hst'.2.2 (hstage ▸ hj))) hm
    · have hstage : (m.begin i mutates st).stage j = m.stage j := Function.update_of_ne hji ..
      have hmutates : (m.begin i mutates st).mutates j = m.mutates j := Function.update_of_ne hji ..
      exact h.locked j (hstage ▸ hj) (hmutates ▸ hm)
  case holds =>
    intro j
    by_cases hji : j = i
    · subst hji
      have hstage : (m.begin j mutates st).stage j = st := Function.update_self ..
      rw [hstage]
      exact hst'.1
    · have hstage : (m.begin i mutates st).stage j = m.stage j := Function.update_of_ne hji ..
      rw [hstage]
      exact (h.holds j).congr hkeep rfl rfl (Function.update_of_ne hji ..) (Function.update_of_ne hji ..) rfl
        (fun _ => rfl) (fun _ _ _ => rfl)

theorem Inv.holds_at (h : Inv m) (hi : m.stage i = st) : Holds m i st := hi ▸ h.holds i

theorem Inv.sole (h : Inv m) (hin : (m.stage i).inside) (hm : m.mutates i ≠ none) {j : CallId} (hji : j ≠ i)
    (hj : (m.stage j).inside) : m.mutates j = none := by
  by_contra hmj
  exact hji (Option.some.inj ((h.locked j hj hmj).symm.trans (h.locked i hin hm)))

theorem inside_of_working {st : Stage α β} (h : st.working) : st.inside := by
  cases st <;> first | rfl | cases h

theorem Inv.onStat {ok : Bool} (h : Inv m) (hi : m.stage i = .entered) (hok : ok || m.file.isNone) :
    Inv (m.onStat i ok) := by
  have hin : (m.stage i).inside := by rw [hi]; rfl
  have hnow := h.now_during i (born_of_inside hin)
  rw [State.onStat]
  split
  · rename_i sig s hfile
    have hok : ok = true := by simpa [hfile] using hok
    obtain ⟨hsig, hafter⟩ := h.file_used sig s hfile
    rw [hfile] at hnow
    have hsub : m.after sig ⊆ m.during i := by
      rw [hafter]
      exact List.cons_subset.mpr ⟨hnow, List.nil_subset _⟩
    rw [if_pos hok]
    exact h.move hin (by rw [hi]; rintro ⟨⟩) ⟨hsig, hsub, fun _ => congrArg (Option.map Prod.fst) hfile⟩
  · rename_i hfile
    rw [hfile] at hnow
    refine @Inv.answer _ _ m i none none [] h hin ?_ hnow fun _ => ⟨by rw [hfile]; rfl, ?_⟩
    · rintro _ _ ⟨⟩
    · rintro _ ⟨⟩

theorem Inv.onTake {sig : Sig} (h : Inv m) (hi : m.stage i = .matched sig)
    (hcache : m.cache.any (·.1 == sig)) (hedited : m.edited = false) : Inv (m.onTake i) := by
  have hin : (m.stage i).inside := by rw [hi]; rfl
  obtain ⟨-, hsub, hfile⟩ : _ ∧ m.after sig ⊆ m.during i ∧ (m.mutates i ≠ none → m.file.map Prod.fst = some sig) :=
    h.holds_at hi
  rw [State.onTake]
  split
  · rename_i hc
    rw [hc] at hcache
    cases hcache
  · rename_i sig' d hc
    obtain rfl : sig' = sig := by simpa [hc] using hcache
    obtain ⟨hsig, hd, hdict⟩ := h.cached sig' d hc
    have hdict := hdict hedited
    refine @Inv.answer _ _ m i m.cache (some d) (m.dicts d) h hin ?_ (hsub hdict) ?_
    · intro sig d hc
      obtain ⟨hsig, hd, hdict⟩ := h.cached sig d hc
      exact ⟨hsig, .inr hd, hdict⟩
    · intro hm
      obtain ⟨⟨sig, s⟩, hs, rfl⟩ := Option.map_eq_some_iff.mp (hfile hm)
      have hsame : m.dicts d = s := by simpa [(h.file_used sig s hs).2] using hdict
      refine ⟨by rw [hsame, hs]; rfl, ?_⟩
      rintro d' ⟨⟩
      exact ⟨rfl, .inr hd⟩

theorem Inv.onStore {sig : Sig} (h : Inv m) (hi : m.stage i = .parsed sig) :
    Inv ({ m with cache := some (sig, i) }.answer i (some i) (m.dicts i)) := by
  have hin : (m.stage i).inside := by rw [hi]; rfl
  obtain ⟨hsig, hafter, hduring, hfile⟩ : sig ∈ m.used ∧ m.dicts i ∈ m.after sig ∧ m.dicts i ∈ m.during i ∧
      (m.mutates i ≠ none → m.dicts i = settings m.file) := h.holds_at hi
  refine h.answer hin ?_ hduring fun hm => ⟨hfile hm, ?_⟩
  · rintro _ _ ⟨⟩
    exact ⟨hsig, .inl rfl, fun _ => hafter⟩
  · rintro _ ⟨⟩
    exact ⟨rfl, .inl rfl⟩

theorem Inv.onRead {sig : Sig} (h : Inv m) (hi : m.stage i = .reading sig) :
    Inv { m.put i (.parsed sig) with dicts := Function.update m.dicts i (settings m.file) } := by
  have hin : (m.stage i).inside := by rw [hi]; rfl
  have hsig : sig ∈ m.used := h.holds_at hi
  have hother : ∀ d, (m.stage d).past → Function.update m.dicts i (settings m.file) d = m.dicts d := by
    intro d hd
    refine Function.update_of_ne ?_ ..
    rintro rfl
    rw [hi] at hd
    cases hd
  have hpast : (m.stage i).past → (Stage.parsed sig : Stage α β).past := by
    rw [hi]
    rintro ⟨⟩
  refine ⟨h.file_used, ?now_during, h.now_after, ?cached, ?locked, ?holds, h.returns, h.stores⟩
  case now_during =>
    intro j hj
    by_cases hji : j = i
    · exact h.now_during j (hji ▸ born_of_inside hin)
    · exact h.now_during j fun hunborn => hj ((Function.update_of_ne hji ..).trans hunborn)
  case cached =>
    intro sig' d hc
    obtain ⟨hsig', hd, hdict⟩ := h.cached sig' d hc
    refine ⟨hsig', past_keep rfl hpast hd, fun he => ?_⟩
    show Function.update m.dicts i (settings m.file) d ∈ m.after sig'
    rw [hother d hd]
    exact hdict he
  case locked => exact @locked_keep _ _ m (m.put i (.parsed sig)) i _ h rfl rfl fun _ => hin
  case holds =>
    intro j
    by_cases hji : j = i
    · subst hji
      have hdict : Function.update m.dicts j (settings m.file) j = settings m.file := Function.update_self ..
      have hstage : (m.put j (.parsed sig)).stage j = .parsed sig := Function.update_self ..
      show Holds _ j ((m.put j (.parsed sig)).stage j)
      rw [hstage]
      simp only [Holds, hdict]
      exact ⟨hsig, h.now_after sig hsig, h.now_during j (born_of_inside hin), fun _ => rfl⟩
    · have hstage : (m.put i (.parsed sig)).stage j = m.stage j := Function.update_of_ne hji ..
      have hj := h.holds j
      show Holds _ j ((m.put i (.parsed sig)).stage j)
      rw [hstage]
      refine hj.congr (fun d => past_keep rfl hpast) rfl rfl rfl rfl rfl (fun _ => Function.update_of_ne hji ..) ?_
      intro d cfg hst
      rw [hst] at hj
      exact hother d (hj.2.2 d rfl).2

theorem Inv.acquire (h : Inv m) (hi : m.stage i = .waiting) (hlock : m.lock = none) :
    Inv { m.put i .entered with lock := some i } := by
  refine @Inv.quiet _ _ m _ i .entered h rfl rfl rfl rfl rfl rfl rfl (by simp [hi]) (by rw [hi]; rintro ⟨⟩)
    (cached_keep h rfl (by rw [hi]; rintro ⟨⟩) rfl rfl) ?_ trivial h.returns rfl
  intro j hj hm
  by_cases hji : j = i
  · rw [hji]
  · have hstage : (m.put i .entered).stage j = m.stage j := Function.update_of_ne hji ..
    have hown := h.locked j (hstage ▸ hj) hm
    rw [hlock] at hown
    cases hown

theorem Inv.replace {mutate : Mutate α β} {cfg : Settings α β} {sig : Sig} (h : Inv m) (hi : m.stage i = .mutated cfg)
    (hm : m.mutates i = some mutate) (hsig : sig ∉ m.used) :
    Inv { (m.change (some (sig, cfg))).put i .replaced with stores := ⟨i, settings m.file, mutate, cfg⟩ :: m.stores } := by
  have hin : (m.stage i).inside := by rw [hi]; rfl
  have hmi : m.mutates i ≠ none := by simp [hm]
  obtain ⟨mutate', hm', hcfg⟩ : ∃ mutate, m.mutates i = some mutate ∧ cfg = mutate.copy (settings m.file) := h.holds_at hi
  obtain rfl : mutate = mutate' := Option.some.inj (hm.symm.trans hm')
  have hmoved : Inv (m.put i .replaced) := h.move hin (fun _ => rfl) trivial
  have hidle : ∀ j, ((m.put i .replaced).stage j).working → m.mutates j = none := by
    intro j hj
    by_cases hji : j = i
    · have hstage : (m.put i .replaced).stage j = .replaced := hji ▸ Function.update_self ..
      rw [hstage] at hj
      cases hj
    · have hstage : (m.put i .replaced).stage j = m.stage j := Function.update_of_ne hji ..
      exact h.sole hin hmi hji (inside_of_working (hstage ▸ hj))
  have hchanged : Inv ((m.put i .replaced).change (some (sig, cfg))) :=
    hmoved.change (by rintro _ ⟨⟩; exact hsig) hidle
  refine { hchanged with holds := ?holds, stores := ?stores }
  case holds =>
    exact fun j => (hchanged.holds j).congr (fun _ => id) rfl rfl rfl rfl rfl (fun _ => rfl) fun _ _ _ => rfl
  case stores =>
    intro p hp
    rcases List.mem_cons.mp hp with rfl | hp
    · exact hcfg
    · exact h.stores p hp

theorem Inv.reset (h : Inv m) (hi : m.stage i = .replaced) :
    Inv ({ m with cache := none, edited := false }.finish i .returned) :=
  @Inv.quiet _ _ m _ i (.done .returned) h rfl rfl rfl rfl rfl rfl rfl (by simp [hi]) (fun _ => rfl) (by rintro _ _ ⟨⟩)
    (@locked_give _ _ m _ i (.done .returned) h rfl rfl (by rfl)) (by simp [Holds]) h.returns rfl

theorem Inv.check {sig : Sig} (h : Inv m) (hi : m.stage i = .stated sig) :
    Inv (m.put i (if m.cache = none then .reading sig else .seen sig)) := by
  have hin : (m.stage i).inside := by rw [hi]; rfl
  have hpast : ¬(m.stage i).past := by rw [hi]; rintro ⟨⟩
  have hstated : sig ∈ m.used ∧ m.after sig ⊆ m.during i ∧ (m.mutates i ≠ none → m.file.map Prod.fst = some sig) :=
    h.holds_at hi
  split
  · exact h.move hin (fun h => absurd h hpast) hstated.1
  · exact h.move hin (fun h => absurd h hpast) hstated

theorem Inv.compare {sig : Sig} (h : Inv m) (hi : m.stage i = .seen sig) (hcache : m.cache.isSome) :
    Inv (m.onCompare i sig) := by
  have hin : (m.stage i).inside := by rw [hi]; rfl
  have hpast : ¬(m.stage i).past := by rw [hi]; rintro ⟨⟩
  have hseen : sig ∈ m.used ∧ m.after sig ⊆ m.during i ∧ (m.mutates i ≠ none → m.file.map Prod.fst = some sig) :=
    h.holds_at hi
  rw [State.onCompare]
  split
  · rename_i hc
    rw [hc] at hcache
    cases hcache
  · split
    · exact h.move hin (fun h => absurd h hpast) hseen
    · exact h.move hin (fun h => absurd h hpast) hseen.1

section Mutate

variable [DecidableEq α] [DecidableEq β] {mutate : Mutate α β} {source : Option CallId} {cfg : Settings α β}

theorem Inv.edit {d : CallId} (h : Inv m) (hi : m.stage i = .loaded (some d) cfg) (hm : m.mutates i = some mutate) :
    Inv ({ m with
      dicts := Function.update m.dicts d (mutate.source (m.dicts d))
      edited := m.edited || mutate.source cfg ≠ cfg }.put i (.mutated (mutate.copy cfg))) := by
  have hin : (m.stage i).inside := by rw [hi]; rfl
  obtain ⟨hmi, hnow, hsource⟩ : m.mutates i ≠ none ∧ cfg = settings m.file ∧
      ∀ d' ∈ some d, m.dicts d' = cfg ∧ (m.stage d').past := h.holds_at hi
  obtain ⟨hdict, hpastd⟩ := hsource d rfl
  have hpast : (m.stage i).past → (Stage.mutated (mutate.copy cfg)).past := fun _ => rfl
  refine ⟨h.file_used, ?now_during, h.now_after, ?cached, ?locked, ?holds, h.returns, h.stores⟩
  case now_during =>
    intro j hj
    by_cases hji : j = i
    · exact h.now_during j (hji ▸ born_of_inside hin)
    · exact h.now_during j fun hunborn => hj ((Function.update_of_ne hji ..).trans hunborn)
  case cached =>
    intro sig d' hc
    obtain ⟨hsig, hd', hafter⟩ := h.cached sig d' hc
    refine ⟨hsig, past_keep rfl hpast hd', fun he => ?_⟩
    obtain ⟨hedited, hsame⟩ : m.edited = false ∧ mutate.source cfg = cfg := by simpa [State.put] using he
    have hdicts : Function.update m.dicts d (mutate.source (m.dicts d)) = m.dicts := by
      rw [hdict, hsame, ← hdict, Function.update_eq_self]
    show Function.update m.dicts d (mutate.source (m.dicts d)) d' ∈ m.after sig
    rw [hdicts]
    exact hafter hedited
  case locked => exact @locked_keep _ _ m (m.put i (.mutated (mutate.copy cfg))) i _ h rfl rfl fun _ => hin
  case holds =>
    intro j
    by_cases hji : j = i
    · subst hji
      have hstage : (m.put j (.mutated (mutate.copy cfg))).stage j = .mutated (mutate.copy cfg) :=
        Function.update_self ..
      show Holds _ j ((m.put j (.mutated (mutate.copy cfg))).stage j)
      rw [hstage]
      exact ⟨mutate, hm, hnow ▸ rfl⟩
    · have hstage : (m.put i (.mutated (mutate.copy cfg))).stage j = m.stage j := Function.update_of_ne hji ..
      have hj := h.holds j
      show Holds _ j ((m.put i (.mutated (mutate.copy cfg))).stage j)
      rw [hstage]
      refine hj.congr (fun d => past_keep rfl hpast) rfl rfl rfl rfl rfl ?_ ?_
      · rintro ⟨sig, hst⟩
        have hjd : j ≠ d := by
          rintro rfl
          rw [hst] at hpastd
          cases hpastd
        exact Function.update_of_ne hjd ..
      · -- another update past its load would hold the lock as well
        intro d' cfg' hst
        rw [hst] at hj
        exact absurd (h.sole hin hmi hji (by rw [hst]; rfl)) hj.1

theorem Inv.onMutate (h : Inv m) (hi : m.stage i = .loaded source cfg) (hm : m.mutates i = some mutate)
    (horderly : source.isNone || !mutate.raises cfg || mutate.source cfg == cfg) :
    Inv (m.onMutate i mutate source cfg) := by
  have hin : (m.stage i).inside := by rw [hi]; rfl
  obtain ⟨hmi, hnow, hsource⟩ : m.mutates i ≠ none ∧ cfg = settings m.file ∧
      ∀ d ∈ source, m.dicts d = cfg ∧ (m.stage d).past := h.holds_at hi
  cases hs : source with
  | none =>
      simp only [State.onMutate]
      split
      · exact h.finish hin (by simp)
      · exact h.move hin (fun _ => rfl) ⟨mutate, hm, hnow ▸ rfl⟩
  | some d =>
      subst hs
      simp only [State.onMutate]
      split
      · rename_i hraises
        have hsame : mutate.source cfg = cfg := by simpa [hraises] using horderly
        have hdicts : Function.update m.dicts d (mutate.source (m.dicts d)) = m.dicts := by
          rw [(hsource d rfl).1, hsame, ← (hsource d rfl).1, Function.update_eq_self]
        simp only [hdicts, hsame, ne_eq, not_true_eq_false, decide_false, Bool.or_false]
        exact h.finish hin (by simp)
      · exact h.edit hi hm

theorem Inv.next {a : Action α β} (h : Inv m) (horderly : orderly m a) (hstep : m.next a = some m') : Inv m' := by
  cases a with
  | load i =>
      simp only [State.next] at hstep
      split at hstep
      · cases hstep
        exact h.begin ‹_› (.inl ⟨rfl, rfl⟩)
      · cases hstep
  | update i mutate =>
      simp only [State.next] at hstep
      split at hstep
      · cases hstep
        exact h.begin ‹_› (.inr rfl)
      · cases hstep
  | acquire i =>
      simp only [State.next] at hstep
      split at hstep
      · cases hstep
        exact h.acquire ‹_› ‹_›
      · cases hstep
  | stat i ok =>
      simp only [State.next] at hstep
      split at hstep
      · cases hstep
        exact h.onStat ‹_› horderly
      · cases hstep
  | check i =>
      simp only [State.next] at hstep
      split at hstep
      · cases hstep
        exact h.check ‹_›
      · cases hstep
  | compare i =>
      simp only [State.next] at hstep
      split at hstep
      · cases hstep
        exact h.compare ‹_› horderly
      · cases hstep
  | take i =>
      simp only [State.next] at hstep
      split at hstep
      · rename_i sig hi
        cases hstep
        simp only [orderly, hi, Bool.and_eq_true, Bool.not_eq_true'] at horderly
        exact h.onTake hi horderly.1 horderly.2
      · cases hstep
  | read i ok =>
      simp only [State.next] at hstep
      split at hstep
      · rename_i sig hi
        cases hstep
        have hread : (if ok then settings m.file else []) = settings m.file := by
          cases hf : m.file with
          | none => exact ite_self _
          | some p => exact if_pos (by simpa [orderly, hf] using horderly)
        rw [hread]
        exact h.onRead hi
      · cases hstep
  | store i =>
      simp only [State.next] at hstep
      split at hstep
      · cases hstep
        exact h.onStore ‹_›
      · cases hstep
  | mutate i =>
      simp only [State.next] at hstep
      split at hstep
      · rename_i hi hm
        cases hstep
        simp only [orderly, hi, hm] at horderly
        exact h.onMutate hi hm horderly
      · cases hstep
  | replace i sig =>
      simp only [State.next] at hstep
      split at hstep
      · cases hstep
        exact h.replace ‹_› ‹_› (of_decide_eq_true horderly)
      · cases hstep
  | fail i =>
      simp only [State.next] at hstep
      split at hstep
      · rename_i hi
        cases hstep
        exact h.finish (by rw [hi]; rfl) (by simp)
      · cases hstep
  | reset i =>
      simp only [State.next] at hstep
      split at hstep
      · cases hstep
        exact h.reset ‹_›
      · cases hstep
  | external file =>
      obtain ⟨-, heq⟩ := Option.ite_none_left_eq_some.mp hstep
      cases heq
      have hboth : (∀ sig ∈ file.map Prod.fst, sig ∉ m.used) ∧ m.updating = false := by
        cases file with
        | none => exact ⟨by simp, by simpa [orderly] using horderly⟩
        | some p => simpa [orderly] using horderly
      refine h.change hboth.1 fun j hj => ?_
      by_contra hm
      have hown := h.locked j (inside_of_working hj) hm
      rw [State.updating, hown, Option.any_some, hj] at hboth
      cases hboth.2

end Mutate

end Invariant

section Stored

variable {α β : Type} {m m' : State α β} {i : CallId}

def Moves (m m' : State α β) (i : CallId) : Prop :=
  m'.stores = m.stores ∧ ∃ st, m'.stage = Function.update m.stage i st ∧ ((m.stage i).stored → st.stored)

theorem moves_put {st : Stage α β} (hi : (m.stage i).stored → st.stored) : Moves m (m.put i st) i := ⟨rfl, st, rfl, hi⟩

theorem moves_answer {cache : Option (Sig × CallId)} {source : Option CallId} {cfg : Settings α β}
    (hi : (m.stage i).stored = false) : Moves m ({ m with cache }.answer i source cfg) i := by
  have hnot : ∀ st : Stage α β, (m.stage i).stored → st.stored := fun st h => absurd h (by simp [hi])
  rw [State.answer]
  split
  · exact ⟨rfl, _, rfl, hnot _⟩
  · exact ⟨rfl, _, rfl, hnot _⟩

variable [DecidableEq α] [DecidableEq β]

theorem next_stores {a : Action α β} (hstep : m.next a = some m') :
    (∃ i, Moves m m' i) ∨ (m'.stores = m.stores ∧ m'.stage = m.stage) ∨
      ∃ s, m'.stores = s :: m.stores ∧ m'.stage = Function.update m.stage s.call .replaced := by
  cases a with
  | external file =>
      obtain ⟨-, heq⟩ := Option.ite_none_left_eq_some.mp hstep
      cases heq
      exact .inr (.inl ⟨rfl, rfl⟩)
  | replace i sig =>
      simp only [State.next] at hstep
      split at hstep
      · cases hstep
        exact .inr (.inr ⟨_, rfl, rfl⟩)
      · cases hstep
  | stat i ok =>
      simp only [State.next, State.onStat] at hstep
      split at hstep
      · rename_i hi
        cases hstep
        have hnot : (m.stage i).stored = false := by rw [hi]; rfl
        refine .inl ⟨i, ?_⟩
        split
        · split
          · exact moves_put (by simp [hnot])
          · exact moves_answer hnot
        · exact moves_answer hnot
      · cases hstep
  | compare i =>
      simp only [State.next, State.onCompare] at hstep
      split at hstep
      · rename_i hi
        cases hstep
        refine .inl ⟨i, ?_⟩
        split
        · exact ⟨rfl, _, rfl, by rw [hi]; rintro ⟨⟩⟩
        · exact moves_put (by rw [hi]; rintro ⟨⟩)
      · cases hstep
  | take i =>
      simp only [State.next, State.onTake] at hstep
      split at hstep
      · rename_i hi
        cases hstep
        refine .inl ⟨i, ?_⟩
        split
        · exact ⟨rfl, _, rfl, by rw [hi]; rintro ⟨⟩⟩
        · exact @moves_answer _ _ m i m.cache _ _ (by rw [hi]; rfl)
      · cases hstep
  | store i =>
      simp only [State.next] at hstep
      split at hstep
      · rename_i hi
        cases hstep
        exact .inl ⟨i, moves_answer (by rw [hi]; rfl)⟩
      · cases hstep
  | mutate i =>
      simp only [State.next, State.onMutate] at hstep
      split at hstep
      · rename_i hi _
        cases hstep
        have hnot : ∀ st : Stage α β, (m.stage i).stored → st.stored := by
          rw [hi]
          rintro st ⟨⟩
        refine .inl ⟨i, ?_⟩
        split <;> split <;> exact ⟨rfl, _, rfl, hnot _⟩
      · cases hstep
  | load i | update i _ | acquire i | check i | read i _ | fail i | reset i =>
      simp only [State.next] at hstep
      split at hstep
      · rename_i hi
        cases hstep
        refine .inl ⟨i, rfl, _, rfl, ?_⟩
        simp [*, Stage.stored]
      · cases hstep

theorem stored_next {a : Action α β} (hstep : m.next a = some m') (h : ∀ p ∈ m.stores, (m.stage p.call).stored) :
    ∀ p ∈ m'.stores, (m'.stage p.call).stored := by
  intro p hp
  rcases next_stores hstep with ⟨i, hstores, st, hstage, hst⟩ | ⟨hstores, hstage⟩ | ⟨s, hstores, hstage⟩
  · have hj := h p (hstores ▸ hp)
    rw [hstage, Function.update_apply]
    split
    · rename_i heq
      exact hst (heq ▸ hj)
    · exact hj
  · rw [hstage]
    exact h p (hstores ▸ hp)
  · rw [hstage, Function.update_apply]
    split
    · rfl
    · rename_i hne
      rcases List.mem_cons.mp (hstores ▸ hp) with rfl | hp
      · exact absurd rfl hne
      · exact h p hp

end Stored

-- `load_config` returns what the file has held during the call, an update stores its `mutate` applied to what the
-- file held, and one that raises has stored nothing.
structure Faithful {α β : Type} (m : State α β) : Prop where
  loads : ∀ p ∈ m.returns, p.1 ∈ p.2
  stores : ∀ p ∈ m.stores, p.after = p.mutate.copy p.before
  untouched : ∀ i, m.stage i = .done .raised → ∀ p ∈ m.stores, p.call ≠ i
  sound : ∀ i, m.stage i ≠ .done .crashed

section Runs

variable {α β : Type} [DecidableEq α] [DecidableEq β] {file : Option (Sig × Settings α β)} {m : State α β}

theorem stored_of_reachable (h : (machine file).Reachable m) : ∀ p ∈ m.stores, (m.stage p.call).stored :=
  h.invariant (by rintro p ⟨⟩) fun _ _ _ hstored hstep => stored_next hstep hstored

theorem faithful_of_orderly (h : ((machine file).restrict fun m a => orderly m a = true).Reachable m) :
    Faithful m := by
  have hinv : Inv m := h.invariant (inv_start file) fun m a m' hinv hstep => by
    obtain ⟨horderly, hnext⟩ := Machine.restrict_next hstep
    exact hinv.next horderly hnext
  refine ⟨hinv.returns, hinv.stores, ?_, fun i hi => (hinv.holds_at hi) rfl⟩
  rintro i hi p hp rfl
  have hstored := stored_of_reachable h.of_restrict p hp
  rw [hi] at hstored
  cases hstored

end Runs

def setB : Mutate Nat Nat where
  copy s := s ++ [("b", .scalar 2)]
  source s := s
  raises _ := false
  shallow _ := rfl

def fileA : Option (Sig × Settings Nat Nat) := some (⟨1, 1⟩, [("a", .scalar 1)])

def updating (ok : Bool) : List (Action Nat Nat) :=
  [.update 0 setB, .acquire 0, .stat 0 true, .check 0, .read 0 ok, .store 0, .mutate 0, .replace 0 ⟨2, 2⟩, .reset 0]

theorem faithful_update :
    ∃ m, ((machine fileA).restrict fun m a => orderly m a = true).Reachable m ∧ Faithful m ∧
      m.file.map Prod.snd = some [("a", .scalar 1), ("b", .scalar 2)] := by
  have hrun : (((machine fileA).restrict fun m a => orderly m a = true).run (machine fileA).start
      (updating true)).map (fun m => m.file.map Prod.snd) = some (some [("a", .scalar 1), ("b", .scalar 2)]) := by
    decide
  obtain ⟨m, hm, hfile⟩ := Option.map_eq_some_iff.mp hrun
  exact ⟨m, ⟨_, hm⟩, faithful_of_orderly ⟨_, hm⟩, hfile⟩

-- A file that cannot be read counts as empty, and its settings are gone after an update.
theorem unreadable_overwritten : ¬∀ m, (machine fileA).Reachable m → Faithful m := by
  intro h
  have hrun : ((machine fileA).run (machine fileA).start (updating false)).map
      (fun m => (m.file.map Prod.snd, m.stores.map fun p => decide (p.after = p.mutate.copy p.before))) =
      some (some [("b", .scalar 2)], [false]) := by decide
  obtain ⟨m, hm, hlast⟩ := Option.map_eq_some_iff.mp hrun
  obtain ⟨p, rest, hp, hne, -⟩ := List.map_eq_cons_iff.mp (Prod.mk.inj hlast).2
  exact of_decide_eq_false hne ((h m ⟨_, hm⟩).stores p (hp ▸ List.mem_cons_self))

end GaHub.Config
