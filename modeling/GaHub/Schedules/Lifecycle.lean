import GaHub.Lib.Machine
import GaHub.Lib.Slots
import Mathlib.Tactic.Common

namespace GaHub.Schedules.Lifecycle

open Lib

-- Where a call of `_fire` is: from `first` on it holds the admission lock, at `first` and `second` it
-- is about to look at the stop event.
inductive FirePc where
  | waiting
  | first
  | second
  | submit
  | persist
  | publish
  | register
  deriving DecidableEq

-- A watcher passes the gate of `run_if_active` to `committing`.
inductive WatcherPc where
  | watching
  | committing
  | leaving
  deriving DecidableEq

-- `idle` and what follows carry what the call has found so far: whether it got the admission lock,
-- whether the domain's own thread has ended.
inductive ShutdownPc where
  | admission
  | requestStop
  | idle (admissionStopped : Bool)
  | watchers (idleStopped : Bool)
  | join (idleStopped : Bool)
  | returning (stopped : Bool)
  deriving DecidableEq

inductive StartPc where
  | check
  | reset
  | install
  deriving DecidableEq

inductive Thread where
  | fire (pc : FirePc)
  | watcher (run : Nat) (pc : WatcherPc)
  | shutdown (pc : ShutdownPc)
  | start (pc : StartPc)
  | done
  deriving DecidableEq

namespace Thread

def isWatcher : Thread → Bool
  | .watcher _ _ => true
  | _ => false

def isShutdown : Thread → Bool
  | .shutdown _ => true
  | _ => false

def isStart : Thread → Bool
  | .start _ => true
  | _ => false

end Thread

structure History where
  published : List Nat := []
  recorded : List Nat := []
  refused : List Nat := []
  deriving DecidableEq

-- A scheduler and the threads in it. A run goes by the place of the `_fire` it came from. `started`
-- says that a `start` has returned normally and no `shutdown` was called since, `concluded` that a
-- `shutdown` has returned True and no `start` was called since.
structure World where
  stopEvent : Bool := false
  accepting : Bool := true
  admission : Option Nat := none
  threads : List Thread := []
  submitted : List Nat := []
  registered : List Nat := []
  history : History := {}
  started : Bool := false
  concluded : Bool := false
  deriving DecidableEq

structure Turn where
  world : World
  thread : Thread
  added : Option Thread := none

namespace World

variable (w : World)

def active : Bool := w.threads.any Thread.isWatcher

def leave : Turn := ⟨{ w with admission := none }, .done, none⟩

def refuse (i : Nat) : Turn :=
  leave { w with history := { w.history with refused := w.history.refused ++ [i] } }

-- `ok` is what the environment decides: the schedule is there and its reports can be listed, the
-- submit is admitted, the file is written.
def fireTurn (i : Nat) (ok : Bool) : FirePc → Option Turn
  | .waiting => if w.admission.isNone then some ⟨{ w with admission := some i }, .fire .first, none⟩ else none
  | .first =>
    if w.stopEvent then some (w.refuse i)
    else if ok then some ⟨w, .fire .second, none⟩
    else some w.leave
  | .second => if w.stopEvent then some (w.refuse i) else some ⟨w, .fire .submit, none⟩
  | .submit =>
    if ok then some ⟨{ w with submitted := w.submitted ++ [i] }, .fire .persist, none⟩
    else some w.leave
  | .persist => if ok then some ⟨w, .fire .publish, none⟩ else some w.leave
  | .publish =>
    some ⟨{ w with history := { w.history with published := w.history.published ++ [i] } }, .fire .register, none⟩
  | .register =>
    if w.accepting then
      some ⟨{ w with registered := w.registered ++ [i], admission := none }, .done, some (.watcher i .watching)⟩
    else some (w.refuse i)

-- A watcher leaves when it is told to stop or when it crashes; one whose callback crashed may come
-- to the gate again.
def watcherTurn (run : Nat) (ok : Bool) : WatcherPc → Option Turn
  | .watching => some ⟨w, .watcher run (if w.stopEvent || !ok then .leaving else .committing), none⟩
  | .committing =>
    if ok then
      let history := { w.history with
        recorded := w.history.recorded ++ [run]
        published := w.history.published ++ [run] }
      some ⟨{ w with history }, .watcher run .leaving, none⟩
    else some ⟨w, .watcher run .watching, none⟩
  | .leaving => some ⟨w, .done, none⟩

def requestStop : World := { w with accepting := false, stopEvent := true }

-- `ok` says that the lock was got before the deadline, or that the domain's thread has ended by then.
def shutdownTurn (ok : Bool) : ShutdownPc → Option Turn
  | .admission =>
    if !ok then some ⟨w, .shutdown (.idle false), none⟩
    else if w.admission.isNone then some ⟨w, .shutdown .requestStop, none⟩
    else none
  | .requestStop => some ⟨w.requestStop, .shutdown (.idle true), none⟩
  | .idle true => some ⟨w, .shutdown (.watchers ok), none⟩
  | .idle false => some ⟨w, .shutdown (.returning false), none⟩
  | .watchers idleStopped => some ⟨w.requestStop, .shutdown (.join idleStopped), none⟩
  | .join idleStopped => some ⟨w, .shutdown (.returning (idleStopped && !w.active)), none⟩
  | .returning stopped => some ⟨{ w with concluded := w.concluded || stopped }, .done, none⟩

-- `ok` says that the domain does not veto the restart, or that the jobs are installed.
def startTurn (ok : Bool) : StartPc → Option Turn
  | .check =>
    if w.accepting then some ⟨w, .start .install, none⟩
    else if ok then some ⟨w, .start .reset, none⟩
    else some ⟨w, .done, none⟩
  | .reset =>
    if w.active then some ⟨w, .done, none⟩
    else some ⟨{ w with stopEvent := false, accepting := true }, .start .install, none⟩
  | .install => some ⟨{ w with started := w.started || ok }, .done, none⟩

def turn (i : Nat) (ok : Bool) : Thread → Option Turn
  | .fire pc => w.fireTurn i ok pc
  | .watcher run pc => w.watcherTurn run ok pc
  | .shutdown pc => w.shutdownTurn ok pc
  | .start pc => w.startTurn ok pc
  | .done => none

end World

inductive Act where
  | fire
  | shutdown
  | start
  | turn (i : Nat) (ok : Bool)
  deriving DecidableEq

def next (w : World) : Act → Option World
  | .fire => some { w with threads := w.threads ++ [.fire .waiting] }
  | .shutdown =>
    some { w with stopEvent := true, started := false, threads := w.threads ++ [.shutdown .admission] }
  | .start => some { w with concluded := false, threads := w.threads ++ [.start .check] }
  | .turn i ok =>
    w.threads[i]?.bind fun t => (w.turn i ok t).map fun r =>
      { r.world with threads := replaceSlot w.threads i r.thread r.added }

def machine : Machine World Act := ⟨{}, next⟩

-- The condition on a step: `start` and `shutdown` do not overlap, no `start` follows a shutdown that
-- gave up on the admission lock, and an admitted fire can be persisted.
def Sound (w : World) : Act → Bool
  | .fire => true
  | .shutdown => !w.threads.any Thread.isStart
  | .start => !w.threads.any Thread.isShutdown && !(w.stopEvent && w.accepting)
  | .turn i ok => ok || w.threads[i]? != some (.fire .persist)

section Invariant

namespace Thread

@[grind] def holds : Thread → Bool
  | .fire pc => pc != .waiting
  | _ => false

@[grind] def admits : Thread → Bool
  | .fire .waiting | .fire .first => false
  | .fire _ => true
  | _ => false

-- The submit of the fire was admitted, its watcher is not registered yet.
@[grind] def owes : Thread → Bool
  | .fire .persist | .fire .publish | .fire .register => true
  | _ => false

@[grind] def past : Thread → Bool
  | .shutdown .admission | .shutdown (.idle false) | .shutdown (.returning false) => false
  | .shutdown _ => true
  | _ => false

@[grind] def shut : Thread → Bool
  | .shutdown .requestStop => false
  | t => t.past

attribute [grind] isWatcher isShutdown isStart

@[grind →] theorem holds_of_admits {t : Thread} (h : t.admits = true) : t.holds = true := by
  cases t with
  | fire pc => cases pc <;> simp_all [admits, holds]
  | _ => cases h

@[grind →] theorem admits_of_owes {t : Thread} (h : t.owes = true) : t.admits = true := by
  cases t with
  | fire pc => cases pc <;> simp_all [admits, owes]
  | _ => cases h

@[grind →] theorem isShutdown_of_past {t : Thread} (h : t.past = true) : t.isShutdown = true := by
  cases t with
  | shutdown pc => rfl
  | _ => cases h

@[grind →] theorem past_of_shut {t : Thread} (h : t.shut = true) : t.past = true := by
  unfold shut at h
  split at h
  · cases h
  · exact h

end Thread

structure Inv (w : World) : Prop where
  holder : ∀ (i : Nat) t, w.threads[i]? = some t → t.holds = true → w.admission = some i
  admits : ∀ t ∈ w.threads, t.admits = true → w.accepting = true
  apart : ∀ t ∈ w.threads, t.admits = true → ∀ u ∈ w.threads, u.past = false
  stopping : ∀ t ∈ w.threads, t.isShutdown = true → w.stopEvent = true
  exclusive : ∀ t ∈ w.threads, t.isShutdown = true → ∀ u ∈ w.threads, u.isStart = false
  shut : ∀ t ∈ w.threads, t.shut = true → w.accepting = false
  emptied : .shutdown (.returning true) ∈ w.threads → ∀ t ∈ w.threads, t.isWatcher = false
  asked : ∀ t ∈ w.threads, t.isStart = true → w.stopEvent = true → w.accepting = false
  installing : .start .install ∈ w.threads → w.accepting = true
  refusing : w.accepting = false → w.stopEvent = true
  started : w.started = true → w.stopEvent = false
  concluded : w.concluded = true → w.accepting = false ∧ ∀ t ∈ w.threads, t.isWatcher = false ∧ t.isStart = false
  accounted : ∀ f ∈ w.submitted, f ∈ w.registered ∨ ∃ t, w.threads[f]? = some t ∧ t.owes = true

end Invariant

section Steps

variable {w : World} {i : Nat} {t t' : Thread} {added : Option Thread}

theorem mem_slot {threads : List Thread} {u : Thread} (h : u ∈ replaceSlot threads i t' none) :
    u = t' ∨ u ∈ threads := by
  simpa using mem_replaceSlot h

structure Below (t' t : Thread) : Prop where
  holds : t'.holds = true → t.holds = true
  admits : t'.admits = true → t.admits = true
  owes : t.owes = true → t'.owes = true
  past : t'.past = true → t.past = true
  shut : t'.shut = true → t.shut = true
  emptied : t' = .shutdown (.returning true) → t = .shutdown (.returning true)
  watcher : t'.isWatcher = true → t.isWatcher = true
  shutdown : t'.isShutdown = true → t.isShutdown = true
  start : t'.isStart = true → t.isStart = true
  installing : t' = .start .install → t = .start .install

theorem Inv.below (h : Inv w) (ht : w.threads[i]? = some t) (hb : Below t' t) :
    Inv { w with threads := replaceSlot w.threads i t' none } := by
  have hmem := @mem_slot i t' w.threads
  have hold := List.mem_of_getElem? ht
  obtain ⟨h1, h2, h3, h4, h5, h6, h7, h8, h9, h10, h11, h12, h13⟩ := h
  obtain ⟨b1, b2, b3, b4, b5, b6, b7, b8, b9, b10⟩ := hb
  constructor
  case holder => grind -ring -linarith [replaceSlot_cases]
  case accounted => grind -ring -linarith [replaceSlot_ne, replaceSlot_self]
  all_goals grind -ring -linarith

theorem Inv.history (h : Inv w) (history : History) : Inv { w with history } :=
  ⟨h.holder, h.admits, h.apart, h.stopping, h.exclusive, h.shut, h.emptied, h.asked, h.installing, h.refusing,
    h.started, h.concluded, h.accounted⟩

theorem Inv.release (h : Inv w) (ht : w.threads[i]? = some t) (hholds : t.holds = true) (howes : t.owes = false) :
    Inv { w with admission := none, threads := replaceSlot w.threads i .done none } := by
  have hbelow : Below .done t := by constructor <;> grind -ring -linarith
  have hdone := h.below ht hbelow
  refine { hdone with holder := ?_ }
  intro j u hu hj
  have hmine := h.holder i t ht hholds
  have hother := hdone.holder j u hu hj
  grind -ring -linarith [replaceSlot_self]

theorem Inv.acquire (h : Inv w) (ht : w.threads[i]? = some (.fire .waiting)) (hfree : w.admission = none) :
    Inv { w with admission := some i, threads := replaceSlot w.threads i (.fire .first) none } := by
  have hmem := @mem_slot i (.fire .first) w.threads
  obtain ⟨h1, h2, h3, h4, h5, h6, h7, h8, h9, h10, h11, h12, h13⟩ := h
  constructor
  case holder => grind -ring -linarith [replaceSlot_cases]
  case accounted => grind -ring -linarith [replaceSlot_ne]
  all_goals grind -ring -linarith

theorem Inv.look (h : Inv w) (ht : w.threads[i]? = some (.fire .first)) (hstop : w.stopEvent = false) :
    Inv { w with threads := replaceSlot w.threads i (.fire .second) none } := by
  have hmem := @mem_slot i (.fire .second) w.threads
  have hnone : ∀ u ∈ w.threads, u.isShutdown = false := by
    intro u hu
    by_contra hsh
    have hset := h.stopping u hu (by simpa using hsh)
    rw [hstop] at hset
    cases hset
  obtain ⟨h1, h2, h3, h4, h5, h6, h7, h8, h9, h10, h11, h12, h13⟩ := h
  constructor
  case holder => grind -ring -linarith [replaceSlot_cases]
  case accounted => grind -ring -linarith [replaceSlot_ne]
  all_goals grind -ring -linarith

theorem Inv.submit (h : Inv w) (ht : w.threads[i]? = some (.fire .submit)) :
    Inv { w with
      submitted := w.submitted ++ [i], threads := replaceSlot w.threads i (.fire .persist) none } := by
  have hstep := @Inv.below _ _ _ (.fire .persist) h ht (by constructor <;> grind -ring -linarith)
  refine { hstep with accounted := ?_ }
  intro f hf
  rcases List.mem_append.mp hf with hold | hnew
  · exact hstep.accounted f hold
  · obtain rfl : f = i := by simpa using hnew
    exact .inr ⟨_, replaceSlot_self ht, rfl⟩

theorem Inv.register (h : Inv w) (ht : w.threads[i]? = some (.fire .register)) :
    Inv { w with
      registered := w.registered ++ [i]
      admission := none
      threads := replaceSlot w.threads i .done (some (.watcher i .watching)) } := by
  have hold := List.mem_of_getElem? ht
  have hmine := h.holder i _ ht rfl
  have hacc := h.admits _ hold rfl
  have hpast := h.apart _ hold rfl
  have hmem : ∀ u ∈ replaceSlot w.threads i .done (some (.watcher i .watching)),
      u = .done ∨ u ∈ w.threads ∨ u = .watcher i .watching := by
    intro u hu
    simpa [eq_comm] using mem_replaceSlot hu
  obtain ⟨h1, h2, h3, h4, h5, h6, h7, h8, h9, h10, h11, h12, h13⟩ := h
  constructor
  case holder =>
    intro j u hu hj
    rcases replaceSlot_cases hu with ⟨rfl, rfl⟩ | ⟨hne, hu'⟩ | ⟨rfl, hadd⟩
    · cases hj
    · have hother := h1 j u hu' hj
      rw [hmine] at hother
      exact absurd (Option.some.inj hother).symm hne
    · cases hadd
      cases hj
  case accounted => grind -ring -linarith [replaceSlot_ne]
  all_goals grind -ring -linarith

end Steps

section Stop

variable {w : World} {i : Nat} {t t' : Thread}

theorem Inv.admission (h : Inv w) (ht : w.threads[i]? = some (.shutdown .admission)) (hfree : w.admission = none) :
    Inv { w with threads := replaceSlot w.threads i (.shutdown .requestStop) none } := by
  have hmem := @mem_slot i (.shutdown .requestStop) w.threads
  have hold := List.mem_of_getElem? ht
  have hnone : ∀ u ∈ w.threads, u.admits = false := by
    intro u hu
    obtain ⟨j, hj⟩ := List.getElem?_of_mem hu
    by_contra had
    have hheld := h.holder j u hj (by grind -ring -linarith)
    rw [hfree] at hheld
    cases hheld
  obtain ⟨h1, h2, h3, h4, h5, h6, h7, h8, h9, h10, h11, h12, h13⟩ := h
  constructor
  case holder => grind -ring -linarith [replaceSlot_cases]
  case accounted => grind -ring -linarith [replaceSlot_ne]
  all_goals grind -ring -linarith

theorem Inv.requestStop (h : Inv w) (ht : w.threads[i]? = some t) (hpast : t.past = true)
    (ht' : t' = .shutdown (.idle true) ∨ ∃ b, t' = .shutdown (.join b)) :
    Inv { w.requestStop with threads := replaceSlot w.threads i t' none } := by
  have hmem := @mem_slot i t' w.threads
  have hold := List.mem_of_getElem? ht
  have hshut : t.isShutdown = true := by grind -ring -linarith
  have hset := h.stopping t hold hshut
  have hnone : ∀ u ∈ w.threads, u.admits = false := by
    intro u hu
    by_contra had
    have hno := h.apart u hu (by simpa using had) t hold
    rw [hpast] at hno
    cases hno
  have hstart := h.exclusive t hold hshut
  unfold World.requestStop
  obtain ⟨h1, h2, h3, h4, h5, h6, h7, h8, h9, h10, h11, h12, h13⟩ := h
  constructor
  case holder => grind -ring -linarith [replaceSlot_cases]
  case accounted => grind -ring -linarith [replaceSlot_ne]
  all_goals grind -ring -linarith

theorem not_active {threads : List Thread} (h : threads.any Thread.isWatcher = false) :
    ∀ u ∈ threads, u.isWatcher = false := by
  simpa using h

theorem Inv.join (h : Inv w) {b : Bool} (ht : w.threads[i]? = some (.shutdown (.join b))) :
    Inv { w with threads := replaceSlot w.threads i (.shutdown (.returning (b && !w.active))) none } := by
  have hmem := @mem_slot i (.shutdown (.returning (b && !w.active))) w.threads
  have hold := List.mem_of_getElem? ht
  have hnone : (b && !w.active) = true → ∀ u ∈ w.threads, u.isWatcher = false := by
    intro hb
    rw [Bool.and_eq_true, Bool.not_eq_true'] at hb
    exact not_active hb.2
  obtain ⟨h1, h2, h3, h4, h5, h6, h7, h8, h9, h10, h11, h12, h13⟩ := h
  constructor
  case holder => grind -ring -linarith [replaceSlot_cases]
  case accounted => grind -ring -linarith [replaceSlot_ne]
  all_goals grind -ring -linarith

theorem Inv.conclude (h : Inv w) {b : Bool} (ht : w.threads[i]? = some (.shutdown (.returning b))) :
    Inv { w with concluded := w.concluded || b, threads := replaceSlot w.threads i .done none } := by
  have hstep := @Inv.below _ _ _ .done h ht (by constructor <;> grind -ring -linarith)
  have hold := List.mem_of_getElem? ht
  refine { hstep with concluded := ?_ }
  intro hc
  have hc : w.concluded = true ∨ b = true := by simpa using hc
  rcases hc with hc | rfl
  · exact hstep.concluded hc
  · refine ⟨h.shut _ hold rfl, fun u hu => ?_⟩
    rcases mem_slot hu with rfl | hin
    · exact ⟨rfl, rfl⟩
    · exact ⟨h.emptied hold u hin, h.exclusive _ hold rfl u hin⟩

end Stop

section Start

variable {w : World} {i : Nat}

theorem Inv.resume (h : Inv w) (ht : w.threads[i]? = some (.start .check)) (hacc : w.accepting = true) :
    Inv { w with threads := replaceSlot w.threads i (.start .install) none } := by
  have hmem := @mem_slot i (.start .install) w.threads
  have hold := List.mem_of_getElem? ht
  obtain ⟨h1, h2, h3, h4, h5, h6, h7, h8, h9, h10, h11, h12, h13⟩ := h
  constructor
  case holder => grind -ring -linarith [replaceSlot_cases]
  case accounted => grind -ring -linarith [replaceSlot_ne]
  all_goals grind -ring -linarith

theorem Inv.reset (h : Inv w) (ht : w.threads[i]? = some (.start .reset)) :
    Inv { w with
      stopEvent := false, accepting := true, threads := replaceSlot w.threads i (.start .install) none } := by
  have hmem := @mem_slot i (.start .install) w.threads
  have hold := List.mem_of_getElem? ht
  have hnone : ∀ u ∈ w.threads, u.isShutdown = false := by
    intro u hu
    by_contra hsh
    have hno := h.exclusive u hu (by simpa using hsh) _ hold
    cases hno
  obtain ⟨h1, h2, h3, h4, h5, h6, h7, h8, h9, h10, h11, h12, h13⟩ := h
  constructor
  case holder => grind -ring -linarith [replaceSlot_cases]
  case accounted => grind -ring -linarith [replaceSlot_ne]
  all_goals grind -ring -linarith

theorem Inv.install (h : Inv w) (ht : w.threads[i]? = some (.start .install)) (ok : Bool) :
    Inv { w with started := w.started || ok, threads := replaceSlot w.threads i .done none } := by
  have hstep := @Inv.below _ _ _ .done h ht (by constructor <;> grind -ring -linarith)
  have hold := List.mem_of_getElem? ht
  refine { hstep with started := ?_ }
  intro _
  have hacc := h.installing hold
  show w.stopEvent = false
  by_contra hstop
  have hno := h.asked _ hold rfl (by simpa using hstop)
  rw [hacc] at hno
  cases hno

end Start

section Calls

variable {w : World}

theorem Inv.fire (h : Inv w) : Inv { w with threads := w.threads ++ [.fire .waiting] } := by
  obtain ⟨h1, h2, h3, h4, h5, h6, h7, h8, h9, h10, h11, h12, h13⟩ := h
  constructor
  case holder => grind -ring -linarith [getElem?_concat_cases]
  case accounted => grind -ring -linarith [List.getElem?_append_left]
  all_goals grind -ring -linarith

theorem Inv.shutdown (h : Inv w) (hsound : Sound w .shutdown = true) :
    Inv { w with stopEvent := true, started := false, threads := w.threads ++ [.shutdown .admission] } := by
  have hnone : ∀ u ∈ w.threads, u.isStart = false := by simpa [Sound] using hsound
  obtain ⟨h1, h2, h3, h4, h5, h6, h7, h8, h9, h10, h11, h12, h13⟩ := h
  constructor
  case holder => grind -ring -linarith [getElem?_concat_cases]
  case accounted => grind -ring -linarith [List.getElem?_append_left]
  all_goals grind -ring -linarith

theorem Inv.start (h : Inv w) (hsound : Sound w .start = true) :
    Inv { w with concluded := false, threads := w.threads ++ [.start .check] } := by
  have hnone : (∀ u ∈ w.threads, u.isShutdown = false) ∧ (w.stopEvent = false ∨ w.accepting = false) := by
    simpa [Sound] using hsound
  obtain ⟨h1, h2, h3, h4, h5, h6, h7, h8, h9, h10, h11, h12, h13⟩ := h
  constructor
  case holder => grind -ring -linarith [getElem?_concat_cases]
  case accounted => grind -ring -linarith [List.getElem?_append_left]
  all_goals grind -ring -linarith

end Calls

section Run

variable {w : World} {i : Nat} {ok : Bool} {r : Turn}

def Turn.into (r : Turn) (w : World) (i : Nat) : World :=
  { r.world with threads := replaceSlot w.threads i r.thread r.added }

theorem fireTurn_inv (h : Inv w) {pc : FirePc} (ht : w.threads[i]? = some (.fire pc))
    (hsound : ok = true ∨ pc ≠ .persist) (hr : w.fireTurn i ok pc = some r) : Inv (r.into w i) := by
  cases pc with
  | waiting =>
      simp only [World.fireTurn, Option.isNone_iff_eq_none] at hr
      split at hr
      · cases hr
        exact h.acquire ht ‹_›
      · cases hr
  | first =>
      simp only [World.fireTurn] at hr
      split at hr
      · cases hr
        exact (h.release ht rfl rfl).history _
      · split at hr
        · cases hr
          exact h.look ht (by simpa using ‹¬w.stopEvent = true›)
        · cases hr
          exact h.release ht rfl rfl
  | second =>
      simp only [World.fireTurn] at hr
      split at hr
      · cases hr
        exact (h.release ht rfl rfl).history _
      · cases hr
        exact h.below ht (by constructor <;> grind -ring -linarith)
  | submit =>
      simp only [World.fireTurn] at hr
      split at hr
      · cases hr
        exact h.submit ht
      · cases hr
        exact h.release ht rfl rfl
  | persist =>
      obtain rfl : ok = true := hsound.resolve_right (not_not.mpr rfl)
      cases hr
      exact h.below ht (by constructor <;> grind -ring -linarith)
  | publish =>
      cases hr
      exact (h.below ht (by constructor <;> grind -ring -linarith)).history _
  | register =>
      have hacc := h.admits _ (List.mem_of_getElem? ht) rfl
      rw [World.fireTurn, if_pos hacc] at hr
      cases hr
      exact h.register ht

theorem watcherTurn_inv (h : Inv w) {run : Nat} {pc : WatcherPc} (ht : w.threads[i]? = some (.watcher run pc))
    (hr : w.watcherTurn run ok pc = some r) : Inv (r.into w i) := by
  cases pc with
  | watching =>
      cases hr
      exact h.below ht (by constructor <;> grind -ring -linarith)
  | committing =>
      simp only [World.watcherTurn] at hr
      split at hr
      · cases hr
        exact (h.below ht (by constructor <;> grind -ring -linarith)).history _
      · cases hr
        exact h.below ht (by constructor <;> grind -ring -linarith)
  | leaving =>
      cases hr
      exact h.below ht (by constructor <;> grind -ring -linarith)

theorem shutdownTurn_inv (h : Inv w) {pc : ShutdownPc} (ht : w.threads[i]? = some (.shutdown pc))
    (hr : w.shutdownTurn ok pc = some r) : Inv (r.into w i) := by
  cases pc with
  | admission =>
      simp only [World.shutdownTurn, Option.isNone_iff_eq_none] at hr
      split at hr
      · cases hr
        exact h.below ht (by constructor <;> grind -ring -linarith)
      · split at hr
        · cases hr
          exact h.admission ht ‹_›
        · cases hr
  | requestStop =>
      cases hr
      exact h.requestStop ht rfl (.inl rfl)
  | idle admissionStopped =>
      cases admissionStopped with
      | true =>
          cases hr
          exact h.below ht (by constructor <;> grind -ring -linarith)
      | false =>
          cases hr
          exact h.below ht (by constructor <;> grind -ring -linarith)
  | watchers idleStopped =>
      cases hr
      exact h.requestStop ht rfl (.inr ⟨idleStopped, rfl⟩)
  | join idleStopped =>
      cases hr
      exact h.join ht
  | returning stopped =>
      cases hr
      exact h.conclude ht

theorem startTurn_inv (h : Inv w) {pc : StartPc} (ht : w.threads[i]? = some (.start pc))
    (hr : w.startTurn ok pc = some r) : Inv (r.into w i) := by
  cases pc with
  | check =>
      simp only [World.startTurn] at hr
      split at hr
      · cases hr
        exact h.resume ht ‹_›
      · split at hr <;> cases hr <;> exact h.below ht (by constructor <;> grind -ring -linarith)
  | reset =>
      simp only [World.startTurn] at hr
      split at hr
      · cases hr
        exact h.below ht (by constructor <;> grind -ring -linarith)
      · cases hr
        exact h.reset ht
  | install =>
      cases hr
      exact h.install ht ok

theorem next_inv {a : Act} {w' : World} (h : Inv w) (hsound : Sound w a = true) (hnext : next w a = some w') :
    Inv w' := by
  cases a with
  | fire =>
      cases hnext
      exact h.fire
  | shutdown =>
      cases hnext
      exact h.shutdown hsound
  | start =>
      cases hnext
      exact h.start hsound
  | turn i ok =>
      obtain ⟨t, ht, hnext⟩ := Option.bind_eq_some_iff.mp hnext
      obtain ⟨r, hr, rfl⟩ := Option.map_eq_some_iff.mp hnext
      show Inv (r.into w i)
      cases t with
      | fire pc =>
          refine fireTurn_inv h ht ?_ hr
          simp only [Sound, ht, Bool.or_eq_true, bne_iff_ne, ne_eq, Option.some.injEq, Thread.fire.injEq] at hsound
          exact hsound
      | watcher run pc => exact watcherTurn_inv h ht hr
      | shutdown pc => exact shutdownTurn_inv h ht hr
      | start pc => exact startTurn_inv h ht hr
      | done => cases hr

theorem inv_start : Inv {} := by constructor <;> simp

theorem run_inv {as : List Act} (h : (machine.restrict fun w a => Sound w a = true).run machine.start as = some w) :
    Inv w := by
  refine Machine.run_invariant (P := Inv) ?_ as inv_start h
  intro u a u' hu hnext
  obtain ⟨hsound, hnext⟩ := Machine.restrict_next hnext
  exact next_inv hu hsound hnext

theorem shutdownTurn_histories {pc : ShutdownPc} (hr : w.shutdownTurn ok pc = some r) :
    r.world.submitted = w.submitted ∧ r.world.history = w.history := by
  unfold World.shutdownTurn at hr
  split at hr
  case h_1 =>
    split at hr
    · cases hr
      exact ⟨rfl, rfl⟩
    · split at hr
      · cases hr
        exact ⟨rfl, rfl⟩
      · cases hr
  all_goals
    cases hr
    exact ⟨rfl, rfl⟩

theorem next_histories {a : Act} {w' : World} (h : Inv w) (hnext : next w a = some w') :
    (w.concluded = true → w'.submitted = w.submitted ∧ w'.history.published = w.history.published ∧
      w'.history.recorded = w.history.recorded) ∧
    (w.started = true → w'.history.refused = w.history.refused) := by
  cases a with
  | fire =>
      cases hnext
      exact ⟨fun _ => ⟨rfl, rfl, rfl⟩, fun _ => rfl⟩
  | shutdown =>
      cases hnext
      exact ⟨fun _ => ⟨rfl, rfl, rfl⟩, fun _ => rfl⟩
  | start =>
      cases hnext
      exact ⟨fun _ => ⟨rfl, rfl, rfl⟩, fun _ => rfl⟩
  | turn i ok =>
      obtain ⟨t, ht, hnext⟩ := Option.bind_eq_some_iff.mp hnext
      obtain ⟨r, hr, rfl⟩ := Option.map_eq_some_iff.mp hnext
      have hmem := List.mem_of_getElem? ht
      have hadmits : w.concluded = true → t.admits = false := by
        intro hc
        by_contra had
        have hacc := h.admits t hmem (by simpa using had)
        rw [(h.concluded hc).1] at hacc
        cases hacc
      have hwatch : w.concluded = true → t.isWatcher = false := fun hc => ((h.concluded hc).2 t hmem).1
      have hstop : w.started = true → w.stopEvent = false := h.started
      have hopen : w.started = true → w.accepting = true := by
        intro hs
        by_contra hacc
        have hset := h.refusing (by simpa using hacc)
        rw [hstop hs] at hset
        cases hset
      cases t with
      | fire pc => cases pc <;> grind -ring -linarith [World.turn, World.fireTurn, World.refuse, World.leave]
      | watcher run pc => cases pc <;> grind -ring -linarith [World.turn, World.watcherTurn]
      | shutdown pc =>
          obtain ⟨hsub, hhist⟩ := shutdownTurn_histories hr
          exact ⟨fun _ => ⟨hsub, congrArg History.published hhist, congrArg History.recorded hhist⟩,
            fun _ => congrArg History.refused hhist⟩
      | start pc => cases pc <;> grind -ring -linarith [World.turn, World.startTurn]
      | done => cases hr

end Run

theorem schedules_shutdown_conclusive {as : List Act} {w : World}
    (h : (machine.restrict fun w a => Sound w a = true).run machine.start as = some w) :
    (w.concluded = true → w.active = false ∧ (∀ f ∈ w.submitted, f ∈ w.registered) ∧
      ∀ a w', next w a = some w' → w'.submitted = w.submitted ∧ w'.history.published = w.history.published ∧
        w'.history.recorded = w.history.recorded) ∧
    (w.started = true → ∀ a w', next w a = some w' → w'.history.refused = w.history.refused) := by
  have hinv := run_inv h
  refine ⟨fun hc => ⟨?_, ?_, ?_⟩, fun hs a w' hnext => (next_histories hinv hnext).2 hs⟩
  · simpa [World.active] using fun t ht => ((hinv.concluded hc).2 t ht).1
  · intro f hf
    rcases hinv.accounted f hf with hreg | ⟨t, ht, howes⟩
    · exact hreg
    · have hacc := hinv.admits t (List.mem_of_getElem? ht) (Thread.admits_of_owes howes)
      rw [(hinv.concluded hc).1] at hacc
      cases hacc
  · exact fun a w' hnext => (next_histories hinv hnext).1 hc

-- A run through the gate, a shutdown that waits for it to be recorded, and a start.
def stoppedRun : List Act :=
  [.fire, .turn 0 true, .turn 0 true, .turn 0 true, .turn 0 true, .turn 0 true, .turn 0 true, .turn 0 true,
    .turn 1 true, .shutdown, .turn 2 true, .turn 2 true, .turn 2 true, .turn 2 true, .turn 1 true, .turn 1 true,
    .turn 2 true, .turn 2 true]

theorem schedules_shutdown_conclusive_recorded :
    ∃ w, w.concluded = true ∧ w.history.recorded = [0] ∧ w.active = false ∧
      ∀ a w', next w a = some w' → w'.submitted = w.submitted := by
  have hrun : ((machine.restrict fun w a => Sound w a = true).run machine.start stoppedRun).map
      (fun w => (w.concluded, w.history.recorded)) = some (true, [0]) := by
    decide
  obtain ⟨w, hw, hlast⟩ := Option.map_eq_some_iff.mp hrun
  obtain ⟨hc, hrec⟩ := Prod.mk.inj hlast
  have hboth := (schedules_shutdown_conclusive hw).1 hc
  exact ⟨w, hc, hrec, hboth.1, fun a w' hnext => (hboth.2.2 a w' hnext).1⟩

-- A shutdown that cannot wait for a fire leaves the stop event set, which the next start does not clear.
theorem start_stays_stopped :
    ((machine.run machine.start
      [.fire, .turn 0 true, .turn 0 true, .shutdown, .turn 1 false, .turn 1 true, .turn 1 true, .turn 0 true,
        .start, .turn 2 true, .turn 2 true]).bind fun w =>
      (machine.run w [.fire, .turn 3 true, .turn 3 true]).map fun w' =>
        (w.started, w.history.refused, w'.started, w'.history.refused)) =
      some (true, [0], true, [0, 3]) := by
  decide

end GaHub.Schedules.Lifecycle
