import Mathlib.Algebra.Order.Ring.Rat
import Mathlib.Data.List.TakeWhile
import Mathlib.Tactic.Linarith
import GaHub.Lib.Machine

namespace GaHub.Remote.Throttle

open Lib

-- A login that passed the throttle: `now`, and whether its form has been read.
structure Attempt where
  arrived : ℚ
  checking : Bool := false
  deriving DecidableEq

inductive Answer where
  | tooManyRequests (time : ℚ)
  | unauthorized (arrived time : ℚ)
  | seeOther (time : ℚ)
  deriving DecidableEq

-- The logins of one client address: `self.failures[key]`, the attempts that wait, and what was answered.
structure State where
  clock : ℚ := 0
  failures : List ℚ := []
  attempts : List Attempt := []
  answers : List Answer := []

inductive Action where
  | pass (seconds : ℚ)
  | post
  | read (i : Nat)
  | check (i : Nat) (ok : Bool)
  -- the form cannot be read, or the client is gone
  | drop (i : Nat)

def WINDOW : ℚ := 600
def LIMIT : Nat := 6

namespace State

variable (s : State)

def expire : List ℚ := s.failures.dropWhile fun t => decide (WINDOW < s.clock - t)

def post : State :=
  let s := { s with failures := s.expire }
  if LIMIT ≤ s.failures.length then { s with answers := s.answers ++ [.tooManyRequests s.clock] }
  else { s with attempts := s.attempts ++ [{ arrived := s.clock }] }

def answer (a : Attempt) (ok : Bool) : State :=
  if ok then { s with failures := [], answers := s.answers ++ [.seeOther s.clock] }
  else { s with failures := s.failures ++ [a.arrived], answers := s.answers ++ [.unauthorized a.arrived s.clock] }

def next : Action → Option State
  | .pass seconds => if 0 ≤ seconds then some { s with clock := s.clock + seconds } else none
  | .post => some s.post
  | .read i => s.attempts[i]?.map fun a => { s with attempts := s.attempts.set i { a with checking := true } }
  | .check i ok => s.attempts[i]?.bind fun a =>
      if a.checking then some ({ s with attempts := s.attempts.eraseIdx i }.answer a ok) else none
  | .drop i => if i < s.attempts.length then some { s with attempts := s.attempts.eraseIdx i } else none

end State

def machine : Machine State Action := ⟨{}, State.next⟩

-- When the attempts arrived that failed since the last login that succeeded.
def recorded (answers : List Answer) : List ℚ :=
  answers.foldl (fun ts a => match a with
    | .tooManyRequests _ => ts
    | .unauthorized arrived _ => ts ++ [arrived]
    | .seeOther _ => []) []

@[simp] theorem recorded_refused (as : List Answer) (t : ℚ) : recorded (as ++ [.tooManyRequests t]) = recorded as := by
  simp [recorded]

@[simp] theorem recorded_failed (as : List Answer) (t u : ℚ) :
    recorded (as ++ [.unauthorized t u]) = recorded as ++ [t] := by
  simp [recorded]

@[simp] theorem recorded_passed (as : List Answer) (t : ℚ) : recorded (as ++ [.seeOther t]) = [] := by
  simp [recorded]

def Kept (s : State) : Prop :=
  ∃ gone, recorded s.answers = gone ++ s.failures ∧ ∀ t ∈ gone, WINDOW < s.clock - t

theorem Kept.expire {s : State} (h : Kept s) : Kept { s with failures := s.expire } := by
  obtain ⟨gone, heq, hold⟩ := h
  refine ⟨gone ++ s.failures.takeWhile fun t => decide (WINDOW < s.clock - t), ?_, ?_⟩
  · simp only [State.expire, List.append_assoc, List.takeWhile_append_dropWhile, heq]
  · intro t ht
    rcases List.mem_append.mp ht with ht | ht
    · exact hold t ht
    · have hold := List.mem_takeWhile_imp ht
      exact of_decide_eq_true hold

theorem Kept.answer {s : State} {a : Attempt} {ok : Bool} (h : Kept s) : Kept (s.answer a ok) := by
  obtain ⟨gone, heq, hold⟩ := h
  cases ok with
  | true => exact ⟨[], by simp [State.answer], by simp⟩
  | false => exact ⟨gone, by simp [State.answer, heq], hold⟩

theorem Kept.next {s t : State} {a : Action} (h : Kept s) (hs : s.next a = some t) : Kept t := by
  cases a with
  | pass seconds =>
      obtain ⟨hpos, rfl⟩ : 0 ≤ seconds ∧ { s with clock := s.clock + seconds } = t := by
        simpa [State.next] using hs
      obtain ⟨gone, heq, hold⟩ := h
      refine ⟨gone, heq, fun u hu => ?_⟩
      have := hold u hu
      show WINDOW < s.clock + seconds - u
      linarith
  | post =>
      cases hs
      obtain ⟨gone, heq, hold⟩ := h.expire
      unfold State.post
      dsimp only
      split
      · exact ⟨gone, by simpa using heq, hold⟩
      · exact ⟨gone, heq, hold⟩
  | read i =>
      obtain ⟨a, -, rfl⟩ := Option.map_eq_some_iff.mp hs
      exact h
  | check i ok =>
      obtain ⟨a, -, hs⟩ := Option.bind_eq_some_iff.mp hs
      obtain ⟨-, hs⟩ := Option.ite_none_right_eq_some.mp hs
      cases hs
      exact Kept.answer (s := { s with attempts := s.attempts.eraseIdx i }) h
  | drop i =>
      obtain ⟨-, hs⟩ := Option.ite_none_right_eq_some.mp hs
      cases hs
      exact h

theorem reachable_kept {s : State} (hs : machine.Reachable s) : Kept s :=
  hs.invariant ⟨[], rfl, by simp⟩ fun _ _ _ h ha => h.next ha

theorem Kept.recent_le {s : State} (h : Kept s) :
    ((recorded s.answers).filter fun t => decide (s.clock - t ≤ WINDOW)).length ≤ s.failures.length := by
  obtain ⟨gone, heq, hold⟩ := h
  have hgone : gone.filter (fun t => decide (s.clock - t ≤ WINDOW)) = [] := by
    rw [List.filter_eq_nil_iff]
    intro t ht
    exact fun hle => absurd (of_decide_eq_true hle) (not_le.mpr (hold t ht))
  rw [heq, List.filter_append, hgone, List.nil_append]
  exact List.length_filter_le _ _

def alone (s : State) : Action → Bool
  | .post => s.attempts.isEmpty
  | _ => true

def inWindow (a : ℚ) (ts : List ℚ) : List ℚ := ts.filter fun t => decide (a ≤ t ∧ t ≤ a + WINDOW)

structure Spaced (s : State) : Prop where
  single : s.attempts.length ≤ 1
  room : ∀ a ∈ s.attempts, ((recorded s.answers).filter fun t => decide (a.arrived - t ≤ WINDOW)).length < LIMIT
  bounded : ∀ a, (inWindow a (recorded s.answers)).length ≤ LIMIT

theorem Spaced.post {s : State} (h : Spaced s) (hkept : Kept s) (halone : s.attempts = []) : Spaced s.post := by
  have hrecent := hkept.expire.recent_le
  unfold State.post
  dsimp only at hrecent ⊢
  split
  case isTrue => exact ⟨h.single, by simp [halone], by simpa using h.bounded⟩
  case isFalse hlt =>
    refine ⟨by simp [halone], ?_, h.bounded⟩
    simp only [halone, List.nil_append, List.mem_singleton, forall_eq]
    omega

theorem inWindow_concat {ts : List ℚ} {t : ℚ} (hroom : (ts.filter fun u => decide (t - u ≤ WINDOW)).length < LIMIT)
    (h : ∀ a, (inWindow a ts).length ≤ LIMIT) (a : ℚ) : (inWindow a (ts ++ [t])).length ≤ LIMIT := by
  unfold inWindow
  rw [List.filter_append, List.length_append]
  by_cases ht : a ≤ t ∧ t ≤ a + WINDOW
  · have hsub : (inWindow a ts).length ≤ (ts.filter fun u => decide (t - u ≤ WINDOW)).length := by
      apply List.Sublist.length_le
      apply List.monotone_filter_right
      intro u hu
      have hu := of_decide_eq_true hu
      apply decide_eq_true
      linarith [ht.2, hu.1]
    unfold inWindow at hsub
    simp only [List.filter_cons, ht, and_self, decide_true, if_true, List.filter_nil, List.length_singleton]
    omega
  · have := h a
    unfold inWindow at this
    simpa [ht] using this

theorem Spaced.next {s t : State} {a : Action} (h : Spaced s) (hkept : Kept s) (ha : alone s a = true)
    (hs : s.next a = some t) : Spaced t := by
  cases a with
  | pass seconds =>
      obtain ⟨-, hs⟩ := Option.ite_none_right_eq_some.mp hs
      cases hs
      exact ⟨h.single, h.room, h.bounded⟩
  | post =>
      cases hs
      exact h.post hkept (List.isEmpty_iff.mp ha)
  | read i =>
      obtain ⟨a, hi, rfl⟩ := Option.map_eq_some_iff.mp hs
      refine ⟨by simpa using h.single, ?_, h.bounded⟩
      intro b hb
      rcases List.mem_or_eq_of_mem_set hb with hb | rfl
      · exact h.room b hb
      · exact h.room a (List.mem_of_getElem? hi)
  | check i ok =>
      obtain ⟨a, hi, hs⟩ := Option.bind_eq_some_iff.mp hs
      obtain ⟨-, hs⟩ := Option.ite_none_right_eq_some.mp hs
      cases hs
      have hroom := h.room a (List.mem_of_getElem? hi)
      -- it was the only one
      have hlast : s.attempts.eraseIdx i = [] := by
        have hlt := (List.getElem?_eq_some_iff.mp hi).1
        have hsingle := h.single
        apply List.eq_nil_of_length_eq_zero
        rw [List.length_eraseIdx_of_lt hlt]
        omega
      cases ok with
      | true => exact ⟨by simp [State.answer, hlast], by simp [State.answer, hlast], by simp [State.answer, inWindow]⟩
      | false =>
          refine ⟨by simp [State.answer, hlast], by simp [State.answer, hlast], fun b => ?_⟩
          simpa [State.answer] using inWindow_concat hroom h.bounded b
  | drop i =>
      obtain ⟨-, hs⟩ := Option.ite_none_right_eq_some.mp hs
      cases hs
      have hsub := List.eraseIdx_sublist s.attempts i
      exact ⟨hsub.length_le.trans h.single, fun a ha => h.room a (hsub.subset ha), h.bounded⟩

theorem reachable_spaced {s : State} (hs : (machine.restrict fun s a => alone s a = true).Reachable s) : Spaced s := by
  refine hs.invariant_with (fun h => reachable_kept h.of_restrict) ⟨Nat.zero_le _, ?_, fun _ => Nat.zero_le _⟩ ?_
  · intro a ha
    cases ha
  · intro s a t h hkept ha
    obtain ⟨halone, hnext⟩ := Machine.restrict_next ha
    exact h.next hkept halone hnext

-- However the attempts overlap, one that arrives is refused while six failures of the last ten minutes are recorded,
-- a login that succeeds forgetting those before it; and where no two overlap, at most six of those that arrive within
-- ten minutes fail.
theorem throttle_bounds :
    (∀ s, machine.Reachable s →
      LIMIT ≤ ((recorded s.answers).filter fun t => decide (s.clock - t ≤ WINDOW)).length →
        s.post.attempts = s.attempts ∧ s.post.answers = s.answers ++ [.tooManyRequests s.clock]) ∧
    ∀ s, (machine.restrict fun s a => alone s a = true).Reachable s →
      ∀ a, (inWindow a (recorded s.answers)).length ≤ LIMIT := by
  refine ⟨fun s hs hfull => ?_, fun s hs => (reachable_spaced hs).bounded⟩
  have hrecent := (reachable_kept hs).expire.recent_le
  dsimp only at hrecent
  unfold State.post
  dsimp only
  rw [if_pos (hfull.trans hrecent)]
  exact ⟨rfl, rfl⟩

-- How many checks ended in failure in the ten minutes from a moment.
def failedWithin (s : State) (a : ℚ) : Nat :=
  (s.answers.filter fun answer => match answer with
    | .unauthorized _ time => decide (a ≤ time ∧ time ≤ a + WINDOW)
    | _ => false).length

def login (ok : Bool) : List Action := [.post, .read 0, .check 0 ok]

-- Five wrong passwords, the right one, and five wrong ones more.
theorem success_forgets : ¬∀ s, machine.Reachable s → ∀ a, failedWithin s a ≤ LIMIT := by
  intro h
  have hrun : (machine.run machine.start ((List.replicate 5 (login false)).flatten ++ login true ++
      (List.replicate 5 (login false)).flatten)).map (failedWithin · 0) = some 10 := by decide +kernel
  obtain ⟨s, hs, hten⟩ := Option.map_eq_some_iff.mp hrun
  have := h s ⟨_, hs⟩ 0
  rw [hten] at this
  exact absurd this (by decide)

end GaHub.Remote.Throttle
