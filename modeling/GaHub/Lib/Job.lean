import Mathlib.Data.Option.Basic

namespace Lib

-- A call handed to a pool of threads by a request that waits for it.
inductive Job (σ ρ : Type) where
  | idle
  | queued
  | running (stage : σ)
  | ended (result : ρ)
  | dropped
  deriving DecidableEq

namespace Job

variable {σ ρ κ ι : Type}

-- The request stops waiting: a call no thread has picked up leaves the queue,
-- one that runs goes on without the request.
def abandon : Job σ ρ → Job σ ρ
  | .queued => .dropped
  | job => job

def settled : Job σ ρ → Bool
  | .queued => false
  | .running _ => false
  | _ => true

def work (start : σ) (f : κ → σ → ι → Option (κ × (σ ⊕ ρ))) (s : κ) (o : ι) : Job σ ρ → Option (κ × Job σ ρ)
  | .queued => some (s, .running start)
  | .running stage => (f s stage o).map fun
      | (s, .inl stage) => (s, .running stage)
      | (s, .inr result) => (s, .ended result)
  | _ => none

theorem work_cases {start : σ} {f : κ → σ → ι → Option (κ × (σ ⊕ ρ))} {s s' : κ} {o : ι} {job job' : Job σ ρ}
    (h : work start f s o job = some (s', job')) :
    (job = .queued ∧ s' = s ∧ job' = .running start) ∨
    (∃ stage stage', job = .running stage ∧ f s stage o = some (s', .inl stage') ∧ job' = .running stage') ∨
    (∃ stage result, job = .running stage ∧ f s stage o = some (s', .inr result) ∧ job' = .ended result) := by
  cases job with
  | queued =>
      cases h
      exact .inl ⟨rfl, rfl, rfl⟩
  | running stage =>
      obtain ⟨⟨t, next⟩, hf, ht⟩ := Option.map_eq_some_iff.mp h
      cases next with
      | inl stage' =>
          cases ht
          exact .inr (.inl ⟨stage, stage', rfl, hf, rfl⟩)
      | inr result =>
          cases ht
          exact .inr (.inr ⟨stage, result, rfl, hf, rfl⟩)
  | idle => cases h
  | ended result => cases h
  | dropped => cases h

theorem abandon_cases (job : Job σ ρ) :
    (job = .queued ∧ job.abandon = .dropped) ∨ (job ≠ .queued ∧ job.abandon = job) := by
  cases job with
  | queued => exact .inl ⟨rfl, rfl⟩
  | idle => exact .inr ⟨by simp, rfl⟩
  | running stage => exact .inr ⟨by simp, rfl⟩
  | ended result => exact .inr ⟨by simp, rfl⟩
  | dropped => exact .inr ⟨by simp, rfl⟩

-- What a request alone can make of a call: hand it over, leave it, or take it out of the queue.
inductive Handled : Job σ ρ → Job σ ρ → Prop where
  | same (job : Job σ ρ) : Handled job job
  | handed : Handled .idle .queued
  | left : Handled .queued .dropped

theorem Handled.ended {job job' : Job σ ρ} (h : Handled job job') (result : ρ) :
    job' = .ended result ↔ job = .ended result := by
  cases h <;> simp

theorem Handled.running {job job' : Job σ ρ} (h : Handled job job') (stage : σ) :
    job' = .running stage ↔ job = .running stage := by
  cases h <;> simp

theorem Handled.abandon (job : Job σ ρ) : Handled job job.abandon := by
  cases job with
  | queued => exact .left
  | idle => exact .same _
  | running stage => exact .same _
  | ended result => exact .same _
  | dropped => exact .same _

end Job

end Lib
