import Mathlib.Algebra.Order.Ring.Rat
import Mathlib.Tactic.Positivity

namespace GaHub.Streams

def defaultMaxAttempts : Int := 3
def maxConfigAttempts : Int := 5
def defaultScheduledMaxAttempts : Int := 6
def maxScheduledConfigAttempts : Int := 10
def maxConfigBackoffSeconds : ℚ := 600
def maxConfigBackoffFactor : ℚ := 10

def scheduledRetrySources : List String := ["scheduled", "scheduled_task", "autonomous"]

structure ChatRetryConfig where
  enabled : Bool := true
  maxAttempts : Int := defaultMaxAttempts
  scheduledMaxAttempts : Int := defaultScheduledMaxAttempts
  backoffBaseSeconds : ℚ := 2
  backoffFactor : ℚ := 2
  backoffMaxSeconds : ℚ := 60
  scheduledBackoffBaseSeconds : ℚ := 5
  scheduledBackoffMaxSeconds : ℚ := 600
  deriving DecidableEq

-- What `int` raises: `TypeError` and `ValueError` are caught, `OverflowError` is not.
inductive IntError where
  | invalid
  | overflow
  deriving DecidableEq

-- How the values a configuration may hold read as numbers and switches; a float that is not finite reads as nothing.
structure Reading (V : Type) where
  int : V → Except IntError Int
  float : V → Option ℚ
  bool : V → Bool

section Config

variable {V : Type} (reading : Reading V)

-- A stored mapping, and what `raw.get` finds in it.
abbrev Payload (V : Type) := List (String × V)

def attempts (raw : Payload V) (key : String) (default limit : Int) : Except IntError Int :=
  match raw.lookup key with
  | none => .ok (max 0 (min limit default))
  | some v =>
      match reading.int v with
      | .ok n => .ok (max 0 (min limit n))
      | .error .invalid => .ok (max 0 (min limit default))
      | .error .overflow => .error .overflow

def seconds (raw : Payload V) (key : String) (default low high : ℚ) : ℚ :=
  max low (min high (((raw.lookup key).bind reading.float).getD default))

def normalizeChatRetryConfig (payload : Option (Payload V)) : Except IntError ChatRetryConfig := do
  let raw := payload.getD []
  let enabled := match raw.lookup "enabled" with
    | none => true
    | some v => reading.bool v
  let maxAttempts ← attempts reading raw "max_attempts" defaultMaxAttempts maxConfigAttempts
  let scheduledMaxAttempts ←
    attempts reading raw "scheduled_max_attempts" defaultScheduledMaxAttempts maxScheduledConfigAttempts
  let base := seconds reading raw "backoff_base_seconds" 2 0 maxConfigBackoffSeconds
  let scheduledBase := seconds reading raw "scheduled_backoff_base_seconds" 5 0 maxConfigBackoffSeconds
  return {
    enabled, maxAttempts, scheduledMaxAttempts
    backoffBaseSeconds := base
    backoffFactor := seconds reading raw "backoff_factor" 2 1 maxConfigBackoffFactor
    backoffMaxSeconds := max (seconds reading raw "backoff_max_seconds" 60 0 maxConfigBackoffSeconds) base
    scheduledBackoffBaseSeconds := scheduledBase
    scheduledBackoffMaxSeconds :=
      max (seconds reading raw "scheduled_backoff_max_seconds" 600 0 maxConfigBackoffSeconds) scheduledBase }

-- `_load_chat_retry_config`: a configuration that cannot be read, or not be normalized, gives the defaults.
def loadChatRetryConfig (stored : Option (Option (Payload V))) : ChatRetryConfig :=
  match stored with
  | none => {}
  | some payload =>
      match normalizeChatRetryConfig reading payload with
      | .ok cfg => cfg
      | .error _ => {}

end Config

-- The delay before retry `attemptIndex`; `jitter` is the factor drawn for it.
def computeBackoffDelay (attemptIndex : Nat) (cfg : ChatRetryConfig) (delayScale jitter : ℚ) (scheduled : Bool) : ℚ :=
  let base := max 0 (if scheduled then cfg.scheduledBackoffBaseSeconds else cfg.backoffBaseSeconds)
  let cap := max 0 (if scheduled then cfg.scheduledBackoffMaxSeconds else cfg.backoffMaxSeconds)
  let delay := base * max 1 cfg.backoffFactor ^ attemptIndex * jitter * delayScale
  max 0 (if cap < delay then cap else delay)

structure RecoverableErrorMatch where
  label : String
  delayScale : ℚ := 1
  -- `none` leaves the configured budget
  maxAttempts : Option Int := none
  deriving DecidableEq

def RecoverableErrorMatch.limit (found : RecoverableErrorMatch) (budget : Int) : Int :=
  match found.maxAttempts with
  | none => budget
  | some n => min budget n

theorem RecoverableErrorMatch.limit_le (found : RecoverableErrorMatch) (budget : Int) : found.limit budget ≤ budget := by
  unfold RecoverableErrorMatch.limit
  split
  · exact le_refl _
  · exact min_le_left _ _

def ChatRetryConfig.budget (cfg : ChatRetryConfig) (scheduled : Bool) : Int :=
  if scheduled then cfg.scheduledMaxAttempts else cfg.maxAttempts

theorem budget_default (scheduled : Bool) : ({} : ChatRetryConfig).budget scheduled ≤ maxScheduledConfigAttempts := by
  cases scheduled <;> decide

theorem attempts_le {V : Type} {reading : Reading V} {raw : Payload V} {key : String} {default limit n : Int}
    (hlimit : 0 ≤ limit) (h : attempts reading raw key default limit = .ok n) : n ≤ limit := by
  unfold attempts at h
  split at h
  · cases h
    omega
  · split at h
    · cases h
      omega
    · cases h
      omega
    · cases h

theorem budget_le {V : Type} (reading : Reading V) (stored : Option (Option (Payload V))) (scheduled : Bool) :
    (loadChatRetryConfig reading stored).budget scheduled ≤ maxScheduledConfigAttempts := by
  unfold loadChatRetryConfig
  split
  · exact budget_default scheduled
  · rename_i payload
    split
    · rename_i cfg hcfg
      unfold normalizeChatRetryConfig at hcfg
      cases hplain : attempts reading (payload.getD []) "max_attempts" defaultMaxAttempts maxConfigAttempts with
      | error e => simp [hplain, bind, Except.bind] at hcfg
      | ok n =>
          cases hscheduled : attempts reading (payload.getD []) "scheduled_max_attempts" defaultScheduledMaxAttempts
              maxScheduledConfigAttempts with
          | error e => simp [hplain, hscheduled, bind, Except.bind] at hcfg
          | ok m =>
              simp only [hplain, hscheduled, bind, Except.bind, pure, Except.pure, Except.ok.injEq] at hcfg
              subst hcfg
              have hn := attempts_le (by decide) hplain
              have hm := attempts_le (by decide) hscheduled
              cases scheduled with
              | false =>
                  simp only [ChatRetryConfig.budget, Bool.false_eq_true, if_false]
                  exact hn.trans (by decide)
              | true =>
                  simp only [ChatRetryConfig.budget, if_true]
                  exact hm
    · exact budget_default scheduled

end GaHub.Streams
