import Mathlib.Algebra.Order.Floor.Ring
import Mathlib.Data.Rat.Floor
import GaHub.Lib.Lists

namespace GaHub.Remote

open Lib

-- A login cookie, by the number of the login it comes from. `token` draws sixteen random bytes and signs them, so a
-- cookie stands for one login, and only a login makes one.
abbrev CookieId := Nat

-- `int(time.time()) + 43200`
def expires (login : ℚ) : ℚ := (⌊login⌋ + 43200 : ℤ)

-- One clock for `time.time` and `time.monotonic`, and when the cookies were issued.
structure Clock where
  now : ℚ := 0
  logins : List ℚ := []
  deriving DecidableEq

namespace Clock

variable (k : Clock)

def authenticated (c : CookieId) : Bool :=
  match k.logins[c]? with
  | some login => decide (k.now < expires login)
  | none => false

def login : Clock := { k with logins := k.logins ++ [k.now] }

def pass (seconds : ℚ) : Clock := { k with now := k.now + max seconds 0 }

end Clock

section Clocks

variable {k : Clock} {c : CookieId}

theorem authenticated_iff :
    k.authenticated c = true ↔ ∃ login, k.logins[c]? = some login ∧ k.now < expires login := by
  unfold Clock.authenticated
  cases k.logins[c]? <;> simp

def Clock.Issued (k : Clock) (c : CookieId) (time : ℚ) : Prop := ∃ login, k.logins[c]? = some login ∧ login ≤ time

theorem Clock.Issued.later {time time' : ℚ} (h : k.Issued c time) (hle : time ≤ time') : k.Issued c time' := by
  obtain ⟨login, hlogin, hbefore⟩ := h
  exact ⟨login, hlogin, hbefore.trans hle⟩

theorem Clock.Issued.login {time : ℚ} (h : k.Issued c time) : k.login.Issued c time := by
  obtain ⟨login, hlogin, hbefore⟩ := h
  exact ⟨login, getElem?_grow hlogin _, hbefore⟩

-- A later clock of the same gateway.
structure Clock.Before (k k' : Clock) : Prop where
  now : k.now ≤ k'.now
  issued : ∀ {c time}, k.Issued c time → k'.Issued c time

theorem Clock.before_login : k.Before k.login := ⟨le_refl _, Clock.Issued.login⟩

theorem Clock.before_pass (k : Clock) (seconds : ℚ) : k.Before (k.pass seconds) :=
  ⟨le_add_of_nonneg_right (le_max_right _ _), fun h => h⟩

def Clock.Sound (k : Clock) : Prop := ∀ login ∈ k.logins, login ≤ k.now

theorem Clock.Sound.login (h : k.Sound) : k.login.Sound := by
  intro login hlogin
  rcases List.mem_append.mp hlogin with hold | hnew
  · exact h login hold
  · rw [List.mem_singleton.mp hnew]
    exact le_refl _

theorem Clock.Sound.pass (h : k.Sound) (seconds : ℚ) : (k.pass seconds).Sound := fun login hlogin =>
  (h login hlogin).trans (k.before_pass seconds).now

theorem Clock.Sound.issued (h : k.Sound) (hvalid : k.authenticated c = true) : k.Issued c k.now := by
  obtain ⟨login, hlogin, -⟩ := authenticated_iff.mp hvalid
  exact ⟨login, hlogin, h login (List.mem_of_getElem? hlogin)⟩

end Clocks

end GaHub.Remote
