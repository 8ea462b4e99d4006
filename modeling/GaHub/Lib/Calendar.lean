import Mathlib.Data.Nat.Digits.Defs
import Mathlib.Tactic.IntervalCases

namespace Lib

-- The Gregorian calendar, also before it was introduced, between two years.
def isLeap (year : Nat) : Bool := year % 4 = 0 && (year % 100 ≠ 0 || year % 400 = 0)

def daysInMonth (year month : Nat) : Nat :=
  if month = 2 then (if isLeap year then 29 else 28) else if month ∈ [4, 6, 9, 11] then 30 else 31

def minYear : Nat := 1

def maxYear : Nat := 9999

structure Date where
  year : Nat
  month : Nat
  day : Nat
  valid : (minYear ≤ year ∧ year ≤ maxYear) ∧ (1 ≤ month ∧ month ≤ 12) ∧ 1 ≤ day ∧ day ≤ daysInMonth year month
  deriving DecidableEq

namespace Date

def ofYmd (year month day : Nat) : Option Date :=
  if h : (minYear ≤ year ∧ year ≤ maxYear) ∧ (1 ≤ month ∧ month ≤ 12) ∧ 1 ≤ day ∧ day ≤ daysInMonth year month then
    some ⟨year, month, day, h⟩
  else none

theorem ofYmd_self (d : Date) : ofYmd d.year d.month d.day = some d := dif_pos d.valid

-- The days of the years before, of the months before, and the day itself.
def toOrdinal (d : Date) : Nat :=
  (d.year - 1) * 365 + (d.year - 1) / 4 - (d.year - 1) / 100 + (d.year - 1) / 400 +
    ((List.range (d.month - 1)).map fun m => daysInMonth d.year (m + 1)).sum + d.day

def weekday (d : Date) : Nat := (d.toOrdinal + 6) % 7

def next (d : Date) : Option Date :=
  (ofYmd d.year d.month (d.day + 1)).or ((ofYmd d.year (d.month + 1) 1).or (ofYmd (d.year + 1) 1 1))

def previous (d : Date) : Option Date :=
  (ofYmd d.year d.month (d.day - 1)).or
    ((ofYmd d.year (d.month - 1) (daysInMonth d.year (d.month - 1))).or (ofYmd (d.year - 1) 12 31))

-- A number of days later or earlier, where the calendar goes so far.
def later : Nat → Date → Option Date
  | 0, d => some d
  | n + 1, d => d.next.bind (later n)

def earlier : Nat → Date → Option Date
  | 0, d => some d
  | n + 1, d => d.previous.bind (earlier n)

end Date

section Text

def digit (n : Nat) : Char := Char.ofNat (48 + n % 10)

def digitValue (c : Char) : Option Nat := if c.isDigit then some (c.toNat - 48) else none

def number (digits : List Char) : Option Nat :=
  digits.foldl (fun n c => n.bind fun n => (digitValue c).map (n * 10 + ·)) (some 0)

-- `isoformat`
def Date.isoformat (d : Date) : List Char :=
  [digit (d.year / 1000), digit (d.year / 100), digit (d.year / 10), digit d.year, '-',
    digit (d.month / 10), digit d.month, '-', digit (d.day / 10), digit d.day]

-- One or two digits up to a greatest number, a single one also behind a blank where that is allowed.
def shortNumber (blank : Bool) (greatest : Nat) (text : List Char) : Option Nat :=
  match text with
  | [' ', c] => if blank then (digitValue c).filter fun n => 1 ≤ n else none
  | _ => if text.length = 1 ∨ text.length = 2 then (number text).filter fun n => 1 ≤ n ∧ n ≤ greatest else none

-- `strptime(text, "%Y-%m-%d")`
def strptime : List Char → Option Date
  | a :: b :: c :: d :: '-' :: rest =>
    match rest.dropWhile (· ≠ '-') with
    | '-' :: day => do
      let year ← number [a, b, c, d]
      let month ← shortNumber false 12 (rest.takeWhile (· ≠ '-'))
      let day ← shortNumber true 31 day
      Date.ofYmd year month day
    | _ => none
  | _ => none

theorem digitValue_digit (n : Nat) : digitValue (digit n) = some (n % 10) := by
  have hlt := Nat.mod_lt n (show 10 > 0 by decide)
  rw [digit]
  generalize n % 10 = k at hlt
  interval_cases k <;> rfl

theorem digit_ne {n : Nat} {c : Char} (hc : c.isDigit = false) : digit n ≠ c := by
  rintro rfl
  have hvalue := digitValue_digit n
  rw [digitValue, hc] at hvalue
  cases hvalue

theorem daysInMonth_le (year month : Nat) : daysInMonth year month ≤ 31 := by
  rw [daysInMonth]
  split
  · split <;> omega
  · split <;> omega

theorem strptime_isoformat (d : Date) : strptime d.isoformat = some d := by
  obtain ⟨⟨hmin, hmax⟩, ⟨hmonth, hmonth'⟩, hday, hday'⟩ := d.valid
  have hdays := daysInMonth_le d.year d.month
  have hdash : ∀ n, digit n ≠ '-' := fun n => digit_ne rfl
  have hblank : ∀ n, digit n ≠ ' ' := fun n => digit_ne rfl
  have hyear : number [digit (d.year / 1000), digit (d.year / 100), digit (d.year / 10), digit d.year] = some d.year := by
    simp only [number, List.foldl_cons, List.foldl_nil, Option.bind_some, digitValue_digit, Option.map_some, Option.some_inj]
    rw [maxYear] at hmax
    omega
  have hshort : ∀ (blank : Bool) (greatest n : Nat), 1 ≤ n → n ≤ greatest → greatest ≤ 99 →
      shortNumber blank greatest [digit (n / 10), digit n] = some n := by
    intro blank greatest n hlow hhigh hgreatest
    have hnumber : number [digit (n / 10), digit n] = some n := by
      simp only [number, List.foldl_cons, List.foldl_nil, Option.bind_some, digitValue_digit, Option.map_some, Option.some_inj]
      omega
    rw [shortNumber]
    · rw [if_pos (.inr rfl), hnumber, Option.filter_some, decide_eq_true ⟨hlow, hhigh⟩]
      rfl
    · rintro c heq
      exact hblank _ (List.cons.inj heq).1
  have hdrop : [digit (d.month / 10), digit d.month, '-', digit (d.day / 10), digit d.day].dropWhile (· ≠ '-') =
      ['-', digit (d.day / 10), digit d.day] := by
    simp [hdash]
  have htake : [digit (d.month / 10), digit d.month, '-', digit (d.day / 10), digit d.day].takeWhile (· ≠ '-') =
      [digit (d.month / 10), digit d.month] := by
    simp [hdash]
  rw [Date.isoformat, strptime, hdrop]
  simp only
  rw [htake, hyear, hshort false 12 d.month hmonth hmonth' (by omega), hshort true 31 d.day hday (by omega) (by omega)]
  exact d.ofYmd_self

end Text

end Lib
