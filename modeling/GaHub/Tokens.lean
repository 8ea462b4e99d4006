import GaHub.Lib.Calendar
import GaHub.Lib.Tally
import Mathlib.Data.Rat.Defs
import Mathlib.Algebra.Order.Ring.Rat

namespace GaHub.Tokens

open Lib

inductive Raised where
  | typeError
  | valueError
  | overflowError
  | osError
  deriving DecidableEq

-- A float; both infinities are converted alike.
inductive Number where
  | finite (q : ℚ)
  | inf
  | nan
  deriving DecidableEq

-- A field of a record. Of a list or a mapping only matters whether there is something in it.
inductive Value where
  | none
  | bool (b : Bool)
  | int (n : Int)
  | float (x : Number)
  | text (s : String)
  | other (filled : Bool)
  deriving DecidableEq

inductive Entry where
  | mapping (fields : List (String × Value))
  | other
  deriving DecidableEq

-- How the platform reads a number from a text, where there is one, and a local date from a timestamp.
structure Python where
  int : String → Option Int
  float : String → Option Number
  fromtimestamp : Int → Except Raised Date

section Conversions

variable (py : Python)

def Value.truthy : Value → Bool
  | .none => false
  | .bool b => b
  | .int n => n ≠ 0
  | .float x => x ≠ .finite 0
  | .text s => s ≠ ""
  | .other filled => filled

-- `entry.get(key, 0) or 0`
def field (fields : List (String × Value)) (key : String) : Value :=
  match (fields.lookup key).filter Value.truthy with
  | some value => value
  | none => .int 0

def intOfNumber : Number → Except Raised Int
  | .finite q => .ok (q.num.tdiv q.den)
  | .inf => .error .overflowError
  | .nan => .error .valueError

-- The nearest float, the even one of two that are as near.
def floatOfInt (n : Int) : Except Raised Number :=
  let m := n.natAbs
  let unit := 2 ^ (m.log2 - 52)
  let rest := m % unit
  let mantissa := if unit < 2 * rest ∨ 2 * rest = unit ∧ m / unit % 2 = 1 then m / unit + 1 else m / unit
  if mantissa * unit < 2 ^ 1024 then .ok (.finite (n.sign * (mantissa * unit : Nat))) else .error .overflowError

def toInt : Value → Except Raised Int
  | .bool b => .ok (if b then 1 else 0)
  | .int n => .ok n
  | .float x => intOfNumber x
  | .text s => match py.int s with
    | some n => .ok n
    | none => .error .valueError
  | .none | .other _ => .error .typeError

def toFloat : Value → Except Raised Number
  | .bool b => .ok (.finite (if b then 1 else 0))
  | .int n => floatOfInt n
  | .float x => .ok x
  | .text s => match py.float s with
    | some x => .ok x
    | none => .error .valueError
  | .none | .other _ => .error .typeError

-- `int(float(entry.get("t", 0) or 0))`
def readTime (fields : List (String × Value)) : Except Raised Int := do intOfNumber (← toFloat py (field fields "t"))

-- `max(0, int(entry.get(key, 0) or 0))`
def count (fields : List (String × Value)) (key : String) : Except Raised Nat := do
  let n ← toInt py (field fields key)
  pure (max 0 n).toNat

end Conversions

section Totals

inductive Counter where
  | requests
  | input
  | output
  | cacheCreate
  | cacheRead
  | total
  deriving DecidableEq

structure Totals where
  requests : Nat := 0
  input : Nat := 0
  output : Nat := 0
  cacheCreate : Nat := 0
  cacheRead : Nat := 0
  total : Nat := 0
  deriving DecidableEq

def Totals.count (t : Totals) : Counter → Nat
  | .requests => t.requests
  | .input => t.input
  | .output => t.output
  | .cacheCreate => t.cacheCreate
  | .cacheRead => t.cacheRead
  | .total => t.total

-- The counters of a mapping that holds them; there are none of one that is missing.
def normaliseTotals (value : Option Totals) : Totals := value.getD {}

def addTotals (left right : Option Totals) : Totals :=
  let a := normaliseTotals left
  let b := normaliseTotals right
  { requests := a.requests + b.requests, input := a.input + b.input, output := a.output + b.output,
    cacheCreate := a.cacheCreate + b.cacheCreate, cacheRead := a.cacheRead + b.cacheRead, total := a.total + b.total }

-- A row with its rate, here before it is rounded.
structure Rated where
  totals : Totals
  cacheHitRate : ℚ
  deriving DecidableEq

def withRate (value : Totals) : Rated where
  totals := value
  cacheHitRate :=
    let inputSide := value.input + value.cacheCreate + value.cacheRead
    if inputSide = 0 then 0 else value.cacheRead / inputSide * 100

variable (py : Python)

-- The four counts a record has, in the order they are read in.
def counts (fields : List (String × Value)) : Except Raised (Nat × Nat × Nat × Nat) := do
  let input ← count py fields "i"
  let output ← count py fields "o"
  let cacheCreate ← count py fields "cc"
  let cacheRead ← count py fields "cr"
  pure (input, output, cacheCreate, cacheRead)

def ledgerTotals (fields : List (String × Value)) : Except Raised Totals :=
  match counts py fields with
  | .ok (input, output, cacheCreate, cacheRead) => .ok {
      requests := if input ≠ 0 ∨ cacheCreate ≠ 0 ∨ cacheRead ≠ 0 then 1 else 0
      input, output, cacheCreate, cacheRead
      total := input + output + cacheCreate + cacheRead }
  | .error .typeError | .error .valueError => .ok (normaliseTotals none)
  | .error e => .error e

end Totals

section Ledger

structure Session where
  totals : Totals
  updatedAt : Int
  deriving DecidableEq

structure Usage where
  days : Dict String Totals := Dict.empty
  allTime : Totals := {}
  sessions : Dict String Session := Dict.empty
  deriving DecidableEq

def isoformat (d : Date) : String := .ofList d.isoformat

def removePrefix (front key : String) : String :=
  if front.toList.isPrefixOf key.toList then .ofList (key.toList.drop front.length) else key

def Usage.record (u : Usage) (key dateKey : String) (timestamp : Int) (totals : Totals) : Usage :=
  let sessionId := removePrefix "GA-" key
  let current := u.sessions.get? sessionId
  { allTime := addTotals (some u.allTime) (some totals)
    days := u.days.set dateKey (addTotals (u.days.get? dateKey) (some totals))
    sessions := u.sessions.set sessionId {
      totals := addTotals (current.map Session.totals) (some totals)
      updatedAt := max ((current.map Session.updatedAt).getD 0) timestamp } }

variable (py : Python)

def addEntry (u : Usage) (entry : Entry) : Except Raised Usage :=
  match entry with
  | .other => .ok u
  | .mapping fields =>
    match fields.lookup "k" with
    | some (.text key) =>
      if key = "" then .ok u
      else
        match readTime py fields with
        | .error .typeError | .error .valueError => .ok u
        | .error e => .error e
        | .ok timestamp => do
          let totals ← ledgerTotals py fields
          let date ← py.fromtimestamp timestamp
          pure (u.record key (isoformat date) timestamp totals)
    | _ => .ok u

def ledgerUsage (entries : List Entry) : Except Raised Usage := entries.foldlM (addEntry py) {}

end Ledger

section Response

structure DayRow where
  date : String
  rated : Rated
  deriving DecidableEq

structure WeekRow where
  weekStart : String
  weekEnd : String
  rated : Rated
  deriving DecidableEq

structure ThreadRow where
  thread : String
  title : String
  rated : Rated
  updatedAt : Int
  deriving DecidableEq

structure Stats where
  available : Bool
  totals : Rated
  timestamp : Int
  allTime : Rated
  currentWeek : WeekRow
  weeks : List WeekRow
  days : List DayRow
  threads : List ThreadRow
  deriving DecidableEq

def orOverflow (day : Option Date) : Except Raised Date :=
  match day with
  | some day => .ok day
  | none => .error .overflowError

-- `day - timedelta(days=day.weekday())`
def weekStart (day : Date) : Except Raised Date := orOverflow (day.earlier day.weekday)

-- `start + timedelta(days=6)`
def weekEnd (start : Date) : Except Raised Date := orOverflow (start.later 6)

def weekDates (py : Python) (timestamp : Int) : Except Raised (String × String) := do
  let start ← weekStart (← py.fromtimestamp timestamp)
  pure (isoformat start, isoformat (← weekEnd start))

def addDay (grouped : Dict String Totals) (e : String × Totals) : Except Raised (Dict String Totals) :=
  match strptime e.1.toList with
  | none => .ok grouped
  | some day => do
    let start ← weekStart day
    pure (grouped.set (isoformat start) (addTotals (grouped.get? (isoformat start)) (some e.2)))

def weekRow (e : String × Totals) : Except Raised WeekRow :=
  match strptime e.1.toList with
  | none => .error .valueError
  | some start => do
    pure { weekStart := e.1, weekEnd := isoformat (← weekEnd start), rated := withRate e.2 }

-- `sorted(…)` of the keys, each with its value.
def sorted {ν : Type} (d : Dict String ν) : List (String × ν) := d.entries.mergeSort fun a b => decide (a.1 ≤ b.1)

def weeksFromDays (days : Dict String Totals) : Except Raised (List WeekRow) := do
  (sorted (← days.entries.foldlM addDay Dict.empty)).mapM weekRow

-- `title` finds what a session is called; one that it finds nothing for stays hidden.
def sessionRows (title : String → Option String) (sessions : Dict String Session) : List ThreadRow :=
  let rows := sessions.entries.filterMap fun (id, session) => (title id).map fun title =>
    { thread := id, title, rated := withRate session.totals, updatedAt := session.updatedAt : ThreadRow }
  rows.mergeSort fun a b => decide (b.rated.totals.total < a.rated.totals.total ∨
    b.rated.totals.total = a.rated.totals.total ∧ b.updatedAt ≤ a.updatedAt)

variable (py : Python) (title : String → Option String)

def weeklyResponse (available : Bool) (usage : Usage) (timestamp : Int) : Except Raised Stats := do
  let weeks ← weeksFromDays usage.days
  let (currentStart, currentEnd) ← weekDates py timestamp
  pure {
    available, timestamp, weeks
    totals := withRate usage.allTime
    allTime := withRate usage.allTime
    currentWeek := (weeks.find? fun row => row.weekStart = currentStart).getD
      { weekStart := currentStart, weekEnd := currentEnd, rated := withRate (normaliseTotals none) }
    days := (sorted usage.days).map fun (date, totals) => { date, rated := withRate totals }
    threads := sessionRows title usage.sessions }

-- Where GA has no ledger there is `none` of it.
def nativeLedgerUsage (now : Int) (ledger : Option (List Entry)) : Except Raised Stats :=
  match ledger with
  | none => weeklyResponse py title false {} now
  | some entries => do weeklyResponse py title true (← ledgerUsage py entries) now

end Response

end GaHub.Tokens
