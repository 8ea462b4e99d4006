import GaHub.Lib.Paging
import GaHub.Lib.Text
import Mathlib.Algebra.GroupWithZero.Nat

namespace GaHub.Archive

open Lib

-- A text, by its code points.
abbrev Text := List Nat

def text (s : String) : Text := s.toList.map Char.toNat

inductive Role where
  | user
  | assistant
  | other (name : String)
  deriving DecidableEq

-- A message as GA projects it.
structure Message where
  role : Role
  content : Text
  turnSegs : Option (List Text) := none
  deriving DecidableEq

structure Item where
  id : Text
  role : Role
  content : Text
  turnSegs : Option (List Text) := none
  ordinal : Nat
  timestamp : Option Text := none
  deriving DecidableEq

-- What a page is asked for by: a number of items, a number of real turns, or everything.
inductive Mode where
  | limit (limit : Nat)
  | turns (turns : Nat)
  | whole
  deriving DecidableEq

def Mode.Bounded : Mode → Prop
  | .limit n | .turns n => 1 ≤ n
  | .whole => False

instance : (mode : Mode) → Decidable mode.Bounded
  | .limit n => inferInstanceAs (Decidable (1 ≤ n))
  | .turns n => inferInstanceAs (Decidable (1 ≤ n))
  | .whole => isFalse id

-- A code point, where it is one of a character.
def isSpace (c : Nat) : Bool := Lib.isSpace (Char.ofNat c)

def retryInjectedPrefixes : List Text :=
  [text "[ERROR] Incomplete response.", text "继续上一条回复", text "上一条回复因可恢复"]

def turnSnapShrink : Nat := 3
def turnSnapExtend : Nat := 8
def turnDefaultMaxChars : Int := 8000000

-- `_is_real_user_item`
def isRealUserItem (item : Item) : Bool :=
  decide (item.role = .user) && !retryInjectedPrefixes.any (·.isPrefixOf (item.content.dropWhile isSpace))

section Windows

variable (items : List Item)

def charLen (start stop : Nat) : Nat := (((items.take stop).drop start).map fun item => item.content.length).sum

-- The places of the real user items, newest first, as far back as the walk goes.
def turnStarts (stop turns : Nat) : List Nat :=
  ((List.range stop).reverse.filter fun i => items[i]?.any isRealUserItem).take (turns + turnSnapExtend)

def dayOf (i : Nat) : Option Text := ((items[i]?.bind Item.timestamp).filter (· ≠ [])).map (·.take 10)

def dayEdge (stop start : Nat) : Bool :=
  decide (0 < start ∧ start < stop) &&
    match dayOf items (start - 1), dayOf items start with
    | some before, some after => before ≠ after
    | _, _ => false

-- The cuts that are tried for a day border, the exact one first and then outwards, the longer page before the shorter.
def cuts (exact count : Nat) : List Nat :=
  exact :: (List.range turnSnapExtend).flatMap fun delta =>
    (if exact + (delta + 1) ≤ count then [exact + (delta + 1)] else []) ++
      if delta + 1 ≤ turnSnapShrink ∧ 1 ≤ exact - (delta + 1) then [exact - (delta + 1)] else []

def turnWindowStart (stop turns : Nat) (maxChars : Option Int) : Nat :=
  let starts := turnStarts items stop turns
  let exact := min turns starts.length
  let start (k : Nat) := starts.getD (k - 1) 0
  let fits (k : Nat) := decide ((charLen items (start k) stop : Int) ≤ maxChars.getD turnDefaultMaxChars)
  if exact = 0 then 0
  else
    match (cuts exact starts.length).find? fun k => fits k && dayEdge items stop (start k) with
    | some k => start k
    | none =>
        if fits exact then start exact
        else
          -- The oldest turns are dropped until the rest fits; one turn stays.
          match ((List.range (exact - 1)).reverse.map (· + 1)).find? fits with
          | some k => start k
          | none => start 1

-- The loop of the item limit, from `start` down.
def limitStart (stop limit : Nat) (maxChars : Option Int) : Nat → Nat → Nat
  | 0, _ => 0
  | start + 1, selected =>
      let chars := (items[start]?.map fun item => item.content.length).getD 0
      if limit ≤ stop - (start + 1) then start + 1
      else if start + 1 < stop ∧ maxChars.any (fun max => decide (max < ((selected + chars : Nat) : Int))) = true then start + 1
      else limitStart stop limit maxChars start (selected + chars)

-- A page does not open with an answer whose question is right before it.
def pairedStart (start : Nat) : Nat :=
  if 0 < start ∧ items[start]?.map Item.role = some .assistant ∧ items[start - 1]?.map Item.role = some .user then
    start - 1
  else start

-- `_window_items`
def windowItems (before : Option Int) (mode : Mode) (maxChars : Option Int) : Page Item :=
  let stop := bound before items.length
  match mode with
  | .turns turns => slicePage items (pairedStart items (turnWindowStart items stop turns maxChars)) stop
  | .limit limit => slicePage items (pairedStart items (limitStart items stop limit maxChars stop 0)) stop
  | .whole => ⟨items.take stop, false, none⟩

end Windows

-- Where the span begins that the index loads for a page.
def candidateStart (stop : Nat) : Mode → Nat
  | .turns turns => stop - ((turns + turnSnapExtend) * 4 + 4)
  | .limit limit => stop - (limit + 1)
  | .whole => 0

-- The page of the items of a span, each with its ordinal in the whole.
def spanPage (candidates : List Item) (mode : Mode) (maxChars : Option Int) : Page Item :=
  let window := (windowItems candidates none mode maxChars).items
  match window.head? with
  | some first => ⟨window, decide (0 < first.ordinal), if 0 < first.ordinal then some first.ordinal else none⟩
  | none => ⟨window, false, none⟩

end GaHub.Archive
