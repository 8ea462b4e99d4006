import GaHub.Chat
import GaHub.Lib.Lists
import Mathlib.Data.List.Perm.Basic

namespace GaHub.Chat

open Lib

-- The bubbles of one question and its answers. `run` is the run the turn is listed under.
structure Turn where
  run : Option RunId
  messages : List ChatMsg

namespace Turn

variable (turn : Turn)

def push (message : ChatMsg) : Turn := { turn with messages := turn.messages ++ [message] }

-- The start of a turn: its earliest question, or its earliest answer where no question has a time.
def anchor : Option Time :=
  let asked := turn.messages.filterMap fun m =>
    if m.role = .user ∧ m.pendingWebui.join ≠ some true then m.timestamp.join else none
  let answered := turn.messages.filterMap fun m =>
    if m.role = .assistant ∧ m.source.join ≠ some "system" ∧ m.source.join ≠ some "runtime_error_notice" then
      m.startedAt.join
    else none
  asked.min?.or answered.min?

def questionsFirst : List ChatMsg :=
  (turn.messages.filter fun m => decide (m.role = .user)) ++ turn.messages.filter fun m => decide (m.role ≠ .user)

end Turn

-- The turns so far, and whether the last one waits for answers without a run.
structure Grouping where
  turns : List Turn := []
  legacy : Bool := false

namespace Grouping

variable (g : Grouping)

def joins (message : ChatMsg) : Bool :=
  decide (message.role = .assistant ∧ message.run = none ∧ message.source.join ≠ some "system" ∧
    message.source.join ≠ some "runtime_error_notice") && g.legacy &&
  (decide (message.source.join = some "history") ||
    decide (message.streamId.join ≠ none ∧
      ((g.turns.getLast?.bind fun turn => turn.messages.head?).bind fun m => m.streamId.join) = message.streamId.join))

def add (message : ChatMsg) : Grouping :=
  match if message.pendingWebui.join = some true then none else message.run with
  | some run =>
      match g.turns.findIdx? fun turn => decide (turn.run = some run) with
      | some index => { turns := g.turns.modify index fun turn => turn.push message, legacy := false }
      | none => { turns := g.turns ++ [⟨some run, [message]⟩], legacy := false }
  | none =>
      if g.joins message then
        { g with turns := g.turns.modify (g.turns.length - 1) fun turn => turn.push message }
      else
        { turns := g.turns ++ [⟨none, [message]⟩]
          legacy := decide (message.role = .user ∧ message.run = none ∧ message.pendingWebui.join ≠ some true) }

end Grouping

def conversationTurns (messages : List ChatMsg) : List Turn := (messages.foldl Grouping.add {}).turns

-- The turns with a time fill the places of such turns in order; the others stay where they are.
def placeDated : List Turn → List Turn → List Turn
  | [], _ => []
  | turn :: turns, dated =>
      match turn.anchor, dated with
      | some _, first :: rest => first :: placeDated turns rest
      | _, dated => turn :: placeDated turns dated

def sortTurns (turns : List Turn) : List Turn :=
  placeDated turns ((turns.filter fun turn => turn.anchor.isSome).insertionSort
    fun x y => x.anchor.getD 0 ≤ y.anchor.getD 0)

def orderConversationTurns (messages : List ChatMsg) : List ChatMsg :=
  (sortTurns (conversationTurns messages)).flatMap Turn.questionsFirst

section Permutation

variable {g : Grouping} {message : ChatMsg}

theorem questionsFirst_perm (turn : Turn) : turn.questionsFirst.Perm turn.messages := by
  have h := List.filter_append_perm (fun m : ChatMsg => decide (m.role = .user)) turn.messages
  simpa [Turn.questionsFirst] using h

theorem flatMap_modify_push {turns : List Turn} {i : Nat} (hi : i < turns.length) (message : ChatMsg) :
    ((turns.modify i fun turn => turn.push message).flatMap Turn.messages).Perm
      (turns.flatMap Turn.messages ++ [message]) := by
  induction turns generalizing i with
  | nil => simp at hi
  | cons turn turns ih =>
      cases i with
      | zero =>
          simp only [List.modify_zero_cons, List.flatMap_cons, Turn.push, List.append_assoc]
          exact List.Perm.append_left _ List.perm_append_comm
      | succ i =>
          simp only [List.modify_succ_cons, List.flatMap_cons, List.append_assoc]
          exact (ih (by simpa using hi)).append_left _

def Grouping.Open (g : Grouping) : Prop := g.legacy = true → g.turns ≠ []

theorem add_open (h : g.Open) (message : ChatMsg) : (g.add message).Open := by
  unfold Grouping.add
  split
  · split <;> simp [Grouping.Open]
  · split
    · intro hlegacy hnil
      exact h hlegacy (List.modify_eq_nil_iff.mp hnil)
    · simp [Grouping.Open]

theorem add_perm (h : g.Open) (message : ChatMsg) :
    ((g.add message).turns.flatMap Turn.messages).Perm (g.turns.flatMap Turn.messages ++ [message]) := by
  unfold Grouping.add
  split
  · split
    · rename_i index hindex
      obtain ⟨front, _, back, hturns, hlength, _⟩ := exists_of_findIdx? hindex
      refine flatMap_modify_push ?_ message
      rw [hturns]
      simp [← hlength]
    · simp
  · split
    · rename_i hjoins
      simp only [Grouping.joins, Bool.and_eq_true] at hjoins
      have hsome := List.length_pos_iff.mpr (h hjoins.1.2)
      exact flatMap_modify_push (by omega) message
    · simp

theorem foldl_add_perm (messages : List ChatMsg) (h : g.Open) :
    ((messages.foldl Grouping.add g).turns.flatMap Turn.messages).Perm (g.turns.flatMap Turn.messages ++ messages) := by
  induction messages generalizing g with
  | nil => simp
  | cons message messages ih =>
      refine (ih (add_open h message)).trans ?_
      have hone := (add_perm h message).append_right messages
      simpa using hone

theorem placeDated_perm (turns dated : List Turn)
    (hlength : dated.length = (turns.filter fun turn => turn.anchor.isSome).length) :
    (placeDated turns dated).Perm ((turns.filter fun turn => !turn.anchor.isSome) ++ dated) := by
  induction turns generalizing dated with
  | nil =>
      cases List.length_eq_zero_iff.mp hlength
      exact List.Perm.refl _
  | cons turn turns ih =>
      cases hanchor : turn.anchor with
      | none =>
          simp only [placeDated, hanchor, List.filter_cons, Option.isSome_none, Bool.not_false, if_true,
            List.cons_append]
          simp only [List.filter_cons, hanchor, Option.isSome_none, Bool.false_eq_true, if_false] at hlength
          exact (ih dated hlength).cons turn
      | some time =>
          simp only [List.filter_cons, hanchor, Option.isSome_some, if_true, List.length_cons] at hlength
          cases dated with
          | nil => simp at hlength
          | cons first rest =>
              simp only [placeDated, hanchor, List.filter_cons, Option.isSome_some, Bool.not_true, Bool.false_eq_true,
                if_false]
              have hrest := (ih rest (by simpa using hlength)).cons first
              exact hrest.trans List.perm_middle.symm

theorem sortTurns_perm (turns : List Turn) : (sortTurns turns).Perm turns := by
  have hsorted := List.perm_insertionSort (fun x y : Turn => x.anchor.getD 0 ≤ y.anchor.getD 0)
    (turns.filter fun turn => turn.anchor.isSome)
  refine (placeDated_perm turns _ hsorted.length_eq).trans ?_
  refine (hsorted.append_left _).trans ?_
  refine List.perm_append_comm.trans ?_
  exact List.filter_append_perm (fun turn : Turn => turn.anchor.isSome) turns

theorem orderConversationTurns_perm (messages : List ChatMsg) : (orderConversationTurns messages).Perm messages := by
  have hfirst : (orderConversationTurns messages).Perm
      ((sortTurns (conversationTurns messages)).flatMap Turn.messages) :=
    List.Perm.flatMap_left _ fun turn _ => questionsFirst_perm turn
  have hturns := (sortTurns_perm (conversationTurns messages)).flatMap_right Turn.messages
  have hopen : ({} : Grouping).Open := fun h => (by cases h)
  have hgrouped := foldl_add_perm messages hopen
  exact (hfirst.trans hturns).trans hgrouped

end Permutation

end GaHub.Chat
