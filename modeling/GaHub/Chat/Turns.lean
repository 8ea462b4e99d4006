import GaHub.Chat.Order
import GaHub.Lib.Sorted

namespace GaHub.Chat

open Lib

def ChatMsg.listed (m : ChatMsg) : Option RunId := if m.pendingWebui.join = some true then none else m.run

def ChatMsg.Asks (m : ChatMsg) : Prop := m.role = .user ∧ m.run = none ∧ m.pendingWebui.join ≠ some true

instance (m : ChatMsg) : Decidable m.Asks := inferInstanceAs (Decidable (_ ∧ _))

def ChatMsg.Answers (question m : ChatMsg) : Prop :=
  (m.role = .assistant ∧ m.run = none ∧ m.source.join ≠ some "system" ∧ m.source.join ≠ some "runtime_error_notice") ∧
  (m.source.join = some "history" ∨ m.streamId.join ≠ none ∧ question.streamId.join = m.streamId.join)

-- A bubble that is shown where it stands: a question that was not sent yet, or a notice outside any run.
def ChatMsg.Bubble (m : ChatMsg) : Prop :=
  m.role = .user ∧ m.pendingWebui.join = some true ∨
  m.listed = none ∧ (m.role = .system ∨ m.role = .assistant ∧
    (m.source.join = some "system" ∨ m.source.join = some "runtime_error_notice"))

inductive Shaped : Turn → Prop where
  | run {r : RunId} {messages : List ChatMsg} (hne : messages ≠ []) (hrun : ∀ m ∈ messages, m.listed = some r) :
      Shaped ⟨some r, messages⟩
  | asked {question : ChatMsg} {answers : List ChatMsg} (hasks : question.Asks)
      (hanswers : ∀ m ∈ answers, question.Answers m) : Shaped ⟨none, question :: answers⟩
  | alone {m : ChatMsg} (hlisted : m.listed = none) (hasks : ¬m.Asks) : Shaped ⟨none, [m]⟩

theorem ChatMsg.Asks.listed {m : ChatMsg} (h : m.Asks) : m.listed = none := by
  rw [ChatMsg.listed, if_neg h.2.2, h.2.1]

theorem ChatMsg.Answers.listed {question m : ChatMsg} (h : question.Answers m) : m.listed = none := by
  rw [ChatMsg.listed, h.1.2.1, ite_self]

theorem ChatMsg.Bubble.alone {m : ChatMsg} (h : m.Bubble) :
    m.listed = none ∧ ¬m.Asks ∧ ∀ question : ChatMsg, ¬question.Answers m := by
  rcases h with ⟨hrole, hpending⟩ | ⟨hlisted, hnotice⟩
  · refine ⟨by rw [ChatMsg.listed, if_pos hpending], fun hasks => hasks.2.2 hpending, fun question hanswers => ?_⟩
    have hassistant := hanswers.1.1
    rw [hrole] at hassistant
    cases hassistant
  · refine ⟨hlisted, fun hasks => ?_, fun question hanswers => ?_⟩
    · rcases hnotice with hsystem | ⟨hassistant, -⟩
      · cases hsystem.symm.trans hasks.1
      · cases hassistant.symm.trans hasks.1
    · rcases hnotice with hsystem | ⟨-, hsource | hsource⟩
      · cases hsystem.symm.trans hanswers.1.1
      · exact hanswers.1.2.2.1 hsource
      · exact hanswers.1.2.2.2 hsource

namespace Grouping

variable {g : Grouping} {m : ChatMsg}

-- A turn that waits for answers is the last one, and begins with its question.
def Waits (g : Grouping) : Prop :=
  g.legacy = true → ∃ front question answers, g.turns = front ++ [⟨none, question :: answers⟩] ∧ question.Asks ∧
    ∀ m ∈ answers, question.Answers m

theorem add_listed {r : RunId} (hr : m.listed = some r) :
    g.add m = match g.turns.findIdx? fun turn => decide (turn.run = some r) with
      | some index => { turns := g.turns.modify index fun turn => turn.push m, legacy := false }
      | none => { turns := g.turns ++ [⟨some r, [m]⟩], legacy := false } := by
  unfold add
  rw [← ChatMsg.listed, hr] <;> rfl

theorem add_run {r : RunId} (hr : m.listed = some r) {front back : List Turn} {messages : List ChatMsg}
    (hturns : g.turns = front ++ ⟨some r, messages⟩ :: back) (hfront : ∀ turn ∈ front, turn.run ≠ some r) :
    g.add m = { turns := front ++ ⟨some r, messages ++ [m]⟩ :: back, legacy := false } := by
  have hindex : g.turns.findIdx? (fun turn => decide (turn.run = some r)) = some front.length := by
    rw [hturns]
    exact findIdx?_split (fun turn h => decide_eq_false (hfront turn h)) (decide_eq_true rfl) back
  rw [add_listed hr, hindex, hturns]
  simp only [modify_length, Turn.push]

theorem add_new_run {r : RunId} (hr : m.listed = some r) (hnone : ∀ turn ∈ g.turns, turn.run ≠ some r) :
    g.add m = { turns := g.turns ++ [⟨some r, [m]⟩], legacy := false } := by
  rw [add_listed hr, List.findIdx?_eq_none_iff.mpr fun turn h => decide_eq_false (hnone turn h)]

theorem joins_iff {front : List Turn} {question : ChatMsg} {answers : List ChatMsg}
    (hturns : g.turns = front ++ [⟨none, question :: answers⟩]) :
    g.joins m = true ↔ g.legacy = true ∧ question.Answers m := by
  simp only [joins, hturns, List.getLast?_concat, Option.bind_some, List.head?_cons, Bool.and_eq_true, Bool.or_eq_true,
    decide_eq_true_eq, ChatMsg.Answers]
  tauto

theorem add_answer {front : List Turn} {question : ChatMsg} {answers : List ChatMsg}
    (hturns : g.turns = front ++ [⟨none, question :: answers⟩]) (hlegacy : g.legacy = true) (h : question.Answers m) :
    g.add m = { turns := front ++ [⟨none, question :: answers ++ [m]⟩], legacy := true } := by
  unfold add
  rw [← ChatMsg.listed, h.listed, if_pos ((joins_iff hturns).mpr ⟨hlegacy, h⟩), hturns, hlegacy,
    List.length_append, List.length_singleton, Nat.add_sub_cancel, modify_length]
  rfl

theorem add_alone (hr : m.listed = none) (hjoins : ¬g.joins m = true) :
    g.add m = { turns := g.turns ++ [⟨none, [m]⟩], legacy := decide m.Asks } := by
  unfold add
  rw [← ChatMsg.listed, hr, if_neg hjoins]
  rfl

theorem add_cases (hwaits : g.Waits) (m : ChatMsg) :
    (∃ r front messages back, m.listed = some r ∧ g.turns = front ++ ⟨some r, messages⟩ :: back ∧
      g.add m = { turns := front ++ ⟨some r, messages ++ [m]⟩ :: back, legacy := false }) ∨
    (∃ r, m.listed = some r ∧ (∀ turn ∈ g.turns, turn.run ≠ some r) ∧
      g.add m = { turns := g.turns ++ [⟨some r, [m]⟩], legacy := false }) ∨
    (∃ front question answers, g.turns = front ++ [⟨none, question :: answers⟩] ∧ question.Asks ∧
      (∀ a ∈ answers, question.Answers a) ∧ question.Answers m ∧
      g.add m = { turns := front ++ [⟨none, question :: answers ++ [m]⟩], legacy := true }) ∨
    (m.listed = none ∧ g.add m = { turns := g.turns ++ [⟨none, [m]⟩], legacy := decide m.Asks }) := by
  cases hr : m.listed with
  | some r =>
      by_cases hin : ∃ turn ∈ g.turns, turn.run = some r
      · obtain ⟨i, hi⟩ : ∃ i, g.turns.findIdx? (fun turn => decide (turn.run = some r)) = some i := by
          refine Option.isSome_iff_exists.mp (List.findIdx?_isSome.trans (List.any_eq_true.mpr ?_))
          obtain ⟨turn, hturn, hrun⟩ := hin
          exact ⟨turn, hturn, decide_eq_true hrun⟩
        obtain ⟨front, turn, back, hturns, -, hrun, hfront, -⟩ := exists_of_findIdx? hi
        obtain ⟨run, messages⟩ := turn
        obtain rfl : run = some r := of_decide_eq_true hrun
        exact Or.inl ⟨r, front, messages, back, rfl, hturns,
          add_run hr hturns fun turn h => of_decide_eq_false (hfront turn h)⟩
      · have hnone : ∀ turn ∈ g.turns, turn.run ≠ some r := fun turn h hrun => hin ⟨turn, h, hrun⟩
        exact Or.inr (Or.inl ⟨r, rfl, hnone, add_new_run hr hnone⟩)
  | none =>
      by_cases hjoins : g.joins m = true
      · have hlegacy : g.legacy = true := by
          simp only [joins, Bool.and_eq_true] at hjoins
          exact hjoins.1.2
        obtain ⟨front, question, answers, hturns, hasks, hanswers⟩ := hwaits hlegacy
        have hm := ((joins_iff hturns).mp hjoins).2
        exact Or.inr (Or.inr (Or.inl ⟨front, question, answers, hturns, hasks, hanswers, hm,
          add_answer hturns hlegacy hm⟩))
      · exact Or.inr (Or.inr (Or.inr ⟨rfl, add_alone hr hjoins⟩))

end Grouping

structure Grouped (g : Grouping) (messages : List ChatMsg) : Prop where
  shaped : ∀ turn ∈ g.turns, Shaped turn
  runs : (g.turns.filterMap Turn.run).Nodup
  collected : ∀ turn ∈ g.turns, ∀ r, turn.run = some r →
    turn.messages = messages.filter fun m => decide (m.listed = some r)
  known : ∀ m ∈ messages, ∀ r, m.listed = some r → some r ∈ g.turns.map Turn.run
  bubbles : ∀ m ∈ messages, m.Bubble → ⟨none, [m]⟩ ∈ g.turns
  waits : g.Waits

theorem grouped_start : Grouped {} [] where
  shaped _ h := by cases h
  runs := List.nodup_nil
  collected _ h := by cases h
  known _ h := by cases h
  bubbles _ h := by cases h
  waits h := by cases h

theorem filter_concat_other {messages : List ChatMsg} {m : ChatMsg} {r : RunId} (h : m.listed ≠ some r) :
    (messages ++ [m]).filter (fun m => decide (m.listed = some r)) = messages.filter fun m => decide (m.listed = some r) := by
  rw [List.filter_append, List.filter_cons_of_neg (by simpa using h), List.filter_nil, List.append_nil]

theorem filter_concat_same {messages : List ChatMsg} {m : ChatMsg} {r : RunId} (h : m.listed = some r) :
    (messages ++ [m]).filter (fun m => decide (m.listed = some r)) =
      messages.filter (fun m => decide (m.listed = some r)) ++ [m] := by
  rw [List.filter_append, List.filter_cons_of_pos (by simpa using h), List.filter_nil]

section Step

variable {g : Grouping} {messages front back : List Turn} {seen collected : List ChatMsg} {m question : ChatMsg} {r : RunId}

theorem Grouped.grow_run (h : Grouped g seen) (hr : m.listed = some r)
    (hturns : g.turns = front ++ ⟨some r, collected⟩ :: back) :
    Grouped { turns := front ++ ⟨some r, collected ++ [m]⟩ :: back, legacy := false } (seen ++ [m]) where
  shaped turn hturn := by
    have hold := h.shaped
    rw [hturns] at hold
    rcases List.mem_append.mp hturn with hfront | hrest
    · exact hold turn (List.mem_append_left _ hfront)
    · rcases List.mem_cons.mp hrest with rfl | hback
      · cases hold ⟨some r, collected⟩ (by simp) with
        | run hne hrun =>
            refine Shaped.run (by simp) fun x hx => ?_
            rcases List.mem_append.mp hx with hx | hx
            · exact hrun x hx
            · rw [List.mem_singleton.mp hx, hr]
      · exact hold turn (List.mem_append_right _ (List.mem_cons_of_mem _ hback))
  runs := by
    have hruns := h.runs
    rw [hturns] at hruns
    simpa [List.filterMap_append, List.filterMap_cons] using hruns
  collected turn hturn q hq := by
    have hruns := h.runs
    have hold := h.collected
    rw [hturns] at hruns hold
    simp only [List.filterMap_append, List.filterMap_cons, List.nodup_append, List.nodup_cons] at hruns
    obtain ⟨-, ⟨hback', -⟩, hfront'⟩ := hruns
    rcases List.mem_append.mp hturn with hfront | hrest
    · have hne : m.listed ≠ some q := by
        rintro heq
        rw [hr] at heq
        exact hfront' q (List.mem_filterMap.mpr ⟨turn, hfront, hq⟩) r List.mem_cons_self (Option.some.inj heq).symm
      rw [filter_concat_other hne]
      exact hold turn (List.mem_append_left _ hfront) q hq
    · rcases List.mem_cons.mp hrest with rfl | hback
      · obtain rfl := Option.some.inj hq
        rw [filter_concat_same hr, ← hold ⟨some r, collected⟩ (by simp) r rfl]
      · have hne : m.listed ≠ some q := by
          rintro heq
          rw [hr] at heq
          rw [Option.some.inj heq] at hback'
          exact hback' (List.mem_filterMap.mpr ⟨turn, hback, hq⟩)
        rw [filter_concat_other hne]
        exact hold turn (List.mem_append_right _ (List.mem_cons_of_mem _ hback)) q hq
  known x hx q hq := by
    have hknown := h.known
    rw [hturns] at hknown
    rcases List.mem_append.mp hx with hold | hnew
    · simpa using hknown x hold q hq
    · rw [List.mem_singleton.mp hnew, hr] at hq
      simp [hq]
  bubbles x hx hbubble := by
    rcases List.mem_append.mp hx with hold | hnew
    · have hturn := h.bubbles x hold hbubble
      rw [hturns] at hturn
      simpa using hturn
    · rw [List.mem_singleton.mp hnew] at hbubble
      have hnone := hbubble.alone.1
      rw [hr] at hnone
      cases hnone
  waits hlegacy := by cases hlegacy

theorem Grouped.open_run (h : Grouped g seen) (hr : m.listed = some r) (hnone : ∀ turn ∈ g.turns, turn.run ≠ some r) :
    Grouped { turns := g.turns ++ [⟨some r, [m]⟩], legacy := false } (seen ++ [m]) where
  shaped turn hturn := by
    rcases List.mem_append.mp hturn with hold | hnew
    · exact h.shaped turn hold
    · rw [List.mem_singleton.mp hnew]
      exact Shaped.run (by simp) fun x hx => by rw [List.mem_singleton.mp hx, hr]
  runs := by
    rw [List.filterMap_append]
    refine List.nodup_append.mpr ⟨h.runs, by simp, fun q hq p hp => ?_⟩
    obtain ⟨turn, hturn, hrun⟩ := List.mem_filterMap.mp hq
    have hpr : p = r := by simpa using hp
    rintro rfl
    exact hnone turn hturn (hpr ▸ hrun)
  collected turn hturn q hq := by
    rcases List.mem_append.mp hturn with hold | hnew
    · have hne : m.listed ≠ some q := fun heq => hnone turn hold (by rw [hq, ← heq, hr])
      rw [filter_concat_other hne]
      exact h.collected turn hold q hq
    · rw [List.mem_singleton.mp hnew] at hq ⊢
      obtain rfl := Option.some.inj hq
      have hempty : seen.filter (fun m => decide (m.listed = some r)) = [] := by
        refine List.filter_eq_nil_iff.mpr fun x hx hxr => ?_
        obtain ⟨turn, hturn, hrun⟩ := List.mem_map.mp (h.known x hx r (of_decide_eq_true hxr))
        exact hnone turn hturn hrun
      rw [filter_concat_same hr, hempty, List.nil_append]
  known x hx q hq := by
    rw [List.map_append]
    rcases List.mem_append.mp hx with hold | hnew
    · exact List.mem_append_left _ (h.known x hold q hq)
    · rw [List.mem_singleton.mp hnew, hr] at hq
      exact List.mem_append_right _ (by simp [hq])
  bubbles x hx hbubble := by
    rcases List.mem_append.mp hx with hold | hnew
    · exact List.mem_append_left _ (h.bubbles x hold hbubble)
    · rw [List.mem_singleton.mp hnew] at hbubble
      have hnone := hbubble.alone.1
      rw [hr] at hnone
      cases hnone
  waits hlegacy := by cases hlegacy

theorem Grouped.grow_waiting (h : Grouped g seen) (hturns : g.turns = front ++ [⟨none, question :: collected⟩])
    (hasks : question.Asks) (hcollected : ∀ a ∈ collected, question.Answers a) (hm : question.Answers m) :
    Grouped { turns := front ++ [⟨none, question :: collected ++ [m]⟩], legacy := true } (seen ++ [m]) where
  shaped turn hturn := by
    have hold := h.shaped
    rw [hturns] at hold
    rcases List.mem_append.mp hturn with hfront | hlast
    · exact hold turn (List.mem_append_left _ hfront)
    · rw [List.mem_singleton.mp hlast]
      refine Shaped.asked hasks fun a ha => ?_
      rcases List.mem_append.mp ha with ha | ha
      · exact hcollected a ha
      · rw [List.mem_singleton.mp ha]
        exact hm
  runs := by
    have hruns := h.runs
    rw [hturns] at hruns
    simpa [List.filterMap_append] using hruns
  collected turn hturn q hq := by
    have hold := h.collected
    rw [hturns] at hold
    have hne : m.listed ≠ some q := by
      rw [hm.listed]
      exact Option.some_ne_none q ∘ Eq.symm
    rw [filter_concat_other hne]
    rcases List.mem_append.mp hturn with hfront | hlast
    · exact hold turn (List.mem_append_left _ hfront) q hq
    · rw [List.mem_singleton.mp hlast] at hq
      cases hq
  known x hx q hq := by
    have hknown := h.known
    rw [hturns] at hknown
    rcases List.mem_append.mp hx with hold | hnew
    · simpa using hknown x hold q hq
    · rw [List.mem_singleton.mp hnew, hm.listed] at hq
      cases hq
  bubbles x hx hbubble := by
    rcases List.mem_append.mp hx with hold | hnew
    · have hturn := h.bubbles x hold hbubble
      rw [hturns] at hturn
      rcases List.mem_append.mp hturn with hfront | hlast
      · exact List.mem_append_left _ hfront
      · have hsame := List.mem_singleton.mp hlast
        simp only [Turn.mk.injEq, List.cons.injEq, true_and] at hsame
        rw [hsame.1] at hbubble
        exact absurd hasks hbubble.alone.2.1
    · rw [List.mem_singleton.mp hnew] at hbubble
      exact absurd hm (hbubble.alone.2.2 question)
  waits _ := by
    refine ⟨front, question, collected ++ [m], rfl, hasks, fun a ha => ?_⟩
    rcases List.mem_append.mp ha with ha | ha
    · exact hcollected a ha
    · rw [List.mem_singleton.mp ha]
      exact hm

theorem Grouped.open_alone (h : Grouped g seen) (hr : m.listed = none) :
    Grouped { turns := g.turns ++ [⟨none, [m]⟩], legacy := decide m.Asks } (seen ++ [m]) where
  shaped turn hturn := by
    rcases List.mem_append.mp hturn with hold | hnew
    · exact h.shaped turn hold
    · rw [List.mem_singleton.mp hnew]
      by_cases hasks : m.Asks
      · exact Shaped.asked hasks (by simp)
      · exact Shaped.alone hr hasks
  runs := by
    rw [List.filterMap_append]
    simpa using h.runs
  collected turn hturn q hq := by
    have hne : m.listed ≠ some q := by
      rw [hr]
      exact Option.some_ne_none q ∘ Eq.symm
    rw [filter_concat_other hne]
    rcases List.mem_append.mp hturn with hold | hnew
    · exact h.collected turn hold q hq
    · rw [List.mem_singleton.mp hnew] at hq
      cases hq
  known x hx q hq := by
    rw [List.map_append]
    rcases List.mem_append.mp hx with hold | hnew
    · exact List.mem_append_left _ (h.known x hold q hq)
    · rw [List.mem_singleton.mp hnew, hr] at hq
      cases hq
  bubbles x hx hbubble := by
    rcases List.mem_append.mp hx with hold | hnew
    · exact List.mem_append_left _ (h.bubbles x hold hbubble)
    · exact List.mem_append_right _ (by rw [List.mem_singleton.mp hnew]; simp)
  waits hlegacy := ⟨g.turns, m, [], rfl, of_decide_eq_true hlegacy, by simp⟩

theorem add_grouped (h : Grouped g seen) (m : ChatMsg) : Grouped (g.add m) (seen ++ [m]) := by
  rcases Grouping.add_cases h.waits m with ⟨r, front, collected, back, hr, hturns, hadd⟩ | ⟨r, hr, hnone, hadd⟩ |
    ⟨front, question, collected, hturns, hasks, hcollected, hm, hadd⟩ | ⟨hr, hadd⟩
  · exact hadd ▸ h.grow_run hr hturns
  · exact hadd ▸ h.open_run hr hnone
  · exact hadd ▸ h.grow_waiting hturns hasks hcollected hm
  · exact hadd ▸ h.open_alone hr

theorem foldl_grouped (h : Grouped g seen) (messages : List ChatMsg) :
    Grouped (messages.foldl Grouping.add g) (seen ++ messages) := by
  induction messages generalizing g seen with
  | nil => simpa using h
  | cons m messages ih =>
      have hrest := ih (add_grouped h m)
      rwa [List.append_assoc, List.singleton_append] at hrest

end Step

theorem conversationTurns_grouped (messages : List ChatMsg) : Grouped (messages.foldl Grouping.add {}) messages :=
  foldl_grouped grouped_start messages

section Dated

variable {turns dated : List Turn}

-- By the time of the turns; the sort only sees turns with a time.
def Earlier (x y : Turn) : Prop := x.anchor.getD 0 ≤ y.anchor.getD 0

instance : DecidableRel Earlier := fun x y => inferInstanceAs (Decidable (x.anchor.getD 0 ≤ y.anchor.getD 0))

instance : IsTrans Turn Earlier := ⟨fun _ _ _ hxy hyz => Int.le_trans hxy hyz⟩

instance : Std.Total Earlier := ⟨fun x y => Int.le_total (x.anchor.getD 0) (y.anchor.getD 0)⟩

def datedTurns (turns : List Turn) : List Turn := (turns.filter fun turn => turn.anchor.isSome).insertionSort Earlier

theorem sortTurns_eq (turns : List Turn) : sortTurns turns = placeDated turns (datedTurns turns) := rfl

theorem datedTurns_isSome {turn : Turn} (h : turn ∈ datedTurns turns) : turn.anchor.isSome = true :=
  (List.mem_filter.mp ((List.mem_insertionSort Earlier).mp h)).2

theorem datedTurns_length (turns : List Turn) :
    (datedTurns turns).length = (turns.filter fun turn => turn.anchor.isSome).length :=
  (List.perm_insertionSort Earlier _).length_eq

theorem placeDated_spec (hlength : dated.length = (turns.filter fun turn => turn.anchor.isSome).length)
    (hdated : ∀ turn ∈ dated, turn.anchor.isSome = true) :
    (placeDated turns dated).filter (fun turn => turn.anchor.isSome) = dated ∧
      (placeDated turns dated).length = turns.length ∧
      ∀ (i : Nat) (turn : Turn), turns[i]? = some turn → turn.anchor = none → (placeDated turns dated)[i]? = some turn := by
  induction turns generalizing dated with
  | nil =>
      obtain rfl := List.length_eq_zero_iff.mp hlength
      exact ⟨rfl, rfl, fun i turn h => by simp at h⟩
  | cons first turns ih =>
      cases hanchor : first.anchor with
      | none =>
          rw [List.filter_cons_of_neg (by simp [hanchor])] at hlength
          obtain ⟨hfilter, hlen, hkeep⟩ := ih hlength hdated
          simp only [placeDated, hanchor]
          refine ⟨?_, by rw [List.length_cons, hlen, List.length_cons], fun i turn hi hnone => ?_⟩
          · rw [List.filter_cons_of_neg (by simp [hanchor]), hfilter]
          · cases i with
            | zero => exact hi
            | succ i => exact hkeep i turn hi hnone
      | some time =>
          rw [List.filter_cons_of_pos (by simp [hanchor]), List.length_cons] at hlength
          cases dated with
          | nil => cases hlength
          | cons head dated =>
              obtain ⟨hfilter, hlen, hkeep⟩ := ih (Nat.succ.inj hlength) fun turn h => hdated turn (List.mem_cons_of_mem _ h)
              simp only [placeDated, hanchor]
              refine ⟨?_, by rw [List.length_cons, hlen, List.length_cons], fun i turn hi hnone => ?_⟩
              · have hhead := hdated head List.mem_cons_self
                rw [List.filter_cons, if_pos hhead, hfilter]
              · cases i with
                | zero =>
                    cases hi
                    rw [hanchor] at hnone
                    cases hnone
                | succ i => exact hkeep i turn hi hnone

theorem placeDated_self (turns : List Turn) : placeDated turns (turns.filter fun turn => turn.anchor.isSome) = turns := by
  induction turns with
  | nil => rfl
  | cons turn turns ih =>
      cases hanchor : turn.anchor with
      | none =>
          rw [List.filter_cons_of_neg (by simp [hanchor])]
          simp only [placeDated, hanchor, ih]
      | some time =>
          rw [List.filter_cons_of_pos (by simp [hanchor])]
          simp only [placeDated, hanchor, ih]

theorem filterMap_anchor (turns : List Turn) :
    turns.filterMap Turn.anchor = (turns.filter fun turn => turn.anchor.isSome).map fun turn => turn.anchor.getD 0 := by
  induction turns with
  | nil => rfl
  | cons turn turns ih =>
      cases hanchor : turn.anchor with
      | none => rw [List.filterMap_cons_none hanchor, List.filter_cons_of_neg (by simp [hanchor]), ih]
      | some time =>
          rw [List.filterMap_cons_some hanchor, List.filter_cons_of_pos (by simp [hanchor]), List.map_cons, ih, hanchor]
          rfl

theorem filter_dated (turns : List Turn) (time : Time) : turns.filter (fun turn => decide (turn.anchor = some time)) =
    (turns.filter fun turn => turn.anchor.isSome).filter fun turn => decide (turn.anchor = some time) := by
  rw [List.filter_filter]
  refine List.filter_congr fun turn _ => ?_
  cases hanchor : turn.anchor with
  | none => simp
  | some t => simp

theorem sortTurns_dated (turns : List Turn) :
    (sortTurns turns).filter (fun turn => turn.anchor.isSome) = datedTurns turns :=
  (placeDated_spec (datedTurns_length turns) fun _ h => datedTurns_isSome h).1

theorem sortTurns_keeps {i : Nat} {turn : Turn} (hi : turns[i]? = some turn) (hnone : turn.anchor = none) :
    (sortTurns turns)[i]? = some turn :=
  (placeDated_spec (datedTurns_length turns) fun _ h => datedTurns_isSome h).2.2 i turn hi hnone

theorem sortTurns_sorted (turns : List Turn) : ((sortTurns turns).filterMap Turn.anchor).Pairwise (· ≤ ·) := by
  rw [filterMap_anchor, sortTurns_dated]
  exact List.pairwise_map.mpr (List.pairwise_insertionSort Earlier _)

theorem sortTurns_stable (turns : List Turn) (time : Time) :
    (sortTurns turns).filter (fun turn => decide (turn.anchor = some time)) =
      turns.filter fun turn => decide (turn.anchor = some time) := by
  rw [filter_dated, sortTurns_dated, datedTurns, filter_insertionSort, ← filter_dated]
  refine List.Pairwise.insertionSort_eq (List.pairwise_of_forall_mem_list fun x hx y hy => ?_)
  have hxt : x.anchor = some time := of_decide_eq_true (List.mem_filter.mp hx).2
  have hyt : y.anchor = some time := of_decide_eq_true (List.mem_filter.mp hy).2
  rw [Earlier, hxt, hyt]

theorem sortTurns_of_sorted (h : (turns.filterMap Turn.anchor).Pairwise (· ≤ ·)) : sortTurns turns = turns := by
  rw [filterMap_anchor, List.pairwise_map] at h
  have hdated : datedTurns turns = turns.filter fun turn => turn.anchor.isSome := List.Pairwise.insertionSort_eq h
  rw [sortTurns_eq, hdated, placeDated_self]

end Dated

theorem Shaped.other_run {turn : Turn} (h : Shaped turn) {r : RunId} (hr : turn.run ≠ some r) :
    ∀ m ∈ turn.messages, m.listed ≠ some r := by
  intro m hm
  cases h with
  | run hne hrun =>
      rw [hrun m hm]
      exact hr
  | asked hasks hanswers =>
      rcases List.mem_cons.mp hm with rfl | hin
      · simp [hasks.listed]
      · simp [(hanswers m hin).listed]
  | alone hlisted hasks => simp [List.mem_singleton.mp hm, hlisted]

theorem mem_questionsFirst {turn : Turn} {m : ChatMsg} : m ∈ turn.questionsFirst ↔ m ∈ turn.messages :=
  (questionsFirst_perm turn).mem_iff

theorem sortTurns_shaped (messages : List ChatMsg) :
    (∀ turn ∈ sortTurns (conversationTurns messages), Shaped turn) ∧
      ((sortTurns (conversationTurns messages)).filterMap Turn.run).Nodup := by
  have hgrouped := conversationTurns_grouped messages
  have hperm := sortTurns_perm (conversationTurns messages)
  exact ⟨fun turn h => hgrouped.shaped turn (hperm.mem_iff.mp h), (hperm.filterMap Turn.run).nodup_iff.mpr hgrouped.runs⟩

theorem run_contiguous (messages : List ChatMsg) (r : RunId) :
    ∃ front back, orderConversationTurns messages =
      front ++ (messages.filter (fun m => decide (m.listed = some r ∧ m.role = .user)) ++
        messages.filter fun m => decide (m.listed = some r ∧ m.role ≠ .user)) ++ back ∧
      ∀ m ∈ front ++ back, m.listed ≠ some r := by
  have hgrouped := conversationTurns_grouped messages
  have hperm := sortTurns_perm (conversationTurns messages)
  obtain ⟨hshaped, hruns⟩ := sortTurns_shaped messages
  have hpart : ∀ turns : List Turn, (∀ turn ∈ turns, Shaped turn ∧ turn.run ≠ some r) →
      ∀ m ∈ turns.flatMap Turn.questionsFirst, m.listed ≠ some r := by
    intro turns hturns m hm
    obtain ⟨turn, hturn, hin⟩ := List.mem_flatMap.mp hm
    exact (hturns turn hturn).1.other_run (hturns turn hturn).2 m (mem_questionsFirst.mp hin)
  by_cases hsome : ∃ turn ∈ sortTurns (conversationTurns messages), turn.run = some r
  · obtain ⟨turn, hturn, hr⟩ := hsome
    obtain ⟨front, back, hsplit⟩ := List.append_of_mem hturn
    have hcollected := hgrouped.collected turn (hperm.mem_iff.mp hturn) r hr
    rw [hsplit] at hshaped hruns
    simp only [List.filterMap_append, List.filterMap_cons, hr, List.nodup_append, List.nodup_cons] at hruns
    obtain ⟨-, ⟨hback, -⟩, hfront⟩ := hruns
    refine ⟨front.flatMap Turn.questionsFirst, back.flatMap Turn.questionsFirst, ?_, fun m hm => ?_⟩
    · have huser : turn.messages.filter (fun m => decide (m.role = .user)) =
          messages.filter fun m => decide (m.listed = some r ∧ m.role = .user) := by
        rw [hcollected, List.filter_filter]
        exact List.filter_congr fun m _ => by rw [Bool.decide_and, Bool.and_comm]
      have hother : turn.messages.filter (fun m => decide (m.role ≠ .user)) =
          messages.filter fun m => decide (m.listed = some r ∧ m.role ≠ .user) := by
        rw [hcollected, List.filter_filter]
        exact List.filter_congr fun m _ => by rw [Bool.decide_and, Bool.and_comm]
      rw [orderConversationTurns, hsplit, List.flatMap_append, List.flatMap_cons, Turn.questionsFirst, huser, hother,
        List.append_assoc (front.flatMap _)]
    · rcases List.mem_append.mp hm with hm | hm
      · refine hpart front (fun x hx => ⟨hshaped x (List.mem_append_left _ hx), fun hxr => ?_⟩) m hm
        exact hfront r (List.mem_filterMap.mpr ⟨x, hx, hxr⟩) r List.mem_cons_self rfl
      · refine hpart back (fun x hx => ⟨hshaped x (List.mem_append_right _ (List.mem_cons_of_mem _ hx)), fun hxr => ?_⟩) m hm
        exact hback (List.mem_filterMap.mpr ⟨x, hx, hxr⟩)
  · have hnone : ∀ m ∈ messages, m.listed ≠ some r := by
      intro m hm hmr
      obtain ⟨turn, hturn, hr⟩ := List.mem_map.mp (hgrouped.known m hm r hmr)
      exact hsome ⟨turn, hperm.mem_iff.mpr hturn, hr⟩
    refine ⟨orderConversationTurns messages, [], ?_, fun m hm => ?_⟩
    · have hempty : ∀ p : ChatMsg → Prop, ∀ [DecidablePred p],
          messages.filter (fun m => decide (m.listed = some r ∧ p m)) = [] := by
        intro p _
        exact List.filter_eq_nil_iff.mpr fun m hm h => hnone m hm (of_decide_eq_true h).1
      rw [hempty fun m => m.role = .user, hempty fun m => m.role ≠ .user]
      simp
    · rw [List.append_nil] at hm
      exact hnone m ((orderConversationTurns_perm messages).mem_iff.mp hm)

end GaHub.Chat
