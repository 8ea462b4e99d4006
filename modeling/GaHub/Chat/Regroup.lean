import GaHub.Chat.Turns

namespace GaHub.Chat

section Again

variable {g : Grouping} {front : List Turn} {question m : ChatMsg} {r : RunId}

def Turn.asked (turn : Turn) : List Time :=
  turn.messages.filterMap fun m =>
    if m.role = .user ∧ m.pendingWebui.join ≠ some true then m.timestamp.join else none

def Turn.answered (turn : Turn) : List Time :=
  turn.messages.filterMap fun m =>
    if m.role = .assistant ∧ m.source.join ≠ some "system" ∧ m.source.join ≠ some "runtime_error_notice" then
      m.startedAt.join
    else none

theorem Turn.anchor_eq (turn : Turn) : turn.anchor = turn.asked.min?.or turn.answered.min? := rfl

theorem filterMap_questionsFirst (turn : Turn) (p : Role) (f : ChatMsg → Option Time) (hf : ∀ m, m.role ≠ p → f m = none) :
    turn.questionsFirst.filterMap f = turn.messages.filterMap f := by
  have hsplit : ∀ messages : List ChatMsg,
      (messages.filter fun m => decide (m.role = .user)).filterMap f ++
        (messages.filter fun m => decide (m.role ≠ .user)).filterMap f = messages.filterMap f := by
    intro messages
    by_cases hp : p = .user
    · subst hp
      have hnone : (messages.filter fun m => decide (m.role ≠ .user)).filterMap f = [] :=
        List.filterMap_eq_nil_iff.mpr fun m hm => hf m (of_decide_eq_true (List.mem_filter.mp hm).2)
      have hall : (messages.filter fun m => decide (m.role = .user)).filterMap f = messages.filterMap f := by
        rw [List.filterMap_filter]
        refine List.filterMap_congr fun m _ => ?_
        by_cases hm : m.role = .user
        · simp [hm]
        · simp [hm, hf m hm]
      rw [hnone, List.append_nil, hall]
    · have hnone : (messages.filter fun m => decide (m.role = .user)).filterMap f = [] := by
        refine List.filterMap_eq_nil_iff.mpr fun m hm => hf m fun hmp => hp ?_
        rw [← hmp]
        exact of_decide_eq_true (List.mem_filter.mp hm).2
      have hall : (messages.filter fun m => decide (m.role ≠ .user)).filterMap f = messages.filterMap f := by
        rw [List.filterMap_filter]
        refine List.filterMap_congr fun m _ => ?_
        by_cases hm : m.role = .user
        · simp [hm, hf m fun hmp => hp (hmp.symm.trans hm)]
        · simp [hm]
      rw [hnone, List.nil_append, hall]
  rw [Turn.questionsFirst, List.filterMap_append, hsplit]

theorem anchor_questionsFirst (turn : Turn) : (Turn.mk turn.run turn.questionsFirst).anchor = turn.anchor := by
  simp only [Turn.anchor_eq, Turn.asked, Turn.answered]
  rw [filterMap_questionsFirst turn .user _ fun m hm => if_neg fun h => hm h.1,
    filterMap_questionsFirst turn .assistant _ fun m hm => if_neg fun h => hm h.1]

theorem questionsFirst_twice (turn : Turn) (run : Option RunId) :
    Turn.questionsFirst ⟨run, turn.questionsFirst⟩ = turn.questionsFirst := by
  have hdrop : ∀ messages : List ChatMsg,
      (messages.filter fun m => decide (m.role ≠ .user)).filter (fun m => decide (m.role = .user)) = [] ∧
        (messages.filter fun m => decide (m.role = .user)).filter (fun m => decide (m.role ≠ .user)) = [] := by
    intro messages
    constructor <;> exact List.filter_eq_nil_iff.mpr fun m hm => by
      have hin := (List.mem_filter.mp hm).2
      simpa using hin
  have hkeep : ∀ (messages : List ChatMsg) (p : ChatMsg → Bool), (messages.filter p).filter p = messages.filter p :=
    fun messages p => by rw [List.filter_filter]; simp
  obtain ⟨hother, huser⟩ := hdrop turn.messages
  rw [Turn.questionsFirst, Turn.questionsFirst, List.filter_append, List.filter_append, hother, huser, hkeep, hkeep,
    List.append_nil, List.nil_append]

theorem questionsFirst_asked (hasks : question.Asks) {answers : List ChatMsg} (h : ∀ a ∈ answers, question.Answers a) :
    Turn.questionsFirst ⟨none, question :: answers⟩ = question :: answers := by
  have hnone : answers.filter (fun m => decide (m.role = .user)) = [] :=
    List.filter_eq_nil_iff.mpr fun a ha => by simp [(h a ha).1.1]
  have hall : answers.filter (fun m => decide (m.role ≠ .user)) = answers :=
    List.filter_eq_self.mpr fun a ha => by simp [(h a ha).1.1]
  simp only [Turn.questionsFirst, List.filter_cons, hasks.1, decide_true, if_true, hnone, hall, ne_eq, not_true,
    decide_false, Bool.false_eq_true, if_false, List.singleton_append]

theorem questionsFirst_single (run : Option RunId) (m : ChatMsg) : Turn.questionsFirst ⟨run, [m]⟩ = [m] := by
  by_cases hm : m.role = .user <;> simp [Turn.questionsFirst, hm]

theorem foldl_run (hfront : ∀ turn ∈ front, turn.run ≠ some r) (messages collected : List ChatMsg)
    (h : ∀ m ∈ messages, m.listed = some r) :
    messages.foldl Grouping.add { turns := front ++ [⟨some r, collected⟩], legacy := false } =
      { turns := front ++ [⟨some r, collected ++ messages⟩], legacy := false } := by
  induction messages generalizing collected with
  | nil => rw [List.append_nil, List.foldl_nil]
  | cons m messages ih =>
      rw [List.foldl_cons, Grouping.add_run (h m List.mem_cons_self) rfl hfront,
        ih (collected ++ [m]) fun x hx => h x (List.mem_cons_of_mem _ hx), List.append_assoc, List.singleton_append]

theorem foldl_answers (messages collected : List ChatMsg) (h : ∀ m ∈ messages, question.Answers m) :
    messages.foldl Grouping.add { turns := front ++ [⟨none, question :: collected⟩], legacy := true } =
      { turns := front ++ [⟨none, question :: (collected ++ messages)⟩], legacy := true } := by
  induction messages generalizing collected with
  | nil => rw [List.append_nil, List.foldl_nil]
  | cons m messages ih =>
      rw [List.foldl_cons, Grouping.add_answer rfl rfl (h m List.mem_cons_self), List.cons_append,
        ih (collected ++ [m]) fun x hx => h x (List.mem_cons_of_mem _ hx), List.append_assoc, List.singleton_append]

theorem anchor_join (hm : m.role ≠ .user) (answers : List ChatMsg)
    (hlate : ∀ a c, (Turn.mk none (question :: answers)).anchor = some a → (Turn.mk none [m]).anchor = some c → a ≤ c) :
    (Turn.mk none (question :: answers ++ [m])).anchor = (Turn.mk none (question :: answers)).anchor ∨
      (Turn.mk none (question :: answers)).anchor = none ∧
        (Turn.mk none (question :: answers ++ [m])).anchor = (Turn.mk none [m]).anchor := by
  have hasked : ∀ messages, (Turn.mk none (messages ++ [m])).asked = (Turn.mk none messages).asked := by
    intro messages
    simp [Turn.asked, List.filterMap_append, hm]
  have hsingle : (Turn.mk none [m]).asked = [] := hasked []
  have hanswered : (Turn.mk none (question :: answers ++ [m])).answered =
      (Turn.mk none (question :: answers)).answered ++ (Turn.mk none [m]).answered := List.filterMap_append
  simp only [Turn.anchor_eq, hasked, hanswered, hsingle, List.min?_nil, Option.none_or] at hlate ⊢
  cases hask : (Turn.mk none (question :: answers)).asked.min? with
  | some a => exact Or.inl rfl
  | none =>
      simp only [hask, Option.none_or] at hlate ⊢
      cases hold : (Turn.mk none (question :: answers)).answered.min? with
      | none =>
          rw [List.min?_eq_none_iff.mp hold, List.nil_append]
          exact Or.inr ⟨rfl, rfl⟩
      | some a =>
          refine Or.inl (List.min?_eq_some_iff.mpr ?_)
          obtain ⟨hin, hleast⟩ := List.min?_eq_some_iff.mp hold
          refine ⟨List.mem_append_left _ hin, fun b hb => ?_⟩
          rcases List.mem_append.mp hb with hb | hb
          · exact hleast b hb
          · cases hnew : (Turn.mk none [m]).answered.min? with
            | none =>
                rw [List.min?_eq_none_iff.mp hnew] at hb
                cases hb
            | some c => exact (hlate a c hold hnew).trans ((List.min?_eq_some_iff.mp hnew).2 b hb)

-- Grouping the ordered messages again finds the same turns, but for answers that now follow their question.
structure Regrouped (g : Grouping) (turns : List Turn) : Prop where
  flat : g.turns.flatMap Turn.questionsFirst = turns.flatMap Turn.questionsFirst
  runs : ∀ r, some r ∈ g.turns.map Turn.run → some r ∈ turns.map Turn.run
  anchors : (g.turns.filterMap Turn.anchor).Sublist (turns.filterMap Turn.anchor)
  waits : g.Waits

variable {turns : List Turn}

theorem Regrouped.run (h : Regrouped g turns) {messages : List ChatMsg} (hne : messages ≠ [])
    (hrun : ∀ m ∈ messages, m.listed = some r) (hnew : some r ∉ turns.map Turn.run) :
    Regrouped ((Turn.questionsFirst ⟨some r, messages⟩).foldl Grouping.add g) (turns ++ [⟨some r, messages⟩]) := by
  have hfront : ∀ turn ∈ g.turns, turn.run ≠ some r := fun turn hturn hr =>
    hnew (h.runs r (List.mem_map.mpr ⟨turn, hturn, hr⟩))
  have hfold : (Turn.questionsFirst ⟨some r, messages⟩).foldl Grouping.add g =
      { turns := g.turns ++ [⟨some r, Turn.questionsFirst ⟨some r, messages⟩⟩], legacy := false } := by
    have hlisted : ∀ m ∈ Turn.questionsFirst ⟨some r, messages⟩, m.listed = some r :=
      fun m hm => hrun m (mem_questionsFirst.mp hm)
    cases hqf : Turn.questionsFirst ⟨some r, messages⟩ with
    | nil =>
        have hempty := (questionsFirst_perm ⟨some r, messages⟩).length_eq
        rw [hqf] at hempty
        exact absurd (List.length_eq_zero_iff.mp hempty.symm) hne
    | cons m rest =>
        rw [hqf] at hlisted
        rw [List.foldl_cons, Grouping.add_new_run (hlisted m List.mem_cons_self) hfront,
          foldl_run hfront rest [m] fun x hx => hlisted x (List.mem_cons_of_mem _ hx), List.singleton_append]
  rw [hfold]
  constructor
  · rw [List.flatMap_append, List.flatMap_append, h.flat, List.flatMap_singleton, List.flatMap_singleton,
      questionsFirst_twice]
  · intro q hq
    rw [List.map_append] at hq ⊢
    exact (List.mem_append.mp hq).elim (fun hq => List.mem_append_left _ (h.runs q hq)) fun hq => List.mem_append_right _ hq
  · rw [List.filterMap_append, List.filterMap_append]
    have hanchor := anchor_questionsFirst ⟨some r, messages⟩
    simp only [List.filterMap_cons, List.filterMap_nil, hanchor]
    exact h.anchors.append (List.Sublist.refl _)
  · intro hlegacy
    cases hlegacy

theorem Regrouped.asked (h : Regrouped g turns) (hasks : question.Asks) {answers : List ChatMsg}
    (hanswers : ∀ a ∈ answers, question.Answers a) :
    Regrouped ((Turn.questionsFirst ⟨none, question :: answers⟩).foldl Grouping.add g)
      (turns ++ [⟨none, question :: answers⟩]) := by
  have hjoins : ¬g.joins question = true := by
    simp [Grouping.joins, hasks.1]
  have hfold : (question :: answers).foldl Grouping.add g =
      { turns := g.turns ++ [⟨none, question :: answers⟩], legacy := true } := by
    rw [List.foldl_cons, Grouping.add_alone hasks.listed hjoins, decide_eq_true hasks]
    exact foldl_answers answers [] hanswers
  rw [questionsFirst_asked hasks hanswers, hfold]
  constructor
  · rw [List.flatMap_append, List.flatMap_append, h.flat]
  · intro q hq
    rw [List.map_append] at hq ⊢
    exact (List.mem_append.mp hq).elim (fun hq => List.mem_append_left _ (h.runs q hq)) fun hq => List.mem_append_right _ hq
  · rw [List.filterMap_append, List.filterMap_append]
    exact h.anchors.append (List.Sublist.refl _)
  · exact fun _ => ⟨g.turns, question, answers, rfl, hasks, hanswers⟩

theorem Regrouped.alone (h : Regrouped g turns) (hlisted : m.listed = none) (hasks : ¬m.Asks)
    (hsorted : ((turns ++ [Turn.mk none [m]]).filterMap Turn.anchor).Pairwise (· ≤ ·)) :
    Regrouped ((Turn.questionsFirst ⟨none, [m]⟩).foldl Grouping.add g) (turns ++ [⟨none, [m]⟩]) := by
  rw [questionsFirst_single, List.foldl_cons, List.foldl_nil]
  by_cases hjoins : g.joins m = true
  · have hlegacy : g.legacy = true := by
      simp only [Grouping.joins, Bool.and_eq_true] at hjoins
      exact hjoins.1.2
    obtain ⟨front, question, answers, hturns, hq, hanswers⟩ := h.waits hlegacy
    have hm := ((Grouping.joins_iff hturns).mp hjoins).2
    have hmore : ∀ a ∈ answers ++ [m], question.Answers a := by
      intro a ha
      rcases List.mem_append.mp ha with ha | ha
      · exact hanswers a ha
      · exact List.mem_singleton.mp ha ▸ hm
    have hflat := h.flat
    have hruns := h.runs
    have hanchors := h.anchors
    rw [hturns] at hflat hruns hanchors
    rw [Grouping.add_answer hturns hlegacy hm]
    constructor
    · rw [List.flatMap_append, List.flatMap_append, ← hflat, List.flatMap_append, List.flatMap_singleton,
        List.flatMap_singleton, List.flatMap_singleton, questionsFirst_asked hq hanswers, List.cons_append,
        questionsFirst_asked hq hmore, questionsFirst_single, List.append_assoc, List.cons_append]
    · intro q hin
      rw [List.map_append]
      exact List.mem_append_left _ (hruns q (by simpa using hin))
    · have hlate : ∀ a c, (Turn.mk none (question :: answers)).anchor = some a → (Turn.mk none [m]).anchor = some c → a ≤ c := by
        intro a c ha hc
        rw [List.filterMap_append, List.pairwise_append] at hsorted
        refine hsorted.2.2 a (hanchors.subset ?_) c (by simp [hc])
        rw [List.filterMap_append]
        exact List.mem_append_right _ (by simp [ha])
      rw [List.filterMap_append] at hanchors ⊢
      rcases anchor_join (by rw [hm.1.1]; decide) answers hlate with hsame | ⟨hnone, hnew⟩
      · have hkept : [Turn.mk none (question :: answers ++ [m])].filterMap Turn.anchor =
            [Turn.mk none (question :: answers)].filterMap Turn.anchor := by
          simp only [List.filterMap_cons, List.filterMap_nil, hsame]
        rw [hkept, List.filterMap_append]
        exact hanchors.trans (List.sublist_append_left _ _)
      · have hold : [Turn.mk none (question :: answers)].filterMap Turn.anchor = [] := by
          simp only [List.filterMap_cons, List.filterMap_nil, hnone]
        have hgiven : [Turn.mk none (question :: answers ++ [m])].filterMap Turn.anchor =
            [Turn.mk none [m]].filterMap Turn.anchor := by
          simp only [List.filterMap_cons, List.filterMap_nil, hnew]
        rw [hold, List.append_nil] at hanchors
        rw [hgiven, List.filterMap_append]
        exact hanchors.append (List.Sublist.refl _)
    · exact fun _ => ⟨front, question, answers ++ [m], rfl, hq, hmore⟩
  · rw [Grouping.add_alone hlisted hjoins]
    constructor
    · rw [List.flatMap_append, List.flatMap_append, h.flat]
    · intro q hq
      rw [List.map_append] at hq ⊢
      exact (List.mem_append.mp hq).elim (fun hq => List.mem_append_left _ (h.runs q hq)) fun hq => List.mem_append_right _ hq
    · rw [List.filterMap_append, List.filterMap_append]
      exact h.anchors.append (List.Sublist.refl _)
    · intro hlegacy
      exact absurd (of_decide_eq_true hlegacy) hasks

theorem foldl_regrouped (rest : List Turn) (h : Regrouped g turns) (hshaped : ∀ turn ∈ rest, Shaped turn)
    (hruns : ((turns ++ rest).filterMap Turn.run).Nodup)
    (hsorted : ((turns ++ rest).filterMap Turn.anchor).Pairwise (· ≤ ·)) :
    Regrouped ((rest.flatMap Turn.questionsFirst).foldl Grouping.add g) (turns ++ rest) := by
  induction rest generalizing g turns with
  | nil => simpa using h
  | cons turn rest ih =>
      rw [← List.singleton_append, ← List.append_assoc] at hruns hsorted ⊢
      rw [List.singleton_append, List.flatMap_cons, List.foldl_append]
      have hprefix : ((turns ++ [turn]).filterMap Turn.anchor).Pairwise (· ≤ ·) := by
        rw [List.filterMap_append] at hsorted
        exact (List.pairwise_append.mp hsorted).1
      refine ih ?_ (fun t ht => hshaped t (List.mem_cons_of_mem _ ht)) hruns hsorted
      cases hshaped turn List.mem_cons_self with
      | @run r messages hne hrun =>
          refine h.run hne hrun fun hin => ?_
          obtain ⟨old, hold, hr⟩ := List.mem_map.mp hin
          rw [List.append_assoc, List.filterMap_append, List.nodup_append] at hruns
          exact hruns.2.2 r (List.mem_filterMap.mpr ⟨old, hold, hr⟩) r (by simp) rfl
      | asked hasks hanswers => exact h.asked hasks hanswers
      | alone hlisted hasks => exact h.alone hlisted hasks hprefix

theorem orderConversationTurns_idem (messages : List ChatMsg) :
    orderConversationTurns (orderConversationTurns messages) = orderConversationTurns messages := by
  obtain ⟨hshaped, hruns⟩ := sortTurns_shaped messages
  have hstart : Regrouped {} [] := ⟨rfl, fun _ hq => hq, List.Sublist.refl _, fun hlegacy => by cases hlegacy⟩
  have hagain := foldl_regrouped _ hstart hshaped hruns (sortTurns_sorted _)
  have hsorted : sortTurns (conversationTurns (orderConversationTurns messages)) =
      conversationTurns (orderConversationTurns messages) :=
    sortTurns_of_sorted ((sortTurns_sorted (conversationTurns messages)).sublist hagain.anchors)
  rw [orderConversationTurns, hsorted]
  exact hagain.flat

end Again

-- Turns come in order of time, equal times in their old order, and a turn without a time keeps its place.
structure StablyOrdered (turns sorted : List Turn) : Prop where
  perm : sorted.Perm turns
  ordered : (sorted.filterMap Turn.anchor).Pairwise (· ≤ ·)
  ties : ∀ time, (sorted.filter fun turn => decide (turn.anchor = some time)) =
    turns.filter fun turn => decide (turn.anchor = some time)
  keeps : ∀ (i : Nat) (turn : Turn), turns[i]? = some turn → turn.anchor = none → sorted[i]? = some turn

theorem bubble_anchor {m : ChatMsg} (h : m.Bubble) : (Turn.mk none [m]).anchor = none := by
  simp only [Turn.anchor_eq, Turn.asked, Turn.answered, List.filterMap_cons, List.filterMap_nil]
  rcases h with ⟨hrole, hpending⟩ | ⟨-, hsystem | ⟨hassistant, hsource | hsource⟩⟩
  · simp [hrole, hpending]
  · simp [hsystem]
  · simp [hassistant, hsource]
  · simp [hassistant, hsource]

-- The displayed order is a permutation of the messages made of whole turns in a stable order: the messages of a run
-- are in one piece with its questions first, a bubble is a turn of its own without a time, and ordering again changes nothing.
theorem orderConversationTurns_stable (messages : List ChatMsg) :
    (orderConversationTurns messages).Perm messages ∧
    (∀ r, ∃ front back, orderConversationTurns messages =
      front ++ (messages.filter (fun m => decide (m.listed = some r ∧ m.role = .user)) ++
        messages.filter fun m => decide (m.listed = some r ∧ m.role ≠ .user)) ++ back ∧
      ∀ m ∈ front ++ back, m.listed ≠ some r) ∧
    orderConversationTurns messages = (sortTurns (conversationTurns messages)).flatMap Turn.questionsFirst ∧
    StablyOrdered (conversationTurns messages) (sortTurns (conversationTurns messages)) ∧
    (∀ m ∈ messages, m.Bubble → ⟨none, [m]⟩ ∈ conversationTurns messages ∧ (Turn.mk none [m]).anchor = none) ∧
    orderConversationTurns (orderConversationTurns messages) = orderConversationTurns messages := by
  refine ⟨orderConversationTurns_perm messages, run_contiguous messages, rfl, ⟨sortTurns_perm _, sortTurns_sorted _,
    sortTurns_stable _, fun i turn => sortTurns_keeps⟩, fun m hm hbubble => ⟨?_, bubble_anchor hbubble⟩,
    orderConversationTurns_idem messages⟩
  exact (conversationTurns_grouped messages).bubbles m hm hbubble

end GaHub.Chat
