import GaHub.Lib.Carry
import GaHub.Chat.Reducer

namespace GaHub.Chat

open Lib

namespace ChatMsg

def terminal (m : ChatMsg) : Prop := m.role = .assistant ∧ m.run.isSome ∧ m.outcome.join.isSome

instance (m : ChatMsg) : Decidable m.terminal := by unfold terminal; infer_instance

structure Stays (m m' : ChatMsg) : Prop where
  role : m'.role = m.role
  run : m'.run = m.run
  content : m'.content = m.content
  segments : m'.segments = m.segments
  outcome : m'.outcome.join.isSome
  streaming : m'.streaming.join = some true → m.streaming.join = some true

-- A message and what became of it: if it was an ended answer, it still is that answer.
def Final (m m' : ChatMsg) : Prop := m.terminal → m.Stays m'

variable {m m' m'' : ChatMsg}

theorem Stays.refl (h : m.outcome.join.isSome) : m.Stays m := ⟨rfl, rfl, rfl, rfl, h, id⟩

theorem Stays.terminal (h : m.Stays m') (hm : m.terminal) : m'.terminal :=
  ⟨h.role.trans hm.1, by rw [h.run]; exact hm.2.1, h.outcome⟩

theorem Final.refl (m : ChatMsg) : m.Final m := fun h => Stays.refl h.2.2

theorem Final.trans (h : m.Final m') (h' : m'.Final m'') : m.Final m'' := by
  intro hm
  have h₁ := h hm
  have h₂ := h' (h₁.terminal hm)
  exact
    { role := h₂.role.trans h₁.role
      run := h₂.run.trans h₁.run
      content := h₂.content.trans h₁.content
      segments := h₂.segments.trans h₁.segments
      outcome := h₂.outcome
      streaming := fun h => h₁.streaming (h₂.streaming h) }

theorem Final.of_user (h : m.role = .user) : m.Final m' := by
  intro hm
  rw [hm.1] at h
  cases h

theorem Final.of_open (h : m.outcome.join = none) : m.Final m' := by
  intro hm
  have houtcome := hm.2.2
  rw [h] at houtcome
  cases houtcome

end ChatMsg

-- Every ended answer of a list is in the other list, and still ended.
abbrev Ends (l l' : List ChatMsg) : Prop := Carries ChatMsg.Final l l'

namespace Ends

variable {l l' l'' : List ChatMsg}

theorem refl (l : List ChatMsg) : Ends l l := Carries.refl ChatMsg.Final.refl l

theorem trans (h : Ends l l') (h' : Ends l' l'') : Ends l l'' :=
  Carries.trans (fun _ _ _ => ChatMsg.Final.trans) h h'

theorem append (l extra : List ChatMsg) : Ends l (l ++ extra) := Carries.append_right ChatMsg.Final.refl l extra

end Ends

section Frames

variable {turnStarts : String → List Nat} {prev : List ChatMsg} {now : Time}

theorem upsertRetryNotice_ends {retryKey content : String} {timestamp : Option Time} {retryStreamId : Option StreamId}
    {runId : Option RunId} : Ends prev (upsertRetryNotice prev retryKey content timestamp retryStreamId runId) := by
  unfold upsertRetryNotice
  dsimp only
  split
  · exact Ends.append _ _
  · refine Carries.modify ChatMsg.Final.refl fun m _ hm => ?_
    exact { ChatMsg.Stays.refl hm.2.2 with }

theorem updateLogicalReply_ends {e : ReplyEvent} : Ends prev (updateLogicalReply turnStarts prev e now) := by
  unfold updateLogicalReply
  split
  · exact Ends.append _ _
  · rename_i index _
    split
    · exact Ends.refl _
    · rename_i old hold
      split
      · exact Ends.refl _
      · rename_i houtcome
        split
        · exact Ends.refl _
        · refine Carries.set ChatMsg.Final.refl fun m hm => ChatMsg.Final.of_open ?_
          rw [hold] at hm
          cases hm
          simpa using houtcome

theorem ensureRetryStartNotice_ends {e : ReplyEvent} : Ends prev (ensureRetryStartNotice prev e) := by
  unfold ensureRetryStartNotice
  split
  · exact Ends.refl _
  · split
    · exact Ends.refl _
    · exact upsertRetryNotice_ends

theorem reduceStarted_ends {e : ReplyEvent} : Ends prev (reduceStarted turnStarts prev e now) := by
  unfold reduceStarted
  dsimp only
  split
  · exact Ends.refl _
  · split
    · exact upsertRetryNotice_ends.trans updateLogicalReply_ends
    · split
      · exact updateLogicalReply_ends
      · split
        · rename_i back hback
          refine Ends.trans (Carries.modify ChatMsg.Final.refl fun m hm => ChatMsg.Final.of_user ?_) (Ends.append _ _)
          -- the place counted from the end holds a question
          obtain ⟨hfind, _⟩ := Option.filter_eq_some_iff.mp hback
          obtain ⟨hlt, hquestion, _⟩ := List.findIdx?_eq_some_iff_getElem.mp hfind
          have hplace : prev.reverse[back]? = some m := by
            rw [List.length_reverse] at hlt
            rw [List.getElem?_reverse hlt]
            exact hm
          rw [List.getElem?_eq_getElem hlt] at hplace
          rw [Option.some.inj hplace] at hquestion
          exact (of_decide_eq_true hquestion).1
        · split
          · split
            · exact Ends.refl _
            · exact Ends.append _ _
          · split
            · exact Ends.append _ _
            · exact (Ends.append _ _).trans (Ends.append _ _)

-- A frame that belongs to no run and closes a question asked on the side.
def ReplyEvent.isSideAnswer (e : ReplyEvent) : Prop :=
  e.phase = .done ∧ e.source = some "system" ∧ truthy e.runId = none ∧ truthy e.logicalId = none

instance (e : ReplyEvent) : Decidable e.isSideAnswer := by unfold ReplyEvent.isSideAnswer; infer_instance

theorem adoptIdentity_final {e : ReplyEvent} (m : ChatMsg) :
    m.Final (if m.streamId.join = some e.streamId ∧ (m.run = none ∨ belongsToRun m e.runId) then
      { m with
        runId := some ((truthy e.runId).or m.runId.join), logicalId := some ((truthy e.logicalId).or m.logicalId.join) }
      else m) := by
  split
  · rename_i h
    intro hm
    have hsame : m.runId.join = e.runId := by
      rcases h.2 with hnone | hrun
      · have hsome := hm.2.1
        rw [hnone] at hsome
        cases hsome
      · exact of_decide_eq_true hrun
    refine { ChatMsg.Stays.refl hm.2.2 with run := ?_ }
    unfold ChatMsg.run truthy
    rw [hsame]
    cases e.runId with
    | none => rfl
    | some r => by_cases hr : r = "" <;> simp [hr, Option.filter]
  · exact ChatMsg.Final.refl m

theorem applyReply_ends (state : ChatState) {e : ReplyEvent} (h : ¬ e.isSideAnswer) :
    Ends state.msgs (applyReply turnStarts state e now).msgs := by
  unfold applyReply
  split
  · exact reduceStarted_ends.trans (Carries.map fun m _ => adoptIdentity_final m)
  · rename_i phase hphase
    split
    · exact Ends.refl _
    · split
      · exact updateLogicalReply_ends
      · rename_i hidentity
        split
        · exact ensureRetryStartNotice_ends.trans updateLogicalReply_ends
        · rename_i hnext
          dsimp only
          split
          · rename_i hsource
            refine absurd ⟨?_, hsource, ?_, ?_⟩ h
            · cases hp : e.phase
              · exact absurd hp hphase
              · exact absurd hp hnext
              · rfl
            · exact Option.not_isSome_iff_eq_none.mp fun h => hidentity (.inl h)
            · exact Option.not_isSome_iff_eq_none.mp fun h => hidentity (.inr h)
          · exact ensureRetryStartNotice_ends.trans updateLogicalReply_ends

end Frames

section Runtime

variable {prev : List ChatMsg} {r : SessionRuntime} {now : Time}

-- What a message becomes when the coordinator speaks of its session.
def runtimeStep (r : SessionRuntime) (now : Time) (m : ChatMsg) : ChatMsg := (applyRuntime [m] r now).headD m

theorem applyRuntime_eq : applyRuntime prev r now = prev.map (runtimeStep r now) := by
  unfold runtimeStep applyRuntime
  split
  · rfl
  · split
    · simp
    · rfl

theorem runtimeStep_final (m : ChatMsg) : m.Final (runtimeStep r now m) := by
  intro hm
  unfold runtimeStep applyRuntime
  split
  · simp only [List.map_cons, List.map_nil, List.headD_cons]
    split
    · rename_i h
      have hsome := hm.2.2
      rw [h.2.2.1] at hsome
      cases hsome
    · exact ChatMsg.Stays.refl hm.2.2
  · split
    · exact ChatMsg.Stays.refl hm.2.2
    · rename_i hidle
      simp only [List.map_cons, List.map_nil, List.headD_cons]
      split
      · refine { ChatMsg.Stays.refl hm.2.2 with outcome := ?_, streaming := ?_ }
        · cases ho : r.outcome with
          | none => exact absurd (.inr (.inr ho)) hidle
          | some _ => rfl
        · intro h
          cases h
      · exact ChatMsg.Stays.refl hm.2.2

theorem applyRuntime_ends : Ends prev (applyRuntime prev r now) := by
  rw [applyRuntime_eq]
  exact Carries.map fun m _ => runtimeStep_final m

end Runtime

section Adoption

variable {base live : List ChatMsg}

theorem mem_pairIndices {p : ChatMsg → ChatMsg → Bool} {l : List ChatMsg} {i : Nat} (h : i ∈ pairIndices p l) :
    ∃ x y, l[i]? = some x ∧ l[i + 1]? = some y ∧ p x y = true := by
  have hp := (List.mem_filter.mp h).2
  cases hx : l[i]? with
  | none => simp [hx] at hp
  | some x =>
      cases hy : l[i + 1]? with
      | none => simp [hx, hy] at hp
      | some y => exact ⟨x, y, rfl, rfl, by simpa [hx, hy] using hp⟩

theorem adopts_role {query archivedQuery archivedAnswer : ChatMsg}
    (h : adopts query archivedQuery archivedAnswer = true) : archivedQuery.role = .user := by
  simp only [adopts, Bool.and_eq_true, decide_eq_true_eq] at h
  exact h.1.1.1.2.1

-- The list of an adoption in progress: the marked places hold what they held, and so do the places before
-- them, unless these became answers.
structure Untouched (marked : Nat → Prop) (base out : List ChatMsg) : Prop where
  length : out.length = base.length
  same : ∀ j, marked j → out[j]? = base[j]?
  before : ∀ j, marked (j + 1) → out[j]? = base[j]? ∨ ∃ m, out[j]? = some m ∧ m.role = .assistant

def Spared (marked : Nat → Prop) (base live : List ChatMsg) : Prop :=
  ∀ i query answer, live[i]? = some query → live[i + 1]? = some answer → livePair query answer = true →
    ∀ j archivedQuery archivedAnswer, base[j]? = some archivedQuery → base[j + 1]? = some archivedAnswer →
      adopts query archivedQuery archivedAnswer = true → ¬ marked (j + 1)

variable {marked : Nat → Prop}

theorem adoptPair_untouched (hmarked : ∀ j, marked j → ∀ m, base[j]? = some m → m.role = .assistant)
    (hspared : Spared marked base live) {state : List ChatMsg × List Nat} (hstate : Untouched marked base state.1)
    {i : Nat} {query answer : ChatMsg} (hquery : live[i]? = some query) (hanswer : live[i + 1]? = some answer)
    (hpair : livePair query answer = true) : Untouched marked base (adoptPair live state i).1 := by
  unfold adoptPair
  rw [hquery, hanswer]
  dsimp only
  split
  · exact hstate
  · rename_i j hj
    obtain ⟨archivedQuery, archivedAnswer, hq, ha, hadopts⟩ := mem_pairIndices (List.mem_of_getLast? hj)
    -- neither place of the pair is marked
    have hquestion : ¬ marked j := by
      intro h
      rw [hstate.same j h] at hq
      have hrole := hmarked j h _ hq
      rw [adopts_role hadopts] at hrole
      cases hrole
    have hreply : ¬ marked (j + 1) := by
      intro h
      rw [hstate.same _ h] at ha
      rcases hstate.before j h with hsame | ⟨m, hm, hrole⟩
      · rw [hsame] at hq
        exact hspared i query answer hquery hanswer hpair j _ _ hq ha hadopts h
      · rw [hm] at hq
        cases hq
        rw [adopts_role hadopts] at hrole
        cases hrole
    have hother : ∀ k, k ≠ j → k ≠ j + 1 →
        ((state.1.modify j fun archived => archived.spread query).modify (j + 1) fun archived =>
          archived.spread answer)[k]? = state.1[k]? := by
      intro k hk hk'
      rw [List.getElem?_modify_ne _ _ (Ne.symm hk'), List.getElem?_modify_ne _ _ (Ne.symm hk)]
    refine ⟨by simpa using hstate.length, fun k hk => ?_, fun k hk => ?_⟩
    · rw [hother k (fun h => hquestion (h ▸ hk)) fun h => hreply (h ▸ hk)]
      exact hstate.same k hk
    · by_cases hnext : k = j + 1
      · -- the answer that was taken over
        refine .inr ⟨archivedAnswer.spread answer, ?_, ?_⟩
        · rw [hnext, List.getElem?_modify_eq, List.getElem?_modify_ne _ _ (by omega), ha]
          rfl
        · exact (of_decide_eq_true hpair).2.1
      · rw [hother k (fun h => hreply (h ▸ hk)) hnext]
        exact hstate.before k hk

theorem adoptPairs_untouched (hmarked : ∀ j, marked j → ∀ m, base[j]? = some m → m.role = .assistant)
    (hspared : Spared marked base live) : Untouched marked base (adoptPairs base live).1 := by
  have hstart : Untouched marked base (base, ([] : List Nat)).1 := ⟨rfl, fun _ _ => rfl, fun _ _ => .inl rfl⟩
  refine List.foldlRecOn (motive := fun state => Untouched marked base state.1) (pairIndices livePair live) (adoptPair live)
    hstart fun state hstate i hi => ?_
  obtain ⟨query, answer, hquery, hanswer, hpair⟩ := mem_pairIndices hi
  exact adoptPair_untouched hmarked hspared hstate hquery hanswer hpair

end Adoption

section Snapshots

variable {turnStarts : String → List Nat} {r : SessionRuntime} {now : Time}

theorem mergeMessage_final (m msg : ChatMsg) : m.Final (mergeMessage turnStarts m msg) := by
  intro hm
  unfold mergeMessage
  rw [if_pos hm.2.2]
  exact ChatMsg.Stays.refl hm.2.2

theorem mergeOne_ends (state : LiveState) (msg : ChatMsg) : Ends state.out (mergeOne turnStarts state msg).out := by
  unfold mergeOne
  split
  · exact Ends.append _ _
  · split
    · exact Carries.modify ChatMsg.Final.refl fun m _ => mergeMessage_final m msg
    · exact Ends.append _ _

theorem mergeAll_ends (live : List ChatMsg) (state : LiveState) :
    Ends state.out (live.foldl (mergeOne turnStarts) state).out := by
  induction live generalizing state with
  | nil => exact Ends.refl _
  | cons msg live ih => exact (mergeOne_ends state msg).trans (ih _)

theorem orderConversationTurns_ends (msgs : List ChatMsg) : Ends msgs (orderConversationTurns msgs) :=
  Carries.perm ChatMsg.Final.refl (orderConversationTurns_perm msgs)

theorem mergeLive_ends (base live : List ChatMsg) : Ends (adoptPairs base live).1 (mergeLive turnStarts base live) := by
  unfold mergeLive
  exact (mergeAll_ends _ { out := (adoptPairs base live).1, positions := _ }).trans (orderConversationTurns_ends _)

theorem runtimeStep_eq (m : ChatMsg) : ∃ streaming stopped finishedAt outcome notice offset stream,
    runtimeStep r now m =
      { m with
        streaming := streaming, stopped := stopped, finishedAt := finishedAt, outcome := outcome, recoveryNotice := notice
        recoveryOffset := offset, recoveryStreamId := stream } := by
  unfold runtimeStep applyRuntime
  split
  · simp only [List.map_cons, List.map_nil, List.headD_cons]
    split <;> exact ⟨_, _, _, _, _, _, _, rfl⟩
  · split
    · exact ⟨_, _, _, _, _, _, _, rfl⟩
    · simp only [List.map_cons, List.map_nil, List.headD_cons]
      split <;> exact ⟨_, _, _, _, _, _, _, rfl⟩

-- What a snapshot says of the run of a message from the archive, before anything else of it is read.
def settled (r : SessionRuntime) (now : Time) (m : ChatMsg) : ChatMsg :=
  if m.fromHistory then runtimeStep r now m else m

theorem settled_final (m : ChatMsg) : m.Final (settled r now m) := by
  unfold settled
  split
  · exact runtimeStep_final m
  · exact ChatMsg.Final.refl m

theorem settled_eq (r : SessionRuntime) (now : Time) (m : ChatMsg) : ∃ streaming stopped finishedAt outcome notice offset stream,
    settled r now m =
      { m with
        streaming := streaming, stopped := stopped, finishedAt := finishedAt, outcome := outcome, recoveryNotice := notice
        recoveryOffset := offset, recoveryStreamId := stream } := by
  unfold settled
  split
  · exact runtimeStep_eq m
  · exact ⟨_, _, _, _, _, _, _, rfl⟩

theorem adopts_settled {query : ChatMsg} (x y : ChatMsg) :
    adopts query (settled r now x) (settled r now y) = adopts query x y := by
  obtain ⟨_, _, _, _, _, _, _, hx⟩ := settled_eq r now x
  obtain ⟨_, _, _, _, _, _, _, hy⟩ := settled_eq r now y
  rw [hx, hy]
  rfl

def Snapshot.state (s : Snapshot) : SessionRuntime where
  status := match s.runtime with
    | some r => r.status
    | none => s.status
  runId := match s.runtime with
    | some r => r.runId
    | none => s.runId
  completedRunId := (s.runtime.bind SessionRuntime.completedRunId).or s.completedRunId
  outcome := (s.runtime.bind SessionRuntime.outcome).or s.outcome

theorem settleSnapshot_eq (msgs : List ChatMsg) (s : Snapshot) : settleSnapshot msgs s now = applyRuntime msgs s.state now := rfl

theorem settleArchive_eq (msgs : List ChatMsg) (s : Snapshot) :
    (msgs.flatMap fun m => if m.fromHistory then settleSnapshot [m] s now else [m]) = msgs.map (settled s.state now) := by
  rw [List.map_eq_flatMap]
  refine List.flatMap_congr fun m _ => ?_
  unfold settled
  split
  · rw [settleSnapshot_eq, applyRuntime_eq]
    rfl
  · rfl

-- No running stream of the snapshot takes over an archived pair with an ended answer.
def Spares (msgs live : List ChatMsg) : Prop :=
  ∀ i query answer, live[i]? = some query → live[i + 1]? = some answer → livePair query answer = true →
    ∀ j archivedQuery archivedAnswer, msgs[j]? = some archivedQuery → msgs[j + 1]? = some archivedAnswer →
      adopts query archivedQuery archivedAnswer = true → ¬ archivedAnswer.terminal

theorem adoptPairs_ends {msgs live : List ChatMsg} (h : Spares msgs live) :
    Ends msgs (adoptPairs (msgs.map (settled r now)) live).1 := by
  have hkept : Untouched (fun j => ∃ m, msgs[j]? = some m ∧ m.terminal) (msgs.map (settled r now))
      (adoptPairs (msgs.map (settled r now)) live).1 := by
    refine adoptPairs_untouched ?_ ?_
    · rintro j ⟨m, hm, hterminal⟩ m' hm'
      rw [List.getElem?_map, hm] at hm'
      cases hm'
      exact (settled_final m hterminal).role.trans hterminal.1
    · rintro i query answer hquery hanswer hpair j q a hq ha hadopts ⟨m, hm, hterminal⟩
      rw [List.getElem?_map] at hq ha
      obtain ⟨q', hq', rfl⟩ := Option.map_eq_some_iff.mp hq
      rw [hm] at ha
      cases ha
      rw [adopts_settled] at hadopts
      exact h i query answer hquery hanswer hpair j q' m hq' hm hadopts hterminal
  refine Carries.of_forall₂ (List.forall₂_iff_get.mpr ⟨by simpa using hkept.length.symm, fun j hj hj' hterminal => ?_⟩)
  have hmarked : ∃ m, msgs[j]? = some m ∧ m.terminal := ⟨_, List.getElem?_eq_getElem hj, hterminal⟩
  have hsame := hkept.same j hmarked
  rw [List.getElem?_eq_getElem hj', List.getElem?_map, List.getElem?_eq_getElem hj] at hsame
  rw [List.get_eq_getElem, List.get_eq_getElem, Option.some.inj hsame]
  exact settled_final _ hterminal

theorem spares_of_run {msgs live : List ChatMsg} (h : ∀ query ∈ live, query.role = .user → query.run.isSome) :
    Spares msgs live := by
  intro i query answer hquery hanswer hpair j archivedQuery archivedAnswer _ _ hadopts
  have hrun := h query (List.mem_of_getElem? hquery) (of_decide_eq_true hpair).1
  simp only [adopts, Bool.and_eq_true, decide_eq_true_eq] at hadopts
  rw [hadopts.1.1.2.2.1] at hrun
  cases hrun

theorem mergeSessionSnapshot_ends {state : ChatState} {s : Snapshot} (hreply : ∀ e ∈ s.activeReply, ¬ e.isSideAnswer)
    (hspares : ∀ streams ∈ s.liveStreams, Spares state.msgs (applySnapshot turnStarts streams now)) :
    Ends state.msgs (mergeSessionSnapshot turnStarts state s now).msgs := by
  unfold mergeSessionSnapshot
  rw [settleArchive_eq]
  dsimp only
  refine Ends.trans ?_ (applyRuntime_ends.trans (orderConversationTurns_ends _))
  have hsettled : Ends state.msgs (state.msgs.map (settled s.state now)) :=
    Carries.map fun m _ => settled_final m
  have hmerged : ∀ streams, s.liveStreams = some streams → Ends state.msgs
      (mergeLive turnStarts (state.msgs.map (settled s.state now)) (applySnapshot turnStarts streams now)) :=
    fun streams hlive => (adoptPairs_ends (hspares streams hlive)).trans (mergeLive_ends _ _)
  -- the running message is read after the streams
  cases hactive : s.activeReply with
  | none =>
      cases hlive : s.liveStreams with
      | none => exact hsettled
      | some streams => exact hmerged streams hlive
  | some e =>
      have happlied : ∀ merged, Ends merged (applyReply turnStarts { state with msgs := merged } e now).msgs :=
        fun merged => applyReply_ends { state with msgs := merged } (hreply e hactive)
      cases hlive : s.liveStreams with
      | none => exact hsettled.trans (happlied _)
      | some streams => exact (hmerged streams hlive).trans (happlied _)

end Snapshots

section Events

variable (turnStarts : String → List Nat)

-- An event that does not wipe the list, and whose snapshot leaves ended answers alone.
def Gentle (msgs : List ChatMsg) (now : Time) : ChatEvent → Prop
  | .reset => False
  | .rewound _ => False
  | .reply e => ¬ e.isSideAnswer
  | .snapshot s => (∀ e ∈ s.activeReply, ¬ e.isSideAnswer) ∧
      ∀ streams ∈ s.liveStreams, Spares msgs (applySnapshot turnStarts streams now)
  | _ => True

def runEvents (state : ChatState) (events : List (ChatEvent × Time)) : ChatState :=
  events.foldl (fun state e => applyEvent turnStarts state e.1 e.2) state

-- Every event of a run is gentle where it arrives.
def AllGentle (state : ChatState) : List (ChatEvent × Time) → Prop
  | [] => True
  | e :: events => Gentle turnStarts state.msgs e.2 e.1 ∧ AllGentle (applyEvent turnStarts state e.1 e.2) events

variable {turnStarts}

theorem halt_final (m : ChatMsg) (now : Time) : m.Final (m.halt now) := by
  intro hm
  unfold ChatMsg.halt
  split
  · exact { ChatMsg.Stays.refl hm.2.2 with streaming := fun h => by cases h }
  · exact ChatMsg.Stays.refl hm.2.2

theorem reduceError_ends {state : ChatState} {streamId : StreamId} {code detail : String} {now : Time} :
    Ends state.msgs (reduceError state streamId code detail now) := by
  have hstopped : Ends state.msgs (state.msgs.map fun m => if m.streamId.join = some streamId then m.halt now else m) := by
    refine Carries.map fun m _ => ?_
    split
    · exact halt_final m now
    · exact ChatMsg.Final.refl m
  unfold reduceError
  split
  · exact Carries.map fun m _ => halt_final m now
  · dsimp only
    split
    · exact hstopped
    · exact hstopped.trans (Ends.append _ _)

theorem applyEvent_ends {state : ChatState} {event : ChatEvent} {now : Time} (h : Gentle turnStarts state.msgs now event) :
    Ends state.msgs (applyEvent turnStarts state event now).msgs := by
  cases event with
  | snapshot s => exact mergeSessionSnapshot_ends h.1 h.2
  | sessionRuntime r => exact applyRuntime_ends
  | reset => exact False.elim h
  | reply e => exact applyReply_ends state h
  | retry e =>
      unfold applyEvent
      dsimp only
      split
      · exact Ends.refl _
      · exact upsertRetryNotice_ends
  | aborted =>
      refine Carries.map fun m _ => ?_
      split
      · exact fun hm => { ChatMsg.Stays.refl hm.2.2 with streaming := fun h => by cases h }
      · exact ChatMsg.Final.refl m
  | error streamId code detail => exact reduceError_ends
  | rewound removed => exact False.elim h
  | other => exact Ends.refl _

-- An answer that ended, and the frames of its run once more, a snapshot from before its end among them.
def endedAnswer : ChatMsg :=
  { role := .assistant, content := "complete", runId := some (some "r"), logicalId := some (some "a")
    streamId := some (some "a"), source := some (some "webui"), streaming := some (some false)
    outcome := some (some .completed) }

def staleFrames : List (ChatEvent × Time) :=
  [(.reply { phase := .started, streamId := "a", runId := some "r", source := some "webui" }, 1),
   (.reply { phase := .next, streamId := "a", runId := some "r", content := some "old" }, 2),
   (.snapshot
      { streams := some [{ streamId := "a", source := "webui", query := "q", content := "old", done := false
                           startedAt := some 1, runId := some "r", logicalId := some "a" }]
        runtime := some { status := "running", runId := some "r" } }, 3),
   (.sessionRuntime { status := "running", runId := some "r" }, 4),
   (.aborted, 5)]

-- A question of the archive without a run, and the ended answer of one; the snapshot has the same question,
-- just asked by a stream without identity.
def archivedPair : List ChatMsg :=
  historyToMessages (fun _ => [])
    [{ id := "0", ordinal := 0, role := .user, content := "q", timestamp := some 1000000000000 },
     { id := "1", ordinal := 1, role := .assistant, content := "complete", timestamp := some 1000000000500
       runId := some "r", logicalId := some "a", outcome := some .completed }]

def askedAgain : ChatEvent :=
  .snapshot { streams := some [{ streamId := "b", source := "webui", query := "q", content := "", done := false
                                 startedAt := some 1000000001000 }] }

end Events

end GaHub.Chat
