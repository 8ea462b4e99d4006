import GaHub.Sessions.Ownership

namespace GaHub.Sessions

open Lib

-- The runtime a creation answers for, from the start of its factory call.
def Creation.runtime : Creation → Option RuntimeId
  | .building _ runtime | .built _ runtime | .discarding runtime _ => some runtime
  | _ => none

-- The factory has returned and nobody else knows the runtime yet.
def World.InHand (w : World) (session : SessionId) (runtime : RuntimeId) : Prop :=
  ∃ i c, w.Creating i session c ∧ c.runtime = some runtime ∧ ∀ e, c ≠ .building e runtime

structure Tracked (w : World) : Prop where
  requested : .shutdownRequested ∈ w.log → w.co.shutdownRequested = true
  fresh : ∀ i s c rt, w.Creating i s c → c.runtime = some rt → ∃ n, rt = .built n ∧ n < w.serial
  logged : ∀ s rt, .factoryStarted s rt ∈ w.log ∨ .factoryReturned s rt ∈ w.log ∨
    .installed s rt ∈ w.log → ∃ n, rt = .built n ∧ n < w.serial
  apart : ∀ i j s s' c c' rt, w.Creating i s c → w.Creating j s' c' → c.runtime = some rt →
    c'.runtime = some rt → i = j
  held : ∀ i s c rt, w.Creating i s c → c.runtime = some rt →
    .factoryStarted s rt ∈ w.log ∧ ∀ s', .installed s' rt ∉ w.log
  returned : ∀ s rt, .factoryReturned s rt ∈ w.log →
    w.InHand s rt ∨ .installed s rt ∈ w.log ∨ .shutdownCalled rt ∈ w.log
  kept : ∀ s rt, .installed s rt ∈ w.log →
    w.co.runtimes.get? s = some rt ∨ .removed s rt ∈ w.log
  late : ∀ s rt, [.shutdownRequested, .factoryReturned s rt].Sublist w.log → .installed s rt ∉ w.log

theorem mem_log_of_plain {log more : List Effect} (hmore : ∀ e ∈ more, e.Plain) {e : Effect}
    (he : e ∈ log ++ more) (hnot : ¬e.Plain) : e ∈ log := by
  rcases List.mem_append.mp he with he | he
  · exact he
  · exact absurd (hmore e he) hnot

section Views

variable {w : World} {me : CallId} {t : Turn}

theorem creating_create_iff {session : SessionId} {ct : CreationTurn} {call : Call}
    (hcall : w.calls[me]? = some call) (hspawned : t.spawned = none)
    (hcr : t.call.creation = ct.progress.creation session) {i : CallId} {s : SessionId} {c : Creation} :
    (w.turn me t).Creating i s c ↔
      (i = me ∧ s = session ∧ ct.progress = .goesOn c) ∨ (i ≠ me ∧ w.Creating i s c) := by
  constructor
  · intro h
    refine (creating_turn (fun d hd => by rw [hspawned] at hd; cases hd) h).imp_left
      fun ⟨hi, hc⟩ => ⟨hi, ?_⟩
    rw [hcr] at hc
    cases hp : ct.progress <;> rw [hp] at hc <;> cases hc
    exact ⟨rfl, rfl⟩
  · rintro (⟨rfl, rfl, hp⟩ | ⟨hne, d, hd, hc⟩)
    · exact ⟨t.call, replaceSlot_self hcall, by rw [hcr, hp]; rfl⟩
    · exact ⟨d, replaceSlot_ne hne hd, hc⟩

theorem creating_other_iff {call : Call} (hcall : w.calls[me]? = some call)
    (hnone : call.creation = none) (hcr : t.call.creation = none)
    (hspawned : ∀ d, t.spawned = some d → d.creation = none) {i : CallId} {s : SessionId}
    {c : Creation} : (w.turn me t).Creating i s c ↔ w.Creating i s c := by
  constructor
  · intro h
    rcases creating_turn hspawned h with ⟨_, hc⟩ | ⟨_, h⟩
    · rw [hcr] at hc
      cases hc
    · exact h
  · rintro ⟨d, hd, hc⟩
    have hne : i ≠ me := by
      rintro rfl
      cases hd.symm.trans hcall
      rw [hnone] at hc
      cases hc
    exact ⟨d, replaceSlot_ne hne hd, hc⟩

end Views

theorem Tracked.frame {w w' : World} (h : Tracked w) {more : List Effect}
    (hlog : w'.log = w.log ++ more) (hmore : ∀ e ∈ more, e.Plain)
    (hr : w'.co.runtimes = w.co.runtimes) (hq : w'.co.shutdownRequested = w.co.shutdownRequested)
    (hserial : w.serial ≤ w'.serial)
    (hcr : ∀ i s c rt, c.runtime = some rt → (w'.Creating i s c ↔ w.Creating i s c)) :
    Tracked w' := by
  have hold : ∀ {e : Effect}, e ∈ w'.log → ¬e.Plain → e ∈ w.log := fun he hnot =>
    mem_log_of_plain hmore (hlog ▸ he) hnot
  have hnew : ∀ {e : Effect}, e ∈ w.log → e ∈ w'.log := fun he => by
    rw [hlog]
    exact List.mem_append_left _ he
  have hgrow : ∀ {rt : RuntimeId}, (∃ n, rt = .built n ∧ n < w.serial) →
      ∃ n, rt = .built n ∧ n < w'.serial := fun ⟨n, hn, hlt⟩ => ⟨n, hn, Nat.lt_of_lt_of_le hlt hserial⟩
  refine ⟨fun hmem => ?_, fun i s c rt hc hrt => ?_, fun s rt hmem => ?_,
    fun i j s s' c c' rt hc hc' hrt hrt' => ?_, fun i s c rt hc hrt => ?_, fun s rt hmem => ?_,
    fun s rt hmem => ?_, fun s rt hsub hmem => ?_⟩
  · rw [hq]
    exact h.requested (hold hmem id)
  · exact hgrow (h.fresh i s c rt ((hcr i s c rt hrt).mp hc) hrt)
  · exact hgrow (h.logged s rt (hmem.imp (hold · id) (Or.imp (hold · id) (hold · id))))
  · exact h.apart i j s s' c c' rt ((hcr i s c rt hrt).mp hc) ((hcr j s' c' rt hrt').mp hc') hrt hrt'
  · obtain ⟨hs, hi⟩ := h.held i s c rt ((hcr i s c rt hrt).mp hc) hrt
    exact ⟨hnew hs, fun s' hmem => hi s' (hold hmem id)⟩
  · rcases h.returned s rt (hold hmem id) with ⟨i, c, hc, hrt, hb⟩ | hi | hs
    · exact Or.inl ⟨i, c, (hcr i s c rt hrt).mpr hc, hrt, hb⟩
    · exact Or.inr (Or.inl (hnew hi))
    · exact Or.inr (Or.inr (hnew hs))
  · rw [hr]
    exact (h.kept s rt (hold hmem id)).imp_right hnew
  · rw [hlog] at hsub
    exact h.late s rt (pair_of_append hsub fun hin => hmore _ hin) (hold hmem id)

section Create

variable {w w' : World} {me : CallId} {session : SessionId}

-- `w'` differs from `w` by a step of the creation of call `me`.
structure Moved (w w' : World) (me : CallId) (session : SessionId) (next : Option Creation)
    (more : List Effect) : Prop where
  log : w'.log = w.log ++ more
  serial : w'.serial = w.serial + 1
  creating : ∀ i s c, w'.Creating i s c ↔
    (i = me ∧ s = session ∧ next = some c) ∨ (i ≠ me ∧ w.Creating i s c)

theorem Moved.mem {next : Option Creation} {more : List Effect} (h : Moved w w' me session next more)
    {e : Effect} (he : e ∈ w.log) : e ∈ w'.log := by
  rw [h.log]
  exact List.mem_append_left _ he

theorem Moved.old {next : Option Creation} {x : Effect} (h : Moved w w' me session next [x])
    {e : Effect} (he : e ∈ w'.log) (hne : e ≠ x) : e ∈ w.log := by
  rw [h.log] at he
  rcases List.mem_append.mp he with he | he
  · exact he
  · exact absurd (List.mem_singleton.mp he) hne

theorem Moved.grow {next : Option Creation} {more : List Effect} (h : Moved w w' me session next more)
    {rt : RuntimeId} (hrt : ∃ n, rt = .built n ∧ n < w.serial) : ∃ n, rt = .built n ∧ n < w'.serial := by
  obtain ⟨n, hn, hlt⟩ := hrt
  exact ⟨n, hn, by rw [h.serial]; omega⟩

theorem Moved.hand {next : Option Creation} {more : List Effect} (h : Moved w w' me session next more)
    {creation : Creation} (hme : w.Creating me session creation) {s : SessionId} {rt : RuntimeId}
    (hin : w.InHand s rt) :
    w'.InHand s rt ∨ (s = session ∧ creation.runtime = some rt ∧ ∀ e, creation ≠ .building e rt) := by
  obtain ⟨i, c, ⟨call, hi, hc⟩, hrt, hb⟩ := hin
  by_cases him : i = me
  · subst him
    obtain ⟨call', hi', hc'⟩ := hme
    cases hi.symm.trans hi'
    cases hc.symm.trans hc'
    exact Or.inr ⟨rfl, hrt, hb⟩
  · exact Or.inl ⟨i, c, (h.creating i s c).mpr (Or.inr ⟨him, call, hi, hc⟩), hrt, hb⟩

theorem Tracked.started (h : Tracked w) (hco : w'.co = w.co) {epoch e₀ : Nat}
    (hme : w.Creating me session (.holding e₀))
    (hm : Moved w w' me session (some (.building epoch (.built w.serial)))
      [.factoryStarted session (.built w.serial)]) : Tracked w' := by
  have hnew : ∀ {rt : RuntimeId}, (∃ n, rt = .built n ∧ n < w.serial) → rt ≠ .built w.serial := by
    rintro rt ⟨n, rfl, hlt⟩ heq
    cases heq
    exact Nat.lt_irrefl _ hlt
  refine ⟨fun hmem => ?_, fun i s c rt hc hrt => ?_, fun s rt hmem => ?_,
    fun i j s s' c c' rt hc hc' hrt hrt' => ?_, fun i s c rt hc hrt => ?_, fun s rt hmem => ?_,
    fun s rt hmem => ?_, fun s rt hsub hmem => ?_⟩
  · rw [hco]
    exact h.requested (hm.old hmem (by simp))
  · rcases (hm.creating i s c).mp hc with ⟨_, _, hn⟩ | ⟨_, hc⟩
    · cases hn
      cases hrt
      exact ⟨w.serial, rfl, by rw [hm.serial]; omega⟩
    · exact hm.grow (h.fresh i s c rt hc hrt)
  · by_cases hrt : rt = .built w.serial
    · exact ⟨w.serial, hrt, by rw [hm.serial]; omega⟩
    · refine hm.grow (h.logged s rt (hmem.imp (hm.old · ?_) (Or.imp (hm.old · ?_) (hm.old · ?_)))) <;>
        simp [hrt]
  · rcases (hm.creating i s c).mp hc with ⟨rfl, _, hn⟩ | ⟨hi, hc⟩ <;>
      rcases (hm.creating j s' c').mp hc' with ⟨rfl, _, hn'⟩ | ⟨hj, hc'⟩
    · rfl
    · cases hn
      cases hrt
      exact absurd rfl (hnew (h.fresh j s' c' _ hc' hrt'))
    · cases hn'
      cases hrt'
      exact absurd rfl (hnew (h.fresh i s c _ hc hrt))
    · exact h.apart i j s s' c c' rt hc hc' hrt hrt'
  · rcases (hm.creating i s c).mp hc with ⟨_, rfl, hn⟩ | ⟨_, hc⟩
    · cases hn
      cases hrt
      refine ⟨by rw [hm.log]; simp, fun s' hmem => ?_⟩
      exact hnew (h.logged s' _ (Or.inr (Or.inr (hm.old hmem (by simp))))) rfl
    · obtain ⟨hs, hi⟩ := h.held i s c rt hc hrt
      exact ⟨hm.mem hs, fun s' hmem => hi s' (hm.old hmem (by simp))⟩
  · rcases h.returned s rt (hm.old hmem (by simp)) with hin | hi | hs
    · refine (hm.hand hme hin).imp_right fun ⟨_, hrt, _⟩ => ?_
      cases hrt
    · exact Or.inr (Or.inl (hm.mem hi))
    · exact Or.inr (Or.inr (hm.mem hs))
  · rw [hco]
    exact (h.kept s rt (hm.old hmem (by simp))).imp_right hm.mem
  · rw [hm.log] at hsub
    exact h.late s rt (pair_of_append hsub (by simp)) (hm.old hmem (by simp))

-- The factory returns, or the install section turns the runtime down: the
-- creation goes on with the runtime it had.
theorem Tracked.carried (h : Tracked w) (hr : w'.co.runtimes = w.co.runtimes)
    (hq : w'.co.shutdownRequested = w.co.shutdownRequested) {creation next : Creation}
    {runtime : RuntimeId} (hme : w.Creating me session creation)
    (hold : creation.runtime = some runtime) (hnext : next.runtime = some runtime)
    (hbuilt : ∀ e, next ≠ .building e runtime) {more : List Effect}
    (hmore : ∀ e ∈ more, e = .factoryReturned session runtime)
    (hm : Moved w w' me session (some next) more) : Tracked w' := by
  have hback : ∀ {e : Effect}, e ∈ w'.log → e ≠ .factoryReturned session runtime → e ∈ w.log := by
    intro e he hne
    rw [hm.log] at he
    rcases List.mem_append.mp he with he | he
    · exact he
    · exact absurd (hmore e he) hne
  -- every creation that answers for a runtime did so before
  have hcr : ∀ {i s c rt}, w'.Creating i s c → c.runtime = some rt →
      ∃ c₀, w.Creating i s c₀ ∧ c₀.runtime = some rt := by
    intro i s c rt hc hrt
    rcases (hm.creating i s c).mp hc with ⟨rfl, rfl, hn⟩ | ⟨_, hc⟩
    · cases hn
      exact ⟨creation, hme, hold.trans (hnext.symm.trans hrt)⟩
    · exact ⟨c, hc, hrt⟩
  have hhand : ∀ {s rt}, w.InHand s rt → w'.InHand s rt := by
    intro s rt hin
    rcases hm.hand hme hin with hin | ⟨rfl, hrt, _⟩
    · exact hin
    · cases hold.symm.trans hrt
      exact ⟨me, next, (hm.creating _ _ _).mpr (Or.inl ⟨rfl, rfl, rfl⟩), hnext, hbuilt⟩
  obtain ⟨hstarted, huninstalled⟩ := h.held me session creation runtime hme hold
  refine ⟨fun hmem => ?_, fun i s c rt hc hrt => ?_, fun s rt hmem => ?_,
    fun i j s s' c c' rt hc hc' hrt hrt' => ?_, fun i s c rt hc hrt => ?_, fun s rt hmem => ?_,
    fun s rt hmem => ?_, fun s rt hsub hmem => ?_⟩
  · rw [hq]
    exact h.requested (hback hmem (by simp))
  · obtain ⟨c₀, hc₀, hrt₀⟩ := hcr hc hrt
    exact hm.grow (h.fresh i s c₀ rt hc₀ hrt₀)
  · by_cases hrt : rt = runtime
    · exact hrt ▸ hm.grow (h.fresh me session creation runtime hme hold)
    · refine hm.grow (h.logged s rt (hmem.imp (hback · ?_) (Or.imp (hback · ?_) (hback · ?_)))) <;>
        simp [hrt]
  · obtain ⟨c₀, hc₀, hrt₀⟩ := hcr hc hrt
    obtain ⟨c₁, hc₁, hrt₁⟩ := hcr hc' hrt'
    exact h.apart i j s s' c₀ c₁ rt hc₀ hc₁ hrt₀ hrt₁
  · obtain ⟨c₀, hc₀, hrt₀⟩ := hcr hc hrt
    obtain ⟨hs, hi⟩ := h.held i s c₀ rt hc₀ hrt₀
    exact ⟨hm.mem hs, fun s' hmem => hi s' (hback hmem (by simp))⟩
  · by_cases heq : s = session ∧ rt = runtime
    · obtain ⟨rfl, rfl⟩ := heq
      exact Or.inl ⟨me, next, (hm.creating _ _ _).mpr (Or.inl ⟨rfl, rfl, rfl⟩), hnext, hbuilt⟩
    · have hmem' := hback hmem (by simpa using heq)
      exact (h.returned s rt hmem').imp hhand (Or.imp hm.mem hm.mem)
  · rw [hr]
    exact (h.kept s rt (hback hmem (by simp))).imp_right hm.mem
  · have hmem' := hback hmem (by simp)
    by_cases heq : rt = runtime
    · exact huninstalled s (heq ▸ hmem')
    · rw [hm.log] at hsub
      refine h.late s rt (pair_of_append hsub fun hin => heq ?_) hmem'
      have := hmore _ hin
      cases this
      rfl

-- The creation ends without installing: the factory raised, or the runtime
-- it turned down has been shut down.
theorem Tracked.dropped (h : Tracked w) (hr : w'.co.runtimes = w.co.runtimes)
    (hq : w'.co.shutdownRequested = w.co.shutdownRequested) {creation : Creation}
    {runtime : RuntimeId} (hme : w.Creating me session creation)
    (hold : creation.runtime = some runtime) {more : List Effect}
    (hmore : ∀ e ∈ more, e = .shutdownCalled runtime)
    (hshut : (∃ e, creation = .building e runtime) ∨ .shutdownCalled runtime ∈ more)
    (hm : Moved w w' me session none more) : Tracked w' := by
  have hback : ∀ {e : Effect}, e ∈ w'.log → e ≠ .shutdownCalled runtime → e ∈ w.log := by
    intro e he hne
    rw [hm.log] at he
    rcases List.mem_append.mp he with he | he
    · exact he
    · exact absurd (hmore e he) hne
  have hcr : ∀ {i s c}, w'.Creating i s c → w.Creating i s c := by
    intro i s c hc
    rcases (hm.creating i s c).mp hc with ⟨_, _, hn⟩ | ⟨_, hc⟩
    · cases hn
    · exact hc
  refine ⟨fun hmem => ?_, fun i s c rt hc hrt => hm.grow (h.fresh i s c rt (hcr hc) hrt),
    fun s rt hmem => ?_, fun i j s s' c c' rt hc hc' => h.apart i j s s' c c' rt (hcr hc) (hcr hc'),
    fun i s c rt hc hrt => ?_, fun s rt hmem => ?_, fun s rt hmem => ?_, fun s rt hsub hmem => ?_⟩
  · rw [hq]
    exact h.requested (hback hmem (by simp))
  · exact hm.grow (h.logged s rt (hmem.imp (hback · (by simp))
      (Or.imp (hback · (by simp)) (hback · (by simp)))))
  · obtain ⟨hs, hi⟩ := h.held i s c rt (hcr hc) hrt
    exact ⟨hm.mem hs, fun s' hmem => hi s' (hback hmem (by simp))⟩
  · rcases h.returned s rt (hback hmem (by simp)) with hin | hi | hs
    · refine (hm.hand hme hin).imp_right fun ⟨_, hrt, hb⟩ => ?_
      cases hold.symm.trans hrt
      rcases hshut with ⟨e, hbuilding⟩ | hshut
      · exact absurd hbuilding (hb e)
      · refine Or.inr ?_
        rw [hm.log]
        exact List.mem_append_right _ hshut
    · exact Or.inr (Or.inl (hm.mem hi))
    · exact Or.inr (Or.inr (hm.mem hs))
  · rw [hr]
    exact (h.kept s rt (hback hmem (by simp))).imp_right hm.mem
  · rw [hm.log] at hsub
    refine h.late s rt (pair_of_append hsub fun hin => ?_) (hback hmem (by simp))
    cases hmore _ hin

theorem Tracked.installed (h : Tracked w) {epoch : Nat} {runtime : RuntimeId}
    (hme : w.Creating me session (.built epoch runtime))
    (hnone : w.co.runtimes.get? session = none)
    (hr : w'.co.runtimes = w.co.runtimes.set session runtime)
    (hq : w'.co.shutdownRequested = w.co.shutdownRequested) (hopen : w.co.shutdownRequested = false)
    (hm : Moved w w' me session none [.installed session runtime]) : Tracked w' := by
  have hcr : ∀ {i s c}, w'.Creating i s c → i ≠ me ∧ w.Creating i s c := by
    intro i s c hc
    rcases (hm.creating i s c).mp hc with ⟨_, _, hn⟩ | hc
    · cases hn
    · exact hc
  refine ⟨fun hmem => ?_, fun i s c rt hc hrt => hm.grow (h.fresh i s c rt (hcr hc).2 hrt),
    fun s rt hmem => ?_, fun i j s s' c c' rt hc hc' => h.apart i j s s' c c' rt (hcr hc).2 (hcr hc').2,
    fun i s c rt hc hrt => ?_, fun s rt hmem => ?_, fun s rt hmem => ?_, fun s rt hsub hmem => ?_⟩
  · rw [hq]
    exact h.requested (hm.old hmem (by simp))
  · by_cases hrt : rt = runtime
    · exact hrt ▸ hm.grow (h.fresh me session _ runtime hme rfl)
    · refine hm.grow (h.logged s rt (hmem.imp (hm.old · ?_) (Or.imp (hm.old · ?_) (hm.old · ?_)))) <;>
        simp [hrt]
  · obtain ⟨hne, hc⟩ := hcr hc
    obtain ⟨hs, hi⟩ := h.held i s c rt hc hrt
    refine ⟨hm.mem hs, fun s' hmem => hi s' (hm.old hmem fun heq => hne ?_)⟩
    cases heq
    exact h.apart i me s session c _ runtime hc hme hrt rfl
  · rcases h.returned s rt (hm.old hmem (by simp)) with hin | hi | hs
    · refine (hm.hand hme hin).imp_right fun ⟨hs, hrt, _⟩ => Or.inl ?_
      cases hrt
      rw [hm.log, hs]
      simp
    · exact Or.inr (Or.inl (hm.mem hi))
    · exact Or.inr (Or.inr (hm.mem hs))
  · rw [hr]
    by_cases heq : s = session ∧ rt = runtime
    · obtain ⟨rfl, rfl⟩ := heq
      exact Or.inl (Dict.get?_set_self ..)
    · have hmem' := hm.old hmem (by simpa using heq)
      refine (h.kept s rt hmem').imp (fun hget => ?_) hm.mem
      have hne : s ≠ session := by
        rintro rfl
        rw [hnone] at hget
        cases hget
      rw [Dict.get?_set_ne _ _ hne]
      exact hget
  · rw [hm.log] at hsub
    have hsub' := pair_of_append hsub (by simp)
    by_cases heq : s = session ∧ rt = runtime
    · have := h.requested (hsub'.subset (by simp))
      rw [hopen] at this
      cases this
    · exact h.late s rt hsub' (hm.old hmem (by simpa using heq))

end Create

def Progress.next : Progress → Option Creation
  | .goesOn creation => some creation
  | _ => none

theorem Progress.next_eq_some {p : Progress} {c : Creation} : p.next = some c ↔ p = .goesOn c := by
  cases p <;> simp [Progress.next]

theorem Tracked.before {w w' : World} {me : CallId} {session : SessionId} (h : Tracked w)
    (hr : w'.co.runtimes = w.co.runtimes) (hq : w'.co.shutdownRequested = w.co.shutdownRequested)
    {creation : Creation} {next : Option Creation} (hme : w.Creating me session creation)
    (hold : creation.runtime = none) (hnext : ∀ c, next = some c → c.runtime = none)
    (hm : Moved w w' me session next []) : Tracked w' := by
  refine h.frame hm.log (by simp) hr hq (by rw [hm.serial]; omega) fun i s c rt hrt => ?_
  rw [hm.creating]
  constructor
  · rintro (⟨_, _, hn⟩ | ⟨_, hc⟩)
    · rw [hnext c hn] at hrt
      cases hrt
    · exact hc
  · rintro ⟨call, hi, hc⟩
    refine Or.inr ⟨?_, call, hi, hc⟩
    rintro rfl
    obtain ⟨call', hi', hc'⟩ := hme
    cases hi.symm.trans hi'
    cases hc.symm.trans hc'
    rw [hold] at hrt
    cases hrt

theorem Tracked.create {w : World} (h : Tracked w) (ho : Owned w) {me : CallId} {call : Call}
    {t : Turn} {session : SessionId} {creation : Creation} {ct : CreationTurn}
    (hcall : w.calls[me]? = some call) (hc : call.creation = some (session, creation))
    (hstep : CreationStep w.co w.serial me session creation ct) (hco : t.co = ct.co)
    (hlog : t.log = ct.log) (hspawned : t.spawned = none)
    (hcr : t.call.creation = ct.progress.creation session) : Tracked (w.turn me t) := by
  have hme : w.Creating me session creation := ⟨call, hcall, hc⟩
  have hmoved : Moved w (w.turn me t) me session ct.progress.next ct.log := by
    refine ⟨congrArg _ hlog, rfl, fun i s c => ?_⟩
    rw [creating_create_iff hcall hspawned hcr, Progress.next_eq_some]
  have hr : (w.turn me t).co.runtimes = ct.co.runtimes := congrArg _ hco
  have hq : (w.turn me t).co.shutdownRequested = ct.co.shutdownRequested := congrArg _ hco
  cases hstep with
  | found _ | queued _ _ | entered _ | refound _ =>
      exact h.before hr hq hme rfl (by rintro c ⟨⟩ <;> rfl) hmoved
  | started _ => exact h.started hco hme hmoved
  | returned => exact h.carried hr hq hme rfl rfl (by simp) (by simp) hmoved
  | raised => exact h.dropped hr hq hme rfl (by simp) (Or.inl ⟨_, rfl⟩) hmoved
  | installed he hs =>
      refine h.installed hme ?_ hr hq hs hmoved
      rcases ho.vacant me session _ _ _ hme rfl with hnone | hlt
      · exact hnone
      · omega
  | rejected _ => exact h.carried hr hq hme rfl rfl (by simp) (by simp) hmoved
  | discarded => exact h.dropped hr hq hme rfl (by simp) (Or.inr (by simp)) hmoved

def Effect.Displacing : Effect → Prop
  | .released _ | .invalidated _ | .replaced _ | .removed _ _ | .shutdownRequested
  | .shutdownReturned _ => True
  | _ => False

theorem Tracked.rearrange {w w' : World} (h : Tracked w) {more : List Effect}
    (hlog : w'.log = w.log ++ more)
    (hmore : ∀ e ∈ more, e.Displacing)
    (hq : w.co.shutdownRequested = true ∨ .shutdownRequested ∈ more → w'.co.shutdownRequested = true)
    (hkept : ∀ s rt, .installed s rt ∈ w.log → w.co.runtimes.get? s = some rt →
      w'.co.runtimes.get? s = some rt ∨ .removed s rt ∈ more)
    (hserial : w.serial ≤ w'.serial)
    (hcr : ∀ i s c, w'.Creating i s c ↔ w.Creating i s c) : Tracked w' := by
  have hnew : ∀ {e : Effect}, e ∈ w.log → e ∈ w'.log := fun he => by
    rw [hlog]
    exact List.mem_append_left _ he
  have hold : ∀ {e : Effect}, e ∈ w'.log → e ∉ more → e ∈ w.log := fun he hnot => by
    rw [hlog] at he
    exact (List.mem_append.mp he).resolve_right hnot
  have hs : ∀ {s rt}, .factoryStarted s rt ∈ w'.log → .factoryStarted s rt ∈ w.log := fun he =>
    hold he fun hin => hmore _ hin
  have hf : ∀ {s rt}, .factoryReturned s rt ∈ w'.log → .factoryReturned s rt ∈ w.log := fun he =>
    hold he fun hin => hmore _ hin
  have hi : ∀ {s rt}, .installed s rt ∈ w'.log → .installed s rt ∈ w.log := fun he =>
    hold he fun hin => hmore _ hin
  refine ⟨fun hmem => ?_, fun i s c rt hc hrt => ?_, fun s rt hmem => ?_,
    fun i j s s' c c' rt hc hc' => h.apart i j s s' c c' rt ((hcr i s c).mp hc) ((hcr j s' c').mp hc'),
    fun i s c rt hc hrt => ?_, fun s rt hmem => ?_, fun s rt hmem => ?_, fun s rt hsub hmem => ?_⟩
  · rw [hlog] at hmem
    exact hq ((List.mem_append.mp hmem).imp_left h.requested)
  · obtain ⟨n, hn, hlt⟩ := h.fresh i s c rt ((hcr i s c).mp hc) hrt
    exact ⟨n, hn, Nat.lt_of_lt_of_le hlt hserial⟩
  · obtain ⟨n, hn, hlt⟩ := h.logged s rt (hmem.imp hs (Or.imp hf hi))
    exact ⟨n, hn, Nat.lt_of_lt_of_le hlt hserial⟩
  · obtain ⟨hs', hi'⟩ := h.held i s c rt ((hcr i s c).mp hc) hrt
    exact ⟨hnew hs', fun s' hmem => hi' s' (hi hmem)⟩
  · refine (h.returned s rt (hf hmem)).imp (fun ⟨i, c, hc, hrt, hb⟩ => ?_) (Or.imp hnew hnew)
    exact ⟨i, c, (hcr i s c).mpr hc, hrt, hb⟩
  · rcases h.kept s rt (hi hmem) with hget | hrem
    · refine (hkept s rt (hi hmem) hget).imp_right fun hin => ?_
      rw [hlog]
      exact List.mem_append_right _ hin
    · exact Or.inr (hnew hrem)
  · rw [hlog] at hsub
    exact h.late s rt (pair_of_append hsub fun hin => hmore _ hin) (hi hmem)

theorem mem_removal {session s : SessionId} {previous : Option RuntimeId} {rt : RuntimeId} :
    .removed s rt ∈ removal session previous ↔ s = session ∧ previous = some rt := by
  cases previous with
  | none => simp [removal]
  | some runtime =>
      simp only [removal, Option.map_some, Option.toList_some, List.mem_singleton, Effect.removed.injEq,
        Option.some.injEq]
      exact and_congr_right fun _ => eq_comm

theorem removal_cases {session : SessionId} {previous : Option RuntimeId} {e : Effect}
    (h : e ∈ removal session previous) : ∃ rt, e = .removed session rt := by
  simp only [removal, Option.mem_toList, Option.map_eq_some_iff] at h
  obtain ⟨rt, _, rfl⟩ := h
  exact ⟨rt, rfl⟩

theorem displacing_cons {e : Effect} (he : e.Displacing) {session : SessionId}
    {previous : Option RuntimeId} : ∀ x ∈ e :: removal session previous, x.Displacing := by
  intro x hx
  rcases List.mem_cons.mp hx with rfl | hx
  · exact he
  · obtain ⟨rt, rfl⟩ := removal_cases hx
    trivial

theorem Tracked.other {w : World} (h : Tracked w) {me : CallId} {o : Outcome} {call : Call}
    {t : Turn} (hcall : w.calls[me]? = some call) (hc : call.creation = none)
    (hnext : call.next w me o = some t) : Tracked (w.turn me t) := by
  obtain ⟨htc, _, hspawned⟩ := other_calls hc hnext
  have hcr : ∀ i s c, (w.turn me t).Creating i s c ↔ w.Creating i s c := fun i s c =>
    creating_other_iff hcall hc htc fun d hd => (hspawned d hd).1
  cases other_turn hc hnext with
  | plain hco hlog _ =>
      exact h.frame rfl hlog hco.runtimes hco.requested (Nat.le_succ _) fun i s c _ _ => hcr i s c
  | requested hco hlog _ =>
      refine h.rearrange (congrArg _ hlog) (by simp [Effect.Displacing]) (fun _ => hco.requested)
        (fun s rt _ hget => Or.inl ?_) (Nat.le_succ _) hcr
      exact (congrArg (Dict.get? · s) hco.runtimes).trans hget
  | detached session _ _ _ hco hlog _ =>
      refine h.rearrange (congrArg _ hlog) (displacing_cons (by trivial)) (fun hq => ?_) (fun s rt _ hget => ?_)
        (Nat.le_succ _) hcr
      · refine hco.requested.trans (hq.resolve_right fun hin => ?_)
        obtain ⟨rt, hrt⟩ := removal_cases ((List.mem_cons.mp hin).resolve_left (by simp))
        cases hrt
      · by_cases hs : s = session
        · subst hs
          exact Or.inr (List.mem_cons_of_mem _ (mem_removal.mpr ⟨rfl, hget⟩))
        · exact Or.inl ((congrArg (Dict.get? · s) hco.runtimes).trans
            ((Dict.get?_erase_ne _ hs).trans hget))
  | bumped session _ _ _ _ hco hlog _ =>
      refine h.rearrange (congrArg _ hlog) (by simp [Effect.Displacing]) (fun hq => ?_)
        (fun s rt _ hget => Or.inl ?_) (Nat.le_succ _) hcr
      · exact hco.requested.trans (hq.resolve_right (by simp))
      · exact (congrArg (Dict.get? · s) hco.runtimes).trans hget
  | replaced session _ runtime _ _ hco hlog _ =>
      refine h.rearrange (congrArg _ hlog) (displacing_cons (by trivial)) (fun hq => ?_) (fun s rt _ hget => ?_)
        (Nat.le_succ _) hcr
      · refine hco.requested.trans (hq.resolve_right fun hin => ?_)
        obtain ⟨rt, hrt⟩ := removal_cases ((List.mem_cons.mp hin).resolve_left (by simp))
        cases hrt
      · by_cases hs : s = session
        · subst hs
          exact Or.inr (List.mem_cons_of_mem _ (mem_removal.mpr ⟨rfl, hget⟩))
        · exact Or.inl ((congrArg (Dict.get? · s) hco.runtimes).trans
            ((Dict.get?_set_ne _ _ hs).trans hget))
  | cleared _ hco hlog _ =>
      refine h.rearrange (congrArg _ hlog) (fun e he => ?_) (fun hq => ?_) (fun s rt _ hget => Or.inr ?_)
        (Nat.le_succ _) hcr
      · rcases List.mem_append.mp he with he | he
        · obtain ⟨entry, _, rfl⟩ := List.mem_map.mp he
          trivial
        · rw [List.mem_singleton.mp he]
          trivial
      · exact hco.requested.trans (hq.resolve_right (by simp))
      · exact List.mem_append_left _ (List.mem_map.mpr ⟨(s, rt), Dict.mem_entries_iff.mpr hget, rfl⟩)

theorem next_tracked {w w' : World} (h : Tracked w) (ho : Owned w) {a : Action}
    (hstep : w.next a = some w') : Tracked w' := by
  rcases (world_step hstep).view with henter | ⟨me, o, call, t, _, hcall, hnext, rfl⟩
  · obtain ⟨more, hlog, hmore⟩ := henter.log
    refine h.frame hlog hmore henter.maps.runtimes henter.maps.requested henter.serial
      fun i s c rt hrt => ⟨fun hc => ?_, fun ⟨call, hi, hc⟩ => ?_⟩
    · rcases henter.creating hc with hc | rfl
      · exact hc
      · cases hrt
    · rcases henter.calls with heq | ⟨new, heq, _⟩
      · exact ⟨call, heq ▸ hi, hc⟩
      · refine ⟨call, ?_, hc⟩
        rw [heq, List.getElem?_append_left (List.getElem?_eq_some_iff.mp hi).1]
        exact hi
  · cases hc : call.creation with
    | none => exact h.other hcall hc hnext
    | some sc =>
        obtain ⟨ct, hct, hco, hlog, hspawned, hcr, _⟩ := creation_turn hc hnext
        exact h.create ho hcall hc hct hco hlog hspawned hcr

theorem reachable_tracked {capacity : Nat} {abortTimeout : Time} {w : World}
    (h : (sessionMachine capacity abortTimeout).Reachable w) : Tracked w := by
  refine (h.invariant_with (P := Tracked) reachable_owned ?_ fun s a t hs ho hstep =>
    next_tracked hs ho hstep)
  refine ⟨?_, ?_, ?_, ?_, ?_, ?_, ?_, ?_⟩ <;> simp [sessionMachine, World.Creating]

end GaHub.Sessions
