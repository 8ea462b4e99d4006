import GaHub.Sessions.Creation

namespace GaHub.Sessions

open Lib

def World.Releasing (w : World) (session : SessionId) : Prop :=
  ∃ (i : CallId) (call : Call), w.calls[i]? = some call ∧ call.unbumped session = true

-- The step installs a runtime for a session whose release has popped the old
-- one and not yet bumped the epoch.
def installsIntoRelease (w : World) : Action → Bool
  | .step me _ =>
      match w.calls[me]?.bind Call.creation with
      | some (session, .built epoch _) =>
          decide (w.co.epoch session = epoch) && !w.co.shutdownRequested &&
            w.calls.any (Call.unbumped session)
      | _ => false
  | _ => false

-- The ways a session's runtime is taken away from the creations in flight.
def displacements (session : SessionId) : List Effect :=
  [.released session, .invalidated session, .replaced session]

-- A runtime whose factory call was overtaken by a displacement stays out.
structure Undisturbed (w : World) : Prop where
  overtaken : ∀ i s c e rt ev, w.Creating i s c → c.pending = some (e, rt) → ev ∈ displacements s →
    [.factoryStarted s rt, ev].Sublist w.log → e < w.co.epoch s ∨ w.Releasing s
  stale : ∀ s rt ev, ev ∈ displacements s → [.factoryStarted s rt, ev].Sublist w.log →
    .installed s rt ∈ w.log → [.installed s rt, ev].Sublist w.log
  emptied : ∀ s, w.Releasing s → w.co.runtimes.get? s = none
  gone : ∀ s rt ev, ev ∈ displacements s → [.factoryStarted s rt, ev].Sublist w.log →
    w.co.runtimes.get? s ≠ some rt

theorem Undisturbed.frame {w w' : World} (h : Undisturbed w) {more : List Effect}
    (hlog : w'.log = w.log ++ more) (hmore : ∀ e ∈ more, ∀ s, e ∉ displacements s)
    (hinst : ∀ s rt, .installed s rt ∉ more)
    (hr : ∀ s rt, w'.co.runtimes.get? s = some rt → w.co.runtimes.get? s = some rt)
    (he : ∀ s, w.co.epoch s ≤ w'.co.epoch s) (hrel : ∀ s, w'.Releasing s ↔ w.Releasing s)
    (hp : ∀ i s c e rt, w'.Creating i s c → c.pending = some (e, rt) →
      (∃ i c, w.Creating i s c ∧ c.pending = some (e, rt)) ∨ .factoryStarted s rt ∉ w.log) :
    Undisturbed w' := by
  have hsub : ∀ {s rt ev}, ev ∈ displacements s → [.factoryStarted s rt, ev].Sublist w'.log →
      [.factoryStarted s rt, ev].Sublist w.log := fun {s rt ev} hev hsub => by
    rw [hlog] at hsub
    exact pair_of_append hsub fun hin => hmore ev hin s hev
  refine ⟨fun i s c e rt ev hc hpe hev hs => ?_, fun s rt ev hev hs hmem => ?_, fun s hs => ?_,
    fun s rt ev hev hs hget => h.gone s rt ev hev (hsub hev hs) (hr s rt hget)⟩
  · rcases hp i s c e rt hc hpe with ⟨i, c, hc, hpe⟩ | hnew
    · refine (h.overtaken i s c e rt ev hc hpe hev (hsub hev hs)).imp (fun hlt => ?_) (hrel s).mpr
      exact Nat.lt_of_lt_of_le hlt (he s)
    · exact absurd ((hsub hev hs).subset (by simp)) hnew
  · have hmem' : .installed s rt ∈ w.log := by
      rw [hlog] at hmem
      exact (List.mem_append.mp hmem).resolve_right (hinst s rt)
    rw [hlog]
    exact ordered_grow (h.stale s rt ev hev (hsub hev hs) hmem')
  · cases hget : w'.co.runtimes.get? s with
    | none => rfl
    | some rt =>
        have := hr s rt hget
        rw [h.emptied s ((hrel s).mp hs)] at this
        cases this

section Turns

variable {w : World} {me : CallId} {call : Call} {t : Turn}

theorem releasing_turn_iff (hcall : w.calls[me]? = some call)
    (hspawned : ∀ d, t.spawned = some d → ∀ s, d.unbumped s = false) {s : SessionId}
    (hun : t.call.unbumped s = call.unbumped s) : (w.turn me t).Releasing s ↔ w.Releasing s := by
  constructor
  · rintro ⟨i, d, hi, hd⟩
    rcases replaceSlot_cases hi with ⟨rfl, rfl⟩ | ⟨_, hi⟩ | ⟨_, hsp⟩
    · exact ⟨i, call, hcall, hun.symm.trans hd⟩
    · exact ⟨i, d, hi, hd⟩
    · rw [hspawned d hsp s] at hd
      cases hd
  · rintro ⟨i, d, hi, hd⟩
    by_cases him : i = me
    · subst him
      cases hi.symm.trans hcall
      exact ⟨i, t.call, replaceSlot_self hcall, hun.trans hd⟩
    · exact ⟨i, d, replaceSlot_ne him hi, hd⟩

theorem Undisturbed.installed {w' : World} (h : Undisturbed w) {session : SessionId} {epoch : Nat}
    {runtime : RuntimeId} (hme : w.Creating me session (.built epoch runtime))
    (hepoch : w.co.epoch session = epoch) (hquiet : ¬w.Releasing session)
    (hlog : w'.log = w.log ++ [.installed session runtime])
    (hr : w'.co.runtimes = w.co.runtimes.set session runtime)
    (he : ∀ s, w'.co.epoch s = w.co.epoch s) (hrel : ∀ s, w'.Releasing s ↔ w.Releasing s)
    (hc : ∀ i s c, w'.Creating i s c → w.Creating i s c) : Undisturbed w' := by
  have hsub : ∀ {s rt ev}, ev ∈ displacements s → [.factoryStarted s rt, ev].Sublist w'.log →
      [.factoryStarted s rt, ev].Sublist w.log := fun {s rt ev} hev hsub => by
    rw [hlog] at hsub
    refine pair_of_append hsub fun hin => ?_
    rw [List.mem_singleton.mp hin] at hev
    simp [displacements] at hev
  -- nothing displaced this session since the factory call began
  have hclean : ∀ ev, ev ∈ displacements session →
      ¬[.factoryStarted session runtime, ev].Sublist w.log := by
    intro ev hev hs
    rcases h.overtaken me session _ epoch runtime ev hme rfl hev hs with hlt | hrel
    · omega
    · exact hquiet hrel
  refine ⟨fun i s c e rt ev hcr hp hev hs => ?_, fun s rt ev hev hs hmem => ?_, fun s hs => ?_,
    fun s rt ev hev hs hget => ?_⟩
  · rw [he, hrel]
    exact h.overtaken i s c e rt ev (hc i s c hcr) hp hev (hsub hev hs)
  · rw [hlog] at hmem ⊢
    rcases List.mem_append.mp hmem with hmem | hmem
    · exact ordered_grow (h.stale s rt ev hev (hsub hev hs) hmem)
    · cases List.mem_singleton.mp hmem
      exact absurd (hsub hev hs) (hclean ev hev)
  · have hs' := (hrel s).mp hs
    have hne : s ≠ session := fun heq => hquiet (heq ▸ hs')
    rw [hr, Dict.get?_set_ne _ _ hne]
    exact h.emptied s hs'
  · rw [hr, Dict.get?_set] at hget
    split at hget
    · rename_i heq
      subst heq
      cases hget
      exact hclean ev hev (hsub hev hs)
    · exact h.gone s rt ev hev (hsub hev hs) hget

theorem Undisturbed.create (h : Undisturbed w) (ht : Tracked w) {session : SessionId}
    {creation : Creation} {ct : CreationTurn} (hcall : w.calls[me]? = some call)
    (hc : call.creation = some (session, creation))
    (hok : ∀ e rt, creation = .built e rt → w.co.epoch session = e →
      w.co.shutdownRequested = false → ¬w.Releasing session)
    (hstep : CreationStep w.co w.serial me session creation ct) (hco : t.co = ct.co)
    (hlog : t.log = ct.log) (hspawned : t.spawned = none)
    (hcr : t.call.creation = ct.progress.creation session)
    (hun : ∀ s, t.call.unbumped s = false) : Undisturbed (w.turn me t) := by
  have hme : w.Creating me session creation := ⟨call, hcall, hc⟩
  have hrel : ∀ s, (w.turn me t).Releasing s ↔ w.Releasing s := by
    intro s
    refine releasing_turn_iff hcall (fun d hd => ?_) ?_
    · rw [hspawned] at hd
      cases hd
    · rw [hun]
      cases call with
      | control _ _ pc => cases pc <;> first | rfl | cases hc
      | _ => rfl
  have hiff : ∀ i s c, (w.turn me t).Creating i s c ↔
      (i = me ∧ s = session ∧ ct.progress = .goesOn c) ∨ (i ≠ me ∧ w.Creating i s c) :=
    fun i s c => creating_create_iff hcall hspawned hcr
  have hlog' : (w.turn me t).log = w.log ++ ct.log := congrArg _ hlog
  have hco' : (w.turn me t).co = ct.co := hco
  cases hstep with
  | installed hepoch hopen =>
      refine h.installed hme hepoch (hok _ _ rfl hepoch hopen) hlog' (by rw [hco']) (fun s => ?_) hrel ?_
      · rw [hco']
        rfl
      · intro i s c hcr'
        rcases (hiff i s c).mp hcr' with ⟨_, _, hgo⟩ | ⟨_, hcr'⟩
        · cases hgo
        · exact hcr'
  | started hr =>
      refine h.frame hlog' (by simp [displacements]) (by simp) (fun s rt hget => ?_) (fun s => ?_) hrel ?_
      · rw [hco'] at hget
        exact hget
      · have hepoch := congrArg (fun co => co.epoch s) hco'
        exact Nat.le_of_eq hepoch.symm
      · intro i s c e rt hcr' hp
        rcases (hiff i s c).mp hcr' with ⟨_, rfl, hgo⟩ | ⟨_, hcr'⟩
        · cases hgo
          cases hp
          refine Or.inr fun hmem => ?_
          obtain ⟨n, hn, hlt⟩ := ht.logged _ _ (Or.inl hmem)
          cases hn
          exact Nat.lt_irrefl _ hlt
        · exact Or.inl ⟨i, c, hcr', hp⟩
  | returned =>
      refine h.frame hlog' (by simp [displacements]) (by simp) (fun s rt hget => ?_) (fun s => ?_) hrel ?_
      · rw [hco'] at hget
        exact hget
      · have hepoch := congrArg (fun co => co.epoch s) hco'
        exact Nat.le_of_eq hepoch.symm
      · intro i s c e rt hcr' hp
        rcases (hiff i s c).mp hcr' with ⟨_, rfl, hgo⟩ | ⟨_, hcr'⟩
        · cases hgo
          exact Or.inl ⟨me, _, hme, hp⟩
        · exact Or.inl ⟨i, c, hcr', hp⟩
  | _ =>
      refine h.frame hlog' (by simp [displacements]) (by simp) (fun s rt hget => ?_) (fun s => ?_) hrel ?_
      · rw [hco'] at hget
        exact hget
      · have hepoch := congrArg (fun co => co.epoch s) hco'
        exact Nat.le_of_eq hepoch.symm
      · intro i s c e rt hcr' hp
        rcases (hiff i s c).mp hcr' with ⟨_, rfl, hgo⟩ | ⟨_, hcr'⟩
        · cases hgo <;> cases hp
        · exact Or.inl ⟨i, c, hcr', hp⟩

-- A displacement of `session`: the creations in flight for it lose their
-- epoch, or their release is still under way, and it has no factory runtime left.
theorem Undisturbed.displaced {w' : World} (h : Undisturbed w) {session : SessionId}
    {ev : Effect} {rest : List Effect} (hev : ev ∈ displacements session)
    (hrest : ∀ e ∈ rest, ∃ rt, e = .removed session rt)
    (hlog : w'.log = w.log ++ ev :: rest)
    (hother : ∀ s, s ≠ session → w'.co.runtimes.get? s = w.co.runtimes.get? s ∧
      w'.co.epoch s = w.co.epoch s ∧ (w'.Releasing s ↔ w.Releasing s))
    (hself : (∀ i c e rt, w'.Creating i session c → c.pending = some (e, rt) →
      e < w'.co.epoch session) ∨ w'.Releasing session)
    (hemptied : w'.Releasing session → w'.co.runtimes.get? session = none)
    (hgone : ∀ rt, .factoryStarted session rt ∈ w.log → w'.co.runtimes.get? session ≠ some rt)
    (hcr : ∀ i s c, w'.Creating i s c → w.Creating i s c) : Undisturbed w' := by
  have hsub : ∀ {s rt ev'}, ev' ≠ ev → ev' ∈ displacements s →
      [.factoryStarted s rt, ev'].Sublist w'.log → [.factoryStarted s rt, ev'].Sublist w.log := by
    intro s rt ev' hne hev' hsub
    rw [hlog] at hsub
    refine pair_of_append hsub fun hin => ?_
    obtain ⟨rt', rfl⟩ := hrest ev' ((List.mem_cons.mp hin).resolve_left hne)
    simp [displacements] at hev'
  have hold : ∀ {e : Effect}, e ∈ w'.log → e ∉ displacements session →
      (∀ rt, e ≠ .removed session rt) → e ∈ w.log := by
    intro e he hne hrem
    rw [hlog] at he
    rcases List.mem_append.mp he with he | he
    · exact he
    · rcases List.mem_cons.mp he with rfl | he
      · exact absurd hev hne
      · obtain ⟨rt, rfl⟩ := hrest e he
        exact absurd rfl (hrem rt)
  have hdiff : ∀ {s ev'}, s ≠ session → ev' ∈ displacements s → ev' ≠ ev := by
    rintro s ev' hne hev' rfl
    simp only [displacements, List.mem_cons, List.not_mem_nil, or_false] at hev hev'
    rcases hev with rfl | rfl | rfl <;> simp [Ne.symm hne] at hev'
  refine ⟨fun i s c e rt ev' hc hp hev' hs => ?_, fun s rt ev' hev' hs hmem => ?_, fun s hs => ?_,
    fun s rt ev' hev' hs => ?_⟩
  · by_cases hne : s = session
    · subst hne
      exact hself.imp_left fun hlt => hlt i c e rt hc hp
    · obtain ⟨_, he, hrel⟩ := hother s hne
      rw [he, hrel]
      exact h.overtaken i s c e rt ev' (hcr i s c hc) hp hev' (hsub (hdiff hne hev') hev' hs)
  · have hmem' : .installed s rt ∈ w.log := hold hmem (by simp [displacements]) (by simp)
    rw [hlog]
    by_cases hsame : ev' = ev
    · subst hsame
      exact pair_of_mem hmem' (List.mem_cons_self ..)
    · exact ordered_grow (h.stale s rt ev' hev' (hsub hsame hev' hs) hmem')
  · by_cases hne : s = session
    · subst hne
      exact hemptied hs
    · obtain ⟨hr, _, hrel⟩ := hother s hne
      rw [hr]
      exact h.emptied s (hrel.mp hs)
  · by_cases hne : s = session
    · subst hne
      exact hgone rt (hold (hs.subset (by simp)) (by simp [displacements]) (by simp))
    · rw [(hother s hne).1]
      exact h.gone s rt ev' hev' (hsub (hdiff hne hev') hev' hs)

theorem reserved_of_unbumped {d : Call} {s : SessionId} (h : d.unbumped s = true) :
    ∃ op, d.reserved = some (s, op) := by
  cases d with
  | control s' op pc =>
      cases pc with
      | detached previous shutdown => exact ⟨op, by rw [← of_decide_eq_true h]; rfl⟩
      | _ => cases h
  | _ => cases h

theorem released_mem (session : SessionId) : .released session ∈ displacements session := by
  simp [displacements]

theorem invalidated_mem (session : SessionId) : .invalidated session ∈ displacements session := by
  simp [displacements]

theorem replaced_mem (session : SessionId) : .replaced session ∈ displacements session := by
  simp [displacements]

theorem Undisturbed.other (h : Undisturbed w) (ht : Tracked w) (ho : Owned w) (hres : Reserved w)
    {o : Outcome} (hcall : w.calls[me]? = some call) (hc : call.creation = none)
    (hnext : call.next w me o = some t) : Undisturbed (w.turn me t) := by
  obtain ⟨htc, hkeep, hspawned⟩ := other_calls hc hnext
  have hiff : ∀ i s c, (w.turn me t).Creating i s c ↔ w.Creating i s c := fun i s c =>
    creating_other_iff hcall hc htc fun d hd => (hspawned d hd).1
  have hpend : ∀ i s c e rt, (w.turn me t).Creating i s c → c.pending = some (e, rt) →
      (∃ i c, w.Creating i s c ∧ c.pending = some (e, rt)) ∨ .factoryStarted s rt ∉ w.log :=
    fun i s c e rt hcr hp => Or.inl ⟨i, c, (hiff i s c).mp hcr, hp⟩
  have hlt : ∀ {s i c e rt}, (w.turn me t).Creating i s c → c.pending = some (e, rt) →
      e ≤ w.co.epoch s := by
    intro s i c e rt hcr hp
    refine ho.epochs i s c e ((hiff i s c).mp hcr) ?_
    cases c <;> cases hp <;> rfl
  have hrel : (∀ s, t.call.unbumped s = call.unbumped s) →
      ∀ s, (w.turn me t).Releasing s ↔ w.Releasing s := fun hun s =>
    releasing_turn_iff hcall (fun d hd => (hspawned d hd).2.2) (hun s)
  have hget : ∀ {d : Dict SessionId RuntimeId}, t.co.runtimes = d →
      ∀ s, (w.turn me t).co.runtimes.get? s = d.get? s := fun heq s => congrArg (Dict.get? · s) heq
  have hep : t.co.runtimeEpoch = w.co.runtimeEpoch → ∀ s, (w.turn me t).co.epoch s = w.co.epoch s :=
    fun heq s => epoch_congr heq s
  have hbump : ∀ session, t.co.runtimeEpoch = (w.co.bumpEpoch session).runtimeEpoch →
      ∀ s, (w.turn me t).co.epoch s = if s = session then w.co.epoch s + 1 else w.co.epoch s :=
    fun session heq s => (epoch_congr heq s).trans (epoch_bump w.co session s)
  have hmine : ∀ {s op}, call.reserved = some (s, op) → ∀ {s'}, s' ≠ s →
      ((w.turn me t).Releasing s' ↔ w.Releasing s') := by
    intro s op hr s' hne
    refine releasing_turn_iff hcall (fun d hd => (hspawned d hd).2.2) ?_
    have hfalse : ∀ d : Call, (∀ r, d.reserved = some r → call.reserved = some r) →
        d.unbumped s' = false := by
      intro d hd
      cases hun : d.unbumped s' with
      | false => rfl
      | true =>
          obtain ⟨op', hr'⟩ := reserved_of_unbumped hun
          have := hr.symm.trans (hd _ hr')
          cases this
          exact absurd rfl hne
    rw [hfalse _ hkeep, hfalse call fun _ => id]
  -- whoever releases a session is the only one to hold its control
  have hsole : ∀ {s op}, call.reserved = some (s, op) → t.call.unbumped s = false →
      ¬(w.turn me t).Releasing s := by
    rintro s op hr hun ⟨i, d, hi, hd⟩
    rcases replaceSlot_cases hi with ⟨rfl, rfl⟩ | ⟨hne, hi⟩ | ⟨_, hsp⟩
    · rw [hun] at hd
      cases hd
    · obtain ⟨op', hr'⟩ := reserved_of_unbumped hd
      exact hne (hres.apart i me d call s hi hcall (by simp [hr']) (by simp [hr]))
    · rw [(hspawned d hsp).2.2] at hd
      cases hd
  cases other_turn hc hnext with
  | plain hco hlog hun =>
      refine h.frame rfl (fun e he s hev => ?_) (fun s rt hin => hlog _ hin) (fun s rt hg => ?_)
        (fun s => Nat.le_of_eq (hep hco.epochs s).symm) (hrel hun) hpend
      · have hplain := hlog e he
        simp only [displacements, List.mem_cons, List.not_mem_nil, or_false] at hev
        rcases hev with rfl | rfl | rfl <;> exact hplain
      · rw [hget hco.runtimes] at hg
        exact hg
  | requested hco hlog hun =>
      refine h.frame (congrArg _ hlog) (by simp [displacements]) (by simp) (fun s rt hg => ?_)
        (fun s => Nat.le_of_eq (hep hco.epochs s).symm) (hrel hun) hpend
      rw [hget hco.runtimes] at hg
      exact hg
  | cleared _ hco hlog hun =>
      refine h.frame (congrArg _ hlog) (fun e he s hev => ?_) (by simp) (fun s rt hg => ?_)
        (fun s => Nat.le_of_eq (hep hco.epochs s).symm) (hrel hun) hpend
      · rcases List.mem_append.mp he with he | he
        · obtain ⟨entry, _, rfl⟩ := List.mem_map.mp he
          simp [displacements] at hev
        · rw [List.mem_singleton.mp he] at hev
          simp [displacements] at hev
      · rw [hget hco.runtimes] at hg
        cases hg
  | detached session operation _ hcall' hco hlog hun =>
      have hr : call.reserved = some (session, operation) := by rw [hcall']; rfl
      have hempty : (w.turn me t).co.runtimes.get? session = none := by
        rw [hget hco.runtimes, Dict.get?_erase_self]
      refine h.displaced (released_mem session) (fun e he => removal_cases he) (congrArg _ hlog)
        (fun s hne => ⟨?_, hep hco.epochs s, hmine hr hne⟩) ?_ (fun _ => hempty) (fun rt _ => ?_)
        fun i s c => (hiff i s c).mp
      · rw [hget hco.runtimes, Dict.get?_erase_ne _ hne]
      · exact Or.inr ⟨me, t.call, replaceSlot_self hcall, by simp [hun]⟩
      · simp [hempty]
  | bumped session operation previous shutdown hcall' hco hlog hun =>
      have hr : call.reserved = some (session, operation) := by rw [hcall']; rfl
      have hempty : w.co.runtimes.get? session = none :=
        h.emptied session ⟨me, call, hcall, by simp [hcall', Call.unbumped]⟩
      refine h.displaced (invalidated_mem session) (by simp) (congrArg _ hlog)
        (fun s hne => ⟨?_, ?_, hmine hr hne⟩) (Or.inl fun i c e rt hcr hp => ?_)
        (fun hrel => absurd hrel (hsole hr (hun session))) (fun rt _ => ?_) fun i s c => (hiff i s c).mp
      · rw [hget hco.runtimes]
        rfl
      · rw [hbump session hco.epochs, if_neg hne]
      · rw [hbump session hco.epochs, if_pos rfl]
        exact Nat.lt_succ_of_le (hlt hcr hp)
      · rw [hget hco.runtimes]
        exact fun hsome => by simp [SessionCoordinator.bumpEpoch, hempty] at hsome
  | replaced session operation prepared _ hcall' hco hlog hun =>
      have hr : call.reserved = some (session, operation) := by rw [hcall']; rfl
      refine h.displaced (replaced_mem session) (fun e he => removal_cases he) (congrArg _ hlog)
        (fun s hne => ⟨?_, ?_, hmine hr hne⟩) (Or.inl fun i c e rt hcr hp => ?_)
        (fun hrel => absurd hrel (hsole hr (hun session))) (fun rt hmem => ?_) fun i s c => (hiff i s c).mp
      · rw [hget hco.runtimes, Dict.get?_set_ne _ _ hne]
      · rw [hbump session hco.epochs, if_neg hne]
      · rw [hbump session hco.epochs, if_pos rfl]
        exact Nat.lt_succ_of_le (hlt hcr hp)
      · -- the factory built `rt`, so it is not the one the caller prepared
        obtain ⟨n, rfl, _⟩ := ht.logged _ _ (Or.inl hmem)
        rw [hget hco.runtimes, Dict.get?_set_self]
        simp

end Turns

theorem Undisturbed.enter {w w' : World} (h : Undisturbed w) (henter : Entered w w') :
    Undisturbed w' := by
  obtain ⟨more, hlog, hmore⟩ := henter.log
  refine h.frame hlog (fun e he s hev => ?_) (fun s rt hin => hmore _ hin) (fun s rt hget => ?_)
    (fun s => Nat.le_of_eq (epoch_congr henter.maps.epochs s).symm) (fun s => ⟨?_, ?_⟩) ?_
  · have hplain := hmore e he
    simp only [displacements, List.mem_cons, List.not_mem_nil, or_false] at hev
    rcases hev with rfl | rfl | rfl <;> exact hplain
  · rw [henter.maps.runtimes] at hget
    exact hget
  · rintro ⟨i, d, hi, hd⟩
    rcases henter.calls with heq | ⟨new, heq, _, hnew⟩
    · exact ⟨i, d, heq ▸ hi, hd⟩
    · rw [heq] at hi
      rcases getElem?_concat_cases hi with hi | ⟨_, rfl⟩
      · exact ⟨i, d, hi, hd⟩
      · rw [hnew s] at hd
        cases hd
  · rintro ⟨i, d, hi, hd⟩
    rcases henter.calls with heq | ⟨new, heq, _, _⟩
    · exact ⟨i, d, heq.symm ▸ hi, hd⟩
    · refine ⟨i, d, ?_, hd⟩
      rw [heq, List.getElem?_append_left (List.getElem?_eq_some_iff.mp hi).1]
      exact hi
  · intro i s c e rt hc hp
    rcases henter.creating hc with hc | rfl
    · exact Or.inl ⟨i, c, hc, hp⟩
    · cases hp

theorem next_undisturbed {w w' : World} (h : Undisturbed w) (ht : Tracked w) (ho : Owned w)
    (hres : Reserved w) {a : Action} (hok : installsIntoRelease w a = false)
    (hstep : w.next a = some w') : Undisturbed w' := by
  rcases (world_step hstep).view with henter | ⟨me, o, call, t, rfl, hcall, hnext, rfl⟩
  · exact h.enter henter
  · cases hc : call.creation with
    | none => exact h.other ht ho hres hcall hc hnext
    | some sc =>
        obtain ⟨session, creation⟩ := sc
        obtain ⟨ct, hct, hco, hlog, hspawned, hcr, _, hun⟩ := creation_turn hc hnext
        refine h.create ht hcall hc (fun e rt hbuilt hepoch hopen => ?_) hct hco hlog hspawned hcr hun
        subst hbuilt
        rintro ⟨i, d, hi, hd⟩
        have hany : w.calls.any (Call.unbumped session) = true :=
          List.any_eq_true.mpr ⟨d, List.mem_of_getElem? hi, hd⟩
        simp [installsIntoRelease, hcall, hc, hepoch, hopen, hany] at hok

-- The runs in which no creation installs between a release's pop and its epoch bump.
def orderlyMachine (capacity : Nat) (abortTimeout : Time) : Machine World Action :=
  (sessionMachine capacity abortTimeout).restrict fun w a => installsIntoRelease w a = false

theorem orderly_undisturbed {capacity : Nat} {abortTimeout : Time} {w : World}
    (h : (orderlyMachine capacity abortTimeout).Reachable w) : Undisturbed w := by
  refine h.invariant_with (Q := (sessionMachine capacity abortTimeout).Reachable)
    (fun h => Machine.Reachable.of_restrict h) ⟨?_, ?_, ?_, ?_⟩ fun s a t hs hr hstep => ?_
  · rintro i s c e rt ev ⟨call, hi, _⟩
    cases hi
  · intro s rt ev hev hsub
    cases hsub.subset (List.mem_cons_self ..)
  · rintro s ⟨i, call, hi, _⟩
    cases hi
  · intro s rt ev hev hsub
    cases hsub.subset (List.mem_cons_self ..)
  · obtain ⟨hok, hstep⟩ := Machine.restrict_next hstep
    exact next_undisturbed hs (reachable_tracked hr) (reachable_owned hr) (reachable_reserved hr) hok hstep

-- Runtime installation as it should be: one factory call per session at a
-- time; a runtime whose factory call a displacement or the shutdown overtook
-- is not installed from then on; and no runtime is lost.
structure InstallSafe (w : World) : Prop where
  singleFlight : ∀ i j s e e' rt rt', w.Creating i s (.building e rt) →
    w.Creating j s (.building e' rt') → i = j
  displaced : ∀ s rt ev, ev ∈ displacements s → [.factoryStarted s rt, ev].Sublist w.log →
    w.co.runtimes.get? s ≠ some rt ∧ (.installed s rt ∈ w.log → [.installed s rt, ev].Sublist w.log)
  late : ∀ s rt, [.shutdownRequested, .factoryReturned s rt].Sublist w.log → .installed s rt ∉ w.log
  disposed : ∀ s rt, .factoryReturned s rt ∈ w.log → .installed s rt ∉ w.log →
    w.InHand s rt ∨ .shutdownCalled rt ∈ w.log
  accounted : ∀ s rt, .factoryReturned s rt ∈ w.log → w.InHand s rt ∨
    w.co.runtimes.get? s = some rt ∨ .removed s rt ∈ w.log ∨
    (.installed s rt ∉ w.log ∧ .shutdownCalled rt ∈ w.log)

theorem installSafe_of_orderly {capacity : Nat} {abortTimeout : Time} {w : World}
    (h : (orderlyMachine capacity abortTimeout).Reachable w) : InstallSafe w := by
  have hreach := Machine.Reachable.of_restrict h
  have hund := orderly_undisturbed h
  have htracked := reachable_tracked hreach
  have howned := reachable_owned hreach
  refine ⟨fun i j s e e' rt rt' hi hj => ?_, fun s rt ev hev hs => ?_, htracked.late,
    fun s rt hret hout => ?_, fun s rt hret => ?_⟩
  · -- both are inside the gate of the session
    have hgate := howned.gated i s _ hi rfl
    rw [howned.gated j s _ hj rfl] at hgate
    exact (Option.some.inj (Option.some.inj hgate)).symm
  · exact ⟨hund.gone s rt ev hev hs, hund.stale s rt ev hev hs⟩
  · exact (htracked.returned s rt hret).imp_right fun hor => hor.resolve_left hout
  · by_cases hin : .installed s rt ∈ w.log
    · exact Or.inr ((htracked.kept s rt hin).imp_right Or.inl)
    · exact (htracked.returned s rt hret).imp_right fun hor =>
        Or.inr (Or.inr ⟨hin, hor.resolve_left hin⟩)

-- A runtime is being built for a session that is deleted meanwhile; the
-- creation reaches its install section when the release has bumped the epoch.
def deletionRun : List Action :=
  [.ensureRuntime "a", .step 0 .returns, .step 0 .returns, .step 0 .returns, .step 0 .returns,
   .releaseRuntime "a" "delete" true, .step 1 .returns, .step 1 .returns, .step 0 .returns,
   .step 0 .returns, .step 1 .returns, .step 1 .returns]

theorem installSafe_of_orderly_deletionRun :
    ∃ w, (orderlyMachine 1 10).run (orderlyMachine 1 10).start deletionRun = some w ∧
      w.calls = [.done, .done] ∧
      [.factoryStarted "a" (.built 3), .released "a", .shutdownCalled (.built 3)].Sublist w.log ∧
      w.co.runtimes.get? "a" ≠ some (.built 3) := by
  refine ⟨_, rfl, by decide, by decide, ?_⟩
  have hsafe := @installSafe_of_orderly 1 10 _ ⟨deletionRun, rfl⟩
  exact (hsafe.displaced "a" (.built 3) (.released "a") (released_mem "a") (by decide)).1

-- The same calls, but the install section runs after `_runtimes.pop` and
-- before the epoch bump: the deleted session keeps the fresh runtime.
def resurrectingRun : List Action :=
  [.ensureRuntime "a", .step 0 .returns, .step 0 .returns, .step 0 .returns, .step 0 .returns,
   .releaseRuntime "a" "delete" true, .step 1 .returns, .step 0 .returns, .step 1 .returns,
   .step 1 .returns, .step 1 .returns]

theorem resurrectingRun_not_installSafe :
    ∃ w, (sessionMachine 1 10).run (sessionMachine 1 10).start resurrectingRun = some w ∧
      w.calls = [.done, .done] ∧ w.co.runtimes.get? "a" = some (.built 3) ∧
      .shutdownCalled (.built 3) ∉ w.log ∧ .removed "a" (.built 3) ∉ w.log ∧ ¬InstallSafe w := by
  refine ⟨_, rfl, by decide, by decide, by decide, by decide, fun hsafe => ?_⟩
  have hout := hsafe.displaced "a" (.built 3) (.released "a") (released_mem "a") (by decide)
  exact hout.1 (by decide)

end GaHub.Sessions
