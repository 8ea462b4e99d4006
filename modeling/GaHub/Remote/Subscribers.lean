import GaHub.Lib.Lists
import GaHub.Remote.Progress

namespace GaHub.Remote.Progress

open Lib

def Stage.On (c : ChannelId) (stage : Stage) : Prop := stage = .listening c ∨ stage = .leaving c

-- The handler has not been there yet.
def Stage.early : Stage → Bool
  | .listening _ | .leaving _ | .left => false
  | _ => true

-- A task that will still give the listener `None`, or has done it.
def Serving (ch : Channel) (call : Call) : Prop :=
  ch.cut = false ∧ (ch.task = .streaming ∧ call.told = false ∨ ch.task = .finishing) ∨
    ch.task = .ended ∧ call.told = true

namespace Hub

variable {s : Hub} {c : ChannelId} {ch : Channel} {i : CallId} {call : Call}

theorem give_made (s : Hub) (l : List CallId) (item : Option Nat) : (s.give l item).made = s.made := by
  induction l generalizing s with
  | nil => rfl
  | cons i l ih => exact ih (s.put i item)

theorem give_channels (s : Hub) (l : List CallId) (item : Option Nat) : (s.give l item).channels = s.channels := by
  induction l generalizing s with
  | nil => rfl
  | cons i l ih => exact ih (s.put i item)

theorem give_calls (s : Hub) (l : List CallId) (item : Option Nat) (j : CallId) :
    (s.give l item).calls[j]? = s.calls[j]?.map fun call =>
      if j ∈ l then { call with queue := some item, told := call.told || item.isNone } else call := by
  induction l generalizing s with
  | nil => simp [give]
  | cons i l ih =>
      change ((s.put i item).give l item).calls[j]? = _
      rw [ih, put, List.getElem?_modify]
      cases s.calls[j]? with
      | none => rfl
      | some call =>
          by_cases hij : i = j
          · by_cases hj : j ∈ l
            · simp [hij, hj]
            · simp [hij, hj]
          · have hji : ¬j = i := fun h => hij h.symm
            simp [hij, hji]

theorem victim_mem {key : Key} (h : s.victim = some (key, c)) : s.channels.get? key = some c ∧ s.idle c = true := by
  have hmem : ∀ (l : List (Key × ChannelId)) (best : Option (Key × ChannelId)) (e : Key × ChannelId),
      l.foldl s.older best = some e → e ∈ l ∨ best = some e := by
    intro l
    induction l with
    | nil => exact fun best e h => Or.inr h
    | cons x l ih =>
        intro best e h
        rcases ih _ e h with hin | heq
        · exact Or.inl (List.mem_cons_of_mem _ hin)
        · unfold older at heq
          split at heq
          · cases heq
            exact Or.inl List.mem_cons_self
          · split at heq
            · cases heq
              exact Or.inl List.mem_cons_self
            · exact Or.inr heq
  rcases hmem _ none (key, c) h with hin | hnone
  · obtain ⟨hentry, hidle⟩ := List.mem_filter.mp hin
    exact ⟨Dict.mem_entries_iff.mp hentry, hidle⟩
  · cases hnone

theorem give_modifyChannel (s : Hub) (f : Channel → Channel) (l : List CallId) (item : Option Nat) :
    (s.modifyChannel c f).give l item = (s.give l item).modifyChannel c f := by
  induction l generalizing s with
  | nil => rfl
  | cons i l ih => exact ih (s.put i item)

-- Every running channel is in the map, and every listener is served.
structure Inv (s : Hub) : Prop where
  stored : ∀ (key : Key) (c : ChannelId), s.channels.get? key = some c → ∃ ch, s.made[c]? = some ch ∧ ch.key = key
  mapped : ∀ (c : ChannelId) (ch : Channel), s.made[c]? = some ch → ch.running = true →
    s.channels.get? ch.key = some c
  bounded : s.channels.size ≤ limit
  distinct : ∀ ch ∈ s.made, ch.listeners.Nodup
  served : ∀ (c : ChannelId) (ch : Channel), s.made[c]? = some ch → ∀ i ∈ ch.listeners,
    ∃ call, s.calls[i]? = some call ∧ call.stage.On c ∧ Serving ch call
  early : ∀ call ∈ s.calls, call.stage.early = true → call.told = false
  held : ∀ call ∈ s.calls, ∀ c, call.stage = .listening c → call.told = true → call.queue = some none

namespace Inv

theorem start : Inv {} := by
  constructor <;> simp

theorem setNow (h : Inv s) (now : ℚ) : Inv { s with now } :=
  ⟨h.stored, h.mapped, h.bounded, h.distinct, h.served, h.early, h.held⟩

theorem setSweeper (h : Inv s) (sweeper : Option Sweeper) : Inv { s with sweeper } :=
  ⟨h.stored, h.mapped, h.bounded, h.distinct, h.served, h.early, h.held⟩

theorem setClosing (h : Inv s) (closing : Option Closing) : Inv { s with closing } :=
  ⟨h.stored, h.mapped, h.bounded, h.distinct, h.served, h.early, h.held⟩

theorem addCall (h : Inv s) (key : Key) (live : Bool) :
    Inv { s with calls := s.calls ++ [{ key, live, stage := .failed }] } where
  stored := h.stored
  mapped := h.mapped
  bounded := h.bounded
  distinct := h.distinct
  served c ch hc i hi := by
    obtain ⟨call, hcall, hrest⟩ := h.served c ch hc i hi
    exact ⟨call, getElem?_grow hcall _, hrest⟩
  early call hcall hearly := by
    rcases List.mem_append.mp hcall with hold | hnew
    · exact h.early call hold hearly
    · rw [List.mem_singleton.mp hnew]
  held call hcall c hstage htold := by
    rcases List.mem_append.mp hcall with hold | hnew
    · exact h.held call hold c hstage htold
    · rw [List.mem_singleton.mp hnew] at hstage
      cases hstage

theorem setStage (h : Inv s) {stage : Stage} (hi : s.calls[i]? = some call) (hearly : call.stage.early = true)
    (hstage : ∀ c, ¬stage.On c) : Inv (s.setStage i stage) where
  stored := h.stored
  mapped := h.mapped
  bounded := h.bounded
  distinct := h.distinct
  served c ch hc j hj := by
    obtain ⟨call', hcall', hon, hserving⟩ := h.served c ch hc j hj
    have hne : i ≠ j := by
      rintro rfl
      rw [hi] at hcall'
      cases hcall'
      rcases hon with hon | hon <;> simp [hon, Stage.early] at hearly
    refine ⟨call', ?_, hon, hserving⟩
    simp [Hub.setStage, hne, hcall']
  early call' hcall' hearly' := by
    rcases mem_modify_cases hcall' with ⟨call₀, hcall₀, rfl⟩ | hcall'
    · rw [hi] at hcall₀
      cases hcall₀
      exact h.early call (List.mem_of_getElem? hi) hearly
    · exact h.early call' hcall' hearly'
  held call' hcall' c hlistening htold := by
    rcases mem_modify_cases hcall' with ⟨call₀, hcall₀, rfl⟩ | hcall'
    · exact absurd (Or.inl hlistening) (hstage c)
    · exact h.held call' hcall' c hlistening htold

theorem modifyChannel (h : Inv s) {f : Channel → Channel} (hkey : ∀ ch, (f ch).key = ch.key)
    (hlisteners : ∀ ch, (f ch).listeners = ch.listeners)
    (hrunning : ∀ ch, s.made[c]? = some ch → (f ch).running = true → ch.running = true)
    (hserving : ∀ ch, s.made[c]? = some ch → ∀ i ∈ ch.listeners, ∀ call, s.calls[i]? = some call → Serving ch call →
      Serving (f ch) call) :
    Inv (s.modifyChannel c f) where
  stored key c' hget := by
    obtain ⟨ch, hc, heq⟩ := h.stored key c' hget
    by_cases hcc : c = c'
    · subst hcc
      exact ⟨f ch, by simp [Hub.modifyChannel, hc], (hkey ch).trans heq⟩
    · exact ⟨ch, by simp [Hub.modifyChannel, hcc, hc], heq⟩
  mapped c' ch hc hrun := by
    rcases getElem?_modify_cases hc with ⟨rfl, ch₀, hch₀, rfl⟩ | ⟨-, hc⟩
    · rw [hkey]
      exact h.mapped c' ch₀ hch₀ (hrunning ch₀ hch₀ hrun)
    · exact h.mapped c' ch hc hrun
  bounded := h.bounded
  distinct ch hch := by
    rcases mem_modify_cases hch with ⟨ch₀, hch₀, rfl⟩ | hch
    · rw [hlisteners]
      exact h.distinct ch₀ (List.mem_of_getElem? hch₀)
    · exact h.distinct ch hch
  served c' ch hc i hi := by
    rcases getElem?_modify_cases hc with ⟨rfl, ch₀, hch₀, rfl⟩ | ⟨-, hc⟩
    · rw [hlisteners] at hi
      obtain ⟨call, hcall, hon, hserve⟩ := h.served c' ch₀ hch₀ i hi
      exact ⟨call, hcall, hon, hserving ch₀ hch₀ i hi call hcall hserve⟩
    · exact h.served c' ch hc i hi
  early := h.early
  held := h.held

theorem wait (h : Inv s) (hi : s.calls[i]? = some call) (hearly : call.stage.early = true) (c : ChannelId) :
    Inv (s.wait i c) := by
  have hchannel : Inv (s.modifyChannel c fun ch => { ch with lastUsed := s.now }) :=
    h.modifyChannel (fun _ => rfl) (fun _ => rfl) (fun _ _ hrun => hrun) fun _ _ _ _ _ _ hserve => hserve
  exact hchannel.setStage hi hearly (by simp [Stage.On])

theorem cancel (h : Inv s) (hc : ∀ ch, s.made[c]? = some ch → ch.task = .finishing → ch.listeners = []) :
    Inv (s.cancel c) := by
  refine h.modifyChannel (fun _ => rfl) (fun _ => rfl) ?_ ?_
  · intro ch _ hrun
    simp [Channel.running] at hrun
  · intro ch hch i hi call _ hserve
    rcases hserve with ⟨hcut, hstreaming | hfinishing⟩ | hended
    · exact Or.inl ⟨by simp [hcut, hstreaming.1], Or.inl hstreaming⟩
    · exact absurd (hc ch hch hfinishing) (List.ne_nil_of_mem hi)
    · exact Or.inr hended

theorem pop (h : Inv s) {key : Key} (hc : s.idle c = true) (hkey : s.channels.get? key = some c ∨ s.runs key = false) :
    Inv (s.pop key c) := by
  have hidle : ∀ ch, s.made[c]? = some ch → ch.listeners = [] := by
    intro ch hch
    simpa [Hub.idle, hch] using hc
  have hcancel : Inv (s.cancel c) := h.cancel fun ch hch _ => hidle ch hch
  refine ⟨?_, ?_, ?_, hcancel.distinct, hcancel.served, hcancel.early, hcancel.held⟩
  · intro key' c' hget
    simp only [Hub.pop, Dict.get?_erase] at hget
    split at hget
    · cases hget
    · exact hcancel.stored key' c' hget
  · intro c' ch hch hrun
    have hget := hcancel.mapped c' ch hch hrun
    change s.channels.get? ch.key = some c' at hget
    change (s.channels.erase key).get? ch.key = some c'
    rcases getElem?_modify_cases hch with ⟨rfl, ch₀, -, rfl⟩ | ⟨hne, hold⟩
    · simp [Channel.running] at hrun
    · have hother : ch.key ≠ key := by
        rintro rfl
        rcases hkey with hkey | hkey
        · rw [hget] at hkey
          exact hne (Option.some.inj hkey)
        · simp [runs, hget, hold, hrun] at hkey
      rw [Dict.get?_erase_ne _ hother, hget]
  · exact (Dict.size_filter_le _ _).trans h.bounded

theorem insert (h : Inv s) {key : Key} (hi : s.calls[i]? = some call) (hearly : call.stage.early = true)
    (hnone : s.runs key = false) (hroom : s.channels.size < limit ∨ key ∈ s.channels.keys) : Inv (s.insert i key) := by
  have hstage : Inv (s.setStage i (.waiting s.made.length)) := h.setStage hi hearly (by simp [Stage.On])
  refine ⟨?_, ?_, ?_, ?_, ?_, hstage.early, hstage.held⟩
  · intro key' c' hget
    simp only [Hub.insert, Dict.get?_set] at hget
    split at hget
    · rename_i heq
      cases hget
      exact ⟨_, List.getElem?_concat_length, heq.symm⟩
    · obtain ⟨ch, hch, heq⟩ := h.stored key' c' hget
      exact ⟨ch, getElem?_grow hch _, heq⟩
  · intro c' ch hch hrun
    rcases getElem?_concat hch with hold | ⟨rfl, rfl⟩
    · have hget := h.mapped c' ch hold hrun
      have hother : ch.key ≠ key := by
        rintro rfl
        have hmade : s.made[c']? = some ch := hold
        simp [runs, hget, hmade, hrun] at hnone
      simp only [Hub.insert]
      rw [Dict.get?_set_ne _ _ hother, hget]
    · exact Dict.get?_set_self _ _ _
  · simp only [Hub.insert]
    rcases hroom with hroom | hmem
    · exact (Dict.size_set_le _ _ _).trans hroom
    · rw [Dict.size_eq_length_keys, Dict.keys_set_of_mem _ hmem, ← Dict.size_eq_length_keys]
      exact h.bounded
  · intro ch hch
    rcases List.mem_append.mp hch with hold | hnew
    · exact h.distinct ch hold
    · rw [List.mem_singleton.mp hnew]
      exact List.nodup_nil
  · intro c' ch hch j hj
    rcases getElem?_concat hch with hch | ⟨rfl, rfl⟩
    · exact hstage.served c' ch hch j hj
    · cases hj

theorem makeRoom (h : Inv s) {key : Key} (hi : s.calls[i]? = some call) (hearly : call.stage.early = true)
    (hnone : s.runs key = false) : Inv (s.makeRoom i key) := by
  unfold Hub.makeRoom
  split
  · split
    · exact h.setStage hi hearly (by simp [Stage.On])
    · rename_i key' c hvictim
      obtain ⟨hget, hidle⟩ := victim_mem hvictim
      exact (h.pop hidle (Or.inl hget)).setStage hi hearly (by simp [Stage.On])
  · rename_i hroom
    refine h.insert hi hearly hnone ?_
    by_cases hmem : key ∈ s.channels.keys
    · exact Or.inr hmem
    · exact Or.inl (Nat.lt_of_not_le fun hle => hroom ⟨hle, hmem⟩)

theorem get (h : Inv s) (key : Key) (live : Bool) : Inv (s.get key live) := by
  have hcalls := (h.addCall key live).setSweeper (some (s.sweeper.getD (.sleeping (s.now + 10))))
  have hi : (s.calls ++ [({ key, live, stage := .failed } : Call)])[s.calls.length]? = some _ :=
    List.getElem?_concat_length
  unfold Hub.get
  dsimp only
  split
  · rename_i hget
    exact hcalls.makeRoom hi rfl (by simp [runs, hget])
  · rename_i c hget
    split
    · exact hcalls.setStage hi rfl (by simp [Stage.On])
    · exact hcalls.wait hi rfl c

theorem listen (h : Inv s) (hi : s.calls[i]? = some call) (hearly : call.stage.early = true)
    (hc : s.made[c]? = some ch) (hcut : ch.cut = false)
    (htask : ch.task = .streaming ∨ ch.task = .finishing) : Inv (s.listen i c) := by
  have hnew : ∀ (c' : ChannelId) (ch' : Channel), s.made[c']? = some ch' → i ∉ ch'.listeners := by
    intro c' ch' hc' hin
    obtain ⟨call', hcall', hon, -⟩ := h.served c' ch' hc' i hin
    rw [hi] at hcall'
    cases hcall'
    rcases hon with hon | hon <;> simp [hon, Stage.early] at hearly
  have htold : call.told = false := h.early call (List.mem_of_getElem? hi) hearly
  have hcall : (s.listen i c).calls[i]? = some { call with stage := .listening c } := by
    simp [Hub.listen, Hub.setStage, Hub.modifyChannel, hi]
  have hother : ∀ (j : CallId) (call' : Call), j ≠ i → s.calls[j]? = some call' →
      (s.listen i c).calls[j]? = some call' := by
    intro j call' hne hj
    simp [Hub.listen, Hub.setStage, Hub.modifyChannel, Ne.symm hne, hj]
  refine ⟨?_, ?_, h.bounded, ?_, ?_, ?_, ?_⟩
  · intro key c' hget
    obtain ⟨ch', hc', heq⟩ := h.stored key c' hget
    by_cases hcc : c = c'
    · subst hcc
      exact ⟨{ ch' with listeners := ch'.listeners ++ [i] },
        by simp [Hub.listen, Hub.setStage, Hub.modifyChannel, hc'], heq⟩
    · exact ⟨ch', by simp [Hub.listen, Hub.setStage, Hub.modifyChannel, hcc, hc'], heq⟩
  · intro c' ch' hc' hrun
    rcases getElem?_modify_cases hc' with ⟨rfl, ch₀, hch₀, rfl⟩ | ⟨-, hold⟩
    · exact h.mapped c' ch₀ hch₀ hrun
    · exact h.mapped c' ch' hold hrun
  · intro ch' hch'
    rcases mem_modify_cases hch' with ⟨ch₀, hch₀, rfl⟩ | hold
    · refine (h.distinct ch₀ (List.mem_of_getElem? hch₀)).append (List.nodup_singleton i) ?_
      exact List.disjoint_singleton.mpr (hnew c ch₀ hch₀)
    · exact h.distinct ch' hold
  · intro c' ch' hc' j hj
    rcases getElem?_modify_cases hc' with ⟨rfl, ch₀, hch₀, rfl⟩ | ⟨-, hold⟩
    · rw [hc] at hch₀
      cases hch₀
      rcases List.mem_append.mp hj with hj | hj
      · obtain ⟨call', hcall', hrest⟩ := h.served c' ch hc j hj
        have hne : j ≠ i := fun heq => hnew c' ch hc (heq ▸ hj)
        exact ⟨call', hother j call' hne hcall', hrest⟩
      · rw [List.mem_singleton] at hj
        subst hj
        refine ⟨_, hcall, Or.inl rfl, ?_⟩
        rcases htask with hstreaming | hfinishing
        · exact Or.inl ⟨hcut, Or.inl ⟨hstreaming, htold⟩⟩
        · exact Or.inl ⟨hcut, Or.inr hfinishing⟩
    · obtain ⟨call', hcall', hrest⟩ := h.served c' ch' hold j hj
      have hne : j ≠ i := fun heq => hnew c' ch' hold (heq ▸ hj)
      exact ⟨call', hother j call' hne hcall', hrest⟩
  · intro call' hcall' hearly'
    rcases mem_modify_cases hcall' with ⟨call₀, hcall₀, rfl⟩ | hold
    · cases hearly'
    · exact h.early call' hold hearly'
  · intro call' hcall' c' hlistening htold'
    rcases mem_modify_cases hcall' with ⟨call₀, hcall₀, rfl⟩ | hold
    · change s.calls[i]? = some call₀ at hcall₀
      rw [hi] at hcall₀
      cases hcall₀
      rw [htold] at htold'
      cases htold'
    · exact h.held call' hold c' hlistening htold'

theorem take (h : Inv s) {item : Option Nat} (hi : s.calls[i]? = some call) (hstage : call.stage = .listening c)
    (hqueue : call.queue = some item) : Inv (s.take i c item) := by
  have hheld := h.held call (List.mem_of_getElem? hi) c hstage
  refine ⟨h.stored, h.mapped, h.bounded, h.distinct, ?_, ?_, ?_⟩
  · intro c' ch' hc' j hj
    obtain ⟨call', hcall', hon, hserve⟩ := h.served c' ch' hc' j hj
    by_cases hij : i = j
    · subst hij
      rw [hi] at hcall'
      cases hcall'
      have hcc : c = c' := by
        rcases hon with hon | hon
        · exact Stage.listening.inj (hstage.symm.trans hon)
        · simp [hstage] at hon
      subst hcc
      refine ⟨{ call with queue := none, stage := if item.isNone then .leaving c else .listening c }, ?_, ?_, hserve⟩
      · rw [Hub.take, List.getElem?_modify_eq, hi]
        rfl
      · cases item with
        | none => exact Or.inr rfl
        | some revision => exact Or.inl rfl
    · exact ⟨call', by simp [Hub.take, hij, hcall'], hon, hserve⟩
  · intro call' hcall' hearly
    rcases mem_modify_cases hcall' with ⟨call₀, hcall₀, rfl⟩ | hold
    · cases item <;> simp [Stage.early] at hearly
    · exact h.early call' hold hearly
  · intro call' hcall' c' hlistening htold
    rcases mem_modify_cases hcall' with ⟨call₀, hcall₀, rfl⟩ | hold
    · rw [hi] at hcall₀
      cases hcall₀
      cases item with
      | none => simp at hlistening
      | some revision =>
          rw [hheld htold] at hqueue
          cases hqueue
    · exact h.held call' hold c' hlistening htold

theorem leave (h : Inv s) (hi : s.calls[i]? = some call) (hon : call.stage.On c) : Inv (s.leave i c) := by
  have hhere : ∀ (c' : ChannelId) (ch' : Channel), s.made[c']? = some ch' → i ∈ ch'.listeners → c' = c := by
    intro c' ch' hc' hin
    obtain ⟨call', hcall', hon', -⟩ := h.served c' ch' hc' i hin
    rw [hi] at hcall'
    cases hcall'
    rcases hon with hon | hon <;> rcases hon' with hon' | hon' <;> simp_all
  have hother : ∀ (j : CallId) (call' : Call), j ≠ i → s.calls[j]? = some call' →
      (s.leave i c).calls[j]? = some call' := by
    intro j call' hne hj
    simp [Hub.leave, Hub.setStage, Hub.modifyChannel, Ne.symm hne, hj]
  refine ⟨?_, ?_, h.bounded, ?_, ?_, ?_, ?_⟩
  · intro key c' hget
    obtain ⟨ch', hc', heq⟩ := h.stored key c' hget
    by_cases hcc : c = c'
    · subst hcc
      exact ⟨{ ch' with listeners := ch'.listeners.erase i, lastUsed := s.now },
        by simp [Hub.leave, Hub.setStage, Hub.modifyChannel, hc'], heq⟩
    · exact ⟨ch', by simp [Hub.leave, Hub.setStage, Hub.modifyChannel, hcc, hc'], heq⟩
  · intro c' ch' hc' hrun
    rcases getElem?_modify_cases hc' with ⟨rfl, ch₀, hch₀, rfl⟩ | ⟨-, hold⟩
    · exact h.mapped c' ch₀ hch₀ hrun
    · exact h.mapped c' ch' hold hrun
  · intro ch' hch'
    rcases mem_modify_cases hch' with ⟨ch₀, hch₀, rfl⟩ | hold
    · exact (h.distinct ch₀ (List.mem_of_getElem? hch₀)).erase i
    · exact h.distinct ch' hold
  · intro c' ch' hc' j hj
    rcases getElem?_modify_cases hc' with ⟨rfl, ch₀, hch₀, rfl⟩ | ⟨hne, hold⟩
    · obtain ⟨hji, hj⟩ := (h.distinct ch₀ (List.mem_of_getElem? hch₀)).mem_erase_iff.mp hj
      obtain ⟨call', hcall', hrest⟩ := h.served c' ch₀ hch₀ j hj
      exact ⟨call', hother j call' hji hcall', hrest⟩
    · obtain ⟨call', hcall', hrest⟩ := h.served c' ch' hold j hj
      have hji : j ≠ i := fun heq => hne (hhere c' ch' hold (heq ▸ hj))
      exact ⟨call', hother j call' hji hcall', hrest⟩
  · intro call' hcall' hearly
    rcases mem_modify_cases hcall' with ⟨call₀, hcall₀, rfl⟩ | hold
    · cases hearly
    · exact h.early call' hold hearly
  · intro call' hcall' c' hlistening htold
    rcases mem_modify_cases hcall' with ⟨call₀, hcall₀, rfl⟩ | hold
    · cases hlistening
    · exact h.held call' hold c' hlistening htold

theorem give (h : Inv s) {item : Option Nat} (hc : s.made[c]? = some ch)
    (htask : item.isNone = false ∧ ch.task = .streaming ∨ ch.task = .finishing ∧ ch.cut = false ∧ item = none) :
    Inv (s.give ch.listeners item) := by
  have hback : ∀ call' ∈ (s.give ch.listeners item).calls, ∃ j call₀, s.calls[j]? = some call₀ ∧
      call' = if j ∈ ch.listeners then { call₀ with queue := some item, told := call₀.told || item.isNone }
        else call₀ := by
    intro call' hcall'
    obtain ⟨j, hj⟩ := List.getElem?_of_mem hcall'
    rw [give_calls] at hj
    obtain ⟨call₀, hcall₀, heq⟩ := Option.map_eq_some_iff.mp hj
    exact ⟨j, call₀, hcall₀, heq.symm⟩
  refine ⟨?_, ?_, ?_, ?_, ?_, ?_, ?_⟩
  · rw [give_channels, give_made]
    exact h.stored
  · rw [give_channels, give_made]
    exact h.mapped
  · rw [give_channels]
    exact h.bounded
  · rw [give_made]
    exact h.distinct
  · rw [give_made]
    intro c' ch' hc' j hj
    obtain ⟨call', hcall', hon, hserve⟩ := h.served c' ch' hc' j hj
    refine ⟨_, by rw [give_calls, hcall', Option.map_some], ?_⟩
    split
    · rename_i hin
      refine ⟨hon, ?_⟩
      -- a listener of the channel is no listener of another one
      obtain ⟨call₁, hcall₁, hon₁, -⟩ := h.served c ch hc j hin
      rw [hcall'] at hcall₁
      cases hcall₁
      have hcc : c = c' := by
        rcases hon with hon | hon <;> rcases hon₁ with hon₁ | hon₁ <;> simp_all
      subst hcc
      rw [hc] at hc'
      cases hc'
      rcases htask with ⟨hitem, hstreaming⟩ | ⟨hfinishing, hcut, -⟩
      · simpa [Serving, hitem] using hserve
      · exact Or.inl ⟨hcut, Or.inr hfinishing⟩
    · exact ⟨hon, hserve⟩
  · intro call' hcall' hearly
    obtain ⟨j, call₀, hcall₀, rfl⟩ := hback call' hcall'
    split at hearly
    · rename_i hin
      obtain ⟨call₁, hcall₁, hon₁, -⟩ := h.served c ch hc j hin
      rw [hcall₀] at hcall₁
      cases hcall₁
      rcases hon₁ with hon₁ | hon₁ <;> simp [hon₁, Stage.early] at hearly
    · rename_i hout
      rw [if_neg hout]
      exact h.early call₀ (List.mem_of_getElem? hcall₀) hearly
  · intro call' hcall' c' hlistening htold
    obtain ⟨j, call₀, hcall₀, rfl⟩ := hback call' hcall'
    by_cases hin : j ∈ ch.listeners
    · rw [if_pos hin] at htold ⊢
      rcases htask with ⟨hitem, hstreaming⟩ | ⟨-, -, rfl⟩
      · obtain ⟨call₁, hcall₁, -, hserve⟩ := h.served c ch hc j hin
        rw [hcall₀] at hcall₁
        cases hcall₁
        simp [Serving, hstreaming] at hserve
        simp [hitem, hserve] at htold
      · rfl
    · rw [if_neg hin] at hlistening htold ⊢
      exact h.held call₀ (List.mem_of_getElem? hcall₀) c' hlistening htold

theorem publish (h : Inv s) (hc : s.made[c]? = some ch) (htask : ch.task = .streaming) : Inv (s.publish c ch) := by
  unfold Hub.publish
  dsimp only
  rw [give_modifyChannel]
  refine (h.give hc (Or.inl ⟨rfl, htask⟩)).modifyChannel (fun _ => rfl) (fun _ => rfl) (fun _ _ hrun => hrun) ?_
  exact fun _ _ _ _ _ _ hserve => hserve

theorem notify (h : Inv s) (hc : s.made[c]? = some ch) (htask : ch.task = .finishing) : Inv (s.notify c ch) := by
  unfold Hub.notify
  split
  · rename_i hcut
    refine h.modifyChannel (fun _ => rfl) (fun _ => rfl) (by simp [Channel.running]) ?_
    intro ch' hc' i hi call hcall hserve
    rw [hc] at hc'
    cases hc'
    simp [Serving, htask, hcut] at hserve
  · rename_i hcut
    have hcut : ch.cut = false := Bool.eq_false_of_not_eq_true hcut
    rw [give_modifyChannel]
    refine (h.give hc (Or.inr ⟨htask, hcut, rfl⟩)).modifyChannel (fun _ => rfl) (fun _ => rfl)
      (by simp [Channel.running]) ?_
    intro ch' hc' i hi call hcall _
    rw [give_made, hc] at hc'
    cases hc'
    rw [give_calls] at hcall
    obtain ⟨call₀, -, rfl⟩ := Option.map_eq_some_iff.mp hcall
    exact Or.inr ⟨rfl, by simp [hi]⟩

end Inv

-- What the sweep goes on to close is still what is in the map, if that is running.
def fresh (s : Hub) (entries : List (Key × ChannelId)) : Bool :=
  match entries.dropWhile fun e => !s.unused e.2 with
  | [] => true
  | (key, c) :: _ => s.channels.get? key = some c || !s.runs key

-- A task in its `finally` with listeners is not to be cancelled.
def spared (s : Hub) (c : ChannelId) : Bool :=
  s.made[c]?.all fun ch => ch.task ≠ .finishing || ch.listeners.isEmpty

theorem Inv.sweepOn (h : Inv s) {entries : List (Key × ChannelId)} (hfresh : s.fresh entries = true) :
    Inv (s.sweepOn entries) := by
  unfold Hub.sweepOn
  split
  · exact h.setSweeper _
  · rename_i key c rest heq
    have hunused : s.unused c = true := by
      have hsome : entries.dropWhile (fun e => !s.unused e.2) ≠ [] := by simp [heq]
      have hhead := List.head_dropWhile_not _ hsome
      simpa [heq] using hhead
    have hidle : s.idle c = true := (Bool.and_eq_true_iff.mp hunused).1
    refine (h.pop hidle ?_).setSweeper _
    simpa [fresh, heq] using hfresh

theorem Inv.cancel_of_spared (h : Inv s) (hc : s.spared c = true) : Inv (s.cancel c) := by
  refine h.cancel fun ch hch hfinishing => ?_
  simpa [spared, hch, hfinishing] using hc

theorem fresh_entries (s : Hub) : s.fresh s.channels.entries = true := by
  unfold fresh
  split
  · rfl
  · rename_i key c rest heq
    have hmem : (key, c) ∈ s.channels.entries :=
      (List.dropWhile_sublist _).subset (heq ▸ List.mem_cons_self)
    simp [Dict.mem_entries_iff.mp hmem]

def careful (s : Hub) : Action → Bool
  | .resume i =>
      s.calls[i]?.all fun call =>
        !s.runs call.key &&
          match call.stage with
          | .evicting _ => s.channels.size < limit || s.channels.keys.contains call.key
          | _ => true
  | .listen i =>
      s.calls[i]?.all fun call =>
        match call.stage with
        | .returned c => s.made[c]?.any fun ch => !ch.cut && (ch.task = .streaming || ch.task = .finishing)
        | _ => true
  | .swept =>
      match s.sweeper with
      | some (.closing _ rest) => s.fresh rest
      | _ => true
  | .stop =>
      match s.sweeper with
      | some (.closing c _) => s.spared c
      | _ => true
  | .closeNext =>
      match s.closing with
      | some (.closing (c :: _) _) => s.spared c
      | _ => true
  | .cleared => s.channels.keys.all fun key => !s.runs key
  | _ => true

theorem Inv.clear (h : Inv s) (hnone : s.channels.keys.all (fun key => !s.runs key) = true) :
    Inv { s with channels := .empty } where
  stored key c hget := by simp at hget
  mapped c ch hc hrun := by
    have hget := h.mapped c ch hc hrun
    have hidle := List.all_eq_true.mp hnone ch.key (Dict.mem_keys_of_get? hget)
    change s.made[c]? = some ch at hc
    simp [runs, hget, hc, hrun] at hidle
  bounded := Nat.zero_le _
  distinct := h.distinct
  served := h.served
  early := h.early
  held := h.held

theorem Inv.next (h : Inv s) {a : Action} {t : Hub} (hcareful : s.careful a = true) (ht : s.next a = some t) : Inv t := by
  cases a with
  | pass seconds =>
      cases ht
      exact h.setNow _
  | get key live =>
      cases ht
      exact h.get key live
  | resume i =>
      obtain ⟨call, hi, ht⟩ := Option.bind_eq_some_iff.mp ht
      simp only [careful, hi, Option.all_some, Bool.and_eq_true, Bool.not_eq_true'] at hcareful
      simp only [Hub.stepCall, Hub.resume] at ht
      split at ht
      · rename_i c hstage
        split at ht
        · cases ht
          exact h.makeRoom hi (by simp [hstage, Stage.early]) hcareful.1
        · cases ht
      · rename_i c hstage
        split at ht
        · cases ht
          refine h.insert hi (by simp [hstage, Stage.early]) hcareful.1 ?_
          simpa [hstage] using hcareful.2
        · cases ht
      · cases ht
  | obtain i =>
      obtain ⟨call, hi, ht⟩ := Option.bind_eq_some_iff.mp ht
      simp only [Hub.stepCall] at ht
      split at ht
      · rename_i c hstage
        obtain ⟨ch, -, ht⟩ := Option.bind_eq_some_iff.mp ht
        split at ht
        · cases ht
          refine h.setStage hi (by simp [hstage, Stage.early]) fun c' hon => ?_
          split at hon <;> simp [Stage.On] at hon
        · cases ht
      · cases ht
  | timeout i =>
      obtain ⟨call, hi, ht⟩ := Option.bind_eq_some_iff.mp ht
      simp only [Hub.stepCall] at ht
      split at ht
      · rename_i c hstage
        cases ht
        exact h.setStage hi (by simp [hstage, Stage.early]) (by simp [Stage.On])
      · cases ht
  | listen i =>
      obtain ⟨call, hi, ht⟩ := Option.bind_eq_some_iff.mp ht
      simp only [Hub.stepCall] at ht
      split at ht
      · rename_i c hstage _
        cases ht
        simp only [careful, hi, Option.all_some, hstage, Option.any_eq_true] at hcareful
        obtain ⟨ch, hc, htask⟩ := hcareful
        simp only [Bool.and_eq_true, Bool.not_eq_true', Bool.or_eq_true, decide_eq_true_eq] at htask
        exact h.listen hi (by simp [hstage, Stage.early]) hc htask.1 htask.2
      · cases ht
  | take i =>
      obtain ⟨call, hi, ht⟩ := Option.bind_eq_some_iff.mp ht
      simp only [Hub.stepCall] at ht
      split at ht
      · rename_i c item hstage hqueue
        cases ht
        exact h.take hi hstage hqueue
      · cases ht
  | leave i =>
      obtain ⟨call, hi, ht⟩ := Option.bind_eq_some_iff.mp ht
      simp only [Hub.stepCall] at ht
      split at ht
      · rename_i c hstage
        cases ht
        exact h.setStage hi (by simp [hstage, Stage.early]) (by simp [Stage.On])
      · rename_i c hstage
        cases ht
        exact h.leave hi (Or.inl hstage)
      · rename_i c hstage
        cases ht
        exact h.leave hi (Or.inr hstage)
      · cases ht
  | begin c =>
      obtain ⟨ch, hc, ht⟩ := Option.bind_eq_some_iff.mp ht
      simp only [Hub.stepChannel] at ht
      split at ht
      · rename_i htask
        cases ht
        refine h.modifyChannel (fun _ => rfl) (fun _ => rfl) ?_ ?_
        · intro ch' hc' hrun
          rw [hc] at hc'
          cases hc'
          cases hclosed : ch.closed <;> simp [Channel.running, hclosed, htask] at hrun ⊢
        · intro ch' hc' i hi call _ hserve
          rw [hc] at hc'
          cases hc'
          simp [Serving, htask] at hserve
      · cases ht
  | publish c =>
      obtain ⟨ch, hc, ht⟩ := Option.bind_eq_some_iff.mp ht
      simp only [Hub.stepChannel] at ht
      split at ht
      · rename_i htask
        cases ht
        exact h.publish hc htask
      · cases ht
  | finish c =>
      obtain ⟨ch, hc, ht⟩ := Option.bind_eq_some_iff.mp ht
      simp only [Hub.stepChannel] at ht
      split at ht
      · rename_i htask
        cases ht
        refine h.modifyChannel (fun _ => rfl) (fun _ => rfl) ?_ ?_
        · intro ch' hc' hrun
          rw [hc] at hc'
          cases hc'
          simpa [Channel.running, htask] using hrun
        · intro ch' hc' i hi call _ hserve
          rw [hc] at hc'
          cases hc'
          rcases hserve with ⟨hcut, -⟩ | ⟨hended, -⟩
          · exact Or.inl ⟨hcut, Or.inr rfl⟩
          · simp [htask] at hended
      · cases ht
  | notify c =>
      obtain ⟨ch, hc, ht⟩ := Option.bind_eq_some_iff.mp ht
      simp only [Hub.stepChannel] at ht
      split at ht
      · rename_i htask
        cases ht
        exact h.notify hc htask
      · cases ht
  | sweep =>
      simp only [Hub.next] at ht
      split at ht
      · split at ht
        · cases ht
          exact h.sweepOn s.fresh_entries
        · cases ht
      · cases ht
  | swept =>
      simp only [Hub.next] at ht
      split at ht
      · rename_i c rest hsweeper
        split at ht
        · cases ht
          exact h.sweepOn (by simpa [careful, hsweeper] using hcareful)
        · cases ht
      · cases ht
  | stop =>
      simp only [Hub.next] at ht
      split at ht
      · cases ht
        unfold Hub.stop
        split
        · rename_i c rest hsweeper
          have hcancel := h.cancel_of_spared (c := c) (by simpa [careful, hsweeper] using hcareful)
          exact (hcancel.setSweeper (some .stopped)).setClosing (some (.stopping (some c)))
        · exact (h.setSweeper (s.sweeper.map fun _ => .stopped)).setClosing (some (.stopping none))
      · cases ht
  | closeAll =>
      simp only [Hub.next] at ht
      split at ht
      · split at ht
        · cases ht
          exact h.setClosing _
        · cases ht
      · cases ht
  | closeNext =>
      simp only [Hub.next] at ht
      split at ht
      · rename_i c pending all hclosing
        cases ht
        exact (h.cancel_of_spared (by simpa [careful, hclosing] using hcareful)).setClosing _
      · cases ht
  | cleared =>
      simp only [Hub.next] at ht
      split at ht
      · split at ht
        · cases ht
          exact (h.clear hcareful).setClosing _
        · cases ht
      · cases ht

end Hub

variable {s : Hub}

theorem inv_of_reachable (hs : (hub.restrict fun s a => s.careful a = true).Reachable s) : s.Inv :=
  hs.invariant Hub.Inv.start fun _ _ _ h hnext => h.next (Machine.restrict_next hnext).1 (Machine.restrict_next hnext).2

theorem never_stranded (hs : (hub.restrict fun s a => s.careful a = true).Reachable s) :
    (∀ (c c' : ChannelId) (ch ch' : Channel), s.made[c]? = some ch → s.made[c']? = some ch' → ch.running = true →
        ch'.running = true → ch.key = ch'.key → c = c') ∧
      (∀ (c : ChannelId) (ch : Channel), s.made[c]? = some ch → ch.running = true →
        s.channels.get? ch.key = some c) ∧
      s.channels.size ≤ 64 ∧
      ∀ (c : ChannelId) (ch : Channel), s.made[c]? = some ch → ∀ i ∈ ch.listeners, ch.task ≠ .ended ∨
        ∃ call, s.calls[i]? = some call ∧ call.told = true ∧ (call.queue = some none ∨ call.stage = .leaving c) := by
  have h := inv_of_reachable hs
  refine ⟨?_, h.mapped, h.bounded, ?_⟩
  · intro c c' ch ch' hc hc' hrun hrun' hkey
    have hget := h.mapped c ch hc hrun
    rw [hkey, h.mapped c' ch' hc' hrun'] at hget
    exact (Option.some.inj hget).symm
  · intro c ch hc i hi
    obtain ⟨call, hcall, hon, hserve⟩ := h.served c ch hc i hi
    rcases hserve with ⟨-, ⟨hstreaming, -⟩ | hfinishing⟩ | ⟨-, htold⟩
    · exact Or.inl (by simp [hstreaming])
    · exact Or.inl (by simp [hfinishing])
    · refine Or.inr ⟨call, hcall, htold, ?_⟩
      rcases hon with hlistening | hleaving
      · exact Or.inl (h.held call (List.mem_of_getElem? hcall) c hlistening htold)
      · exact Or.inr hleaving

def first : Key := ("base", "first")

def second : Key := ("base", "second")

-- A subscriber of a channel that ends, and another one after it on a new channel.
def servedRun : List Action :=
  [.get first true, .begin 0, .publish 0, .obtain 0, .listen 0, .publish 0, .take 0, .finish 0, .notify 0, .take 0,
    .leave 0, .get first true, .resume 1, .begin 1, .publish 1, .obtain 1, .listen 1, .publish 1]

theorem never_stranded_served : ∃ s : Hub,
    (s.made.map Channel.task = [.ended, .streaming] ∧ s.calls.map Call.stage = [.left, .listening 1]) ∧
      s.channels.size ≤ 64 := by
  have hrun : ((hub.restrict fun s a => s.careful a = true).run {} servedRun).map
      (fun s => (s.made.map Channel.task, s.calls.map Call.stage)) =
      some ([.ended, .streaming], [.left, .listening 1]) := by
    decide
  obtain ⟨s, hs, heq⟩ := Option.map_eq_some_iff.mp hrun
  exact ⟨s, Prod.mk.inj heq, (never_stranded ⟨servedRun, hs⟩).2.2.1⟩

-- The upstream connection ends between `get` and the end of the handshake.
def strandedRun : List Action :=
  [.get first true, .begin 0, .publish 0, .obtain 0, .finish 0, .notify 0, .listen 0]

-- The second channel ends while the sweep closes the first one, and is replaced before the sweep comes to it.
def sweptRun : List Action :=
  [.get first false, .get second false, .begin 0, .begin 1, .publish 0, .publish 1, .obtain 0, .obtain 1, .pass 31, .sweep,
    .finish 1, .notify 1, .get second true, .resume 2, .begin 2, .publish 2, .obtain 2, .listen 2, .finish 0, .notify 0,
    .swept, .get second true]

theorem subscriber_stranded :
    (∃ s, hub.Reachable s ∧ s.made.map Channel.task = [.ended] ∧ s.made.map Channel.listeners = [[0]] ∧
      s.calls.map (fun call => (call.stage, call.told)) = [(.listening 0, false)]) ∧
    ∃ s, hub.Reachable s ∧ s.made.map (fun ch => (ch.key, ch.running)) =
      [(first, false), (second, false), (second, true), (second, true)] := by
  constructor
  · have hrun : (hub.run {} strandedRun).map (fun s => (s.made.map Channel.task, s.made.map Channel.listeners,
        s.calls.map fun call => (call.stage, call.told))) = some ([.ended], [[0]], [(.listening 0, false)]) := by
      decide
    obtain ⟨s, hs, heq⟩ := Option.map_eq_some_iff.mp hrun
    simp only [Prod.mk.injEq] at heq
    exact ⟨s, ⟨strandedRun, hs⟩, heq⟩
  · have hrun : (hub.run {} sweptRun).map (fun s => s.made.map fun ch => (ch.key, ch.running)) =
        some [(first, false), (second, false), (second, true), (second, true)] := by
      decide +kernel
    obtain ⟨s, hs, heq⟩ := Option.map_eq_some_iff.mp hrun
    exact ⟨s, ⟨sweptRun, hs⟩, heq⟩

end GaHub.Remote.Progress
