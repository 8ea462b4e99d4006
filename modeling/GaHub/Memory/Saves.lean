import GaHub.Lib.Log
import GaHub.Memory
import Mathlib.Data.Option.Basic

namespace GaHub.Memory

open Lib

-- The bytes of a snapshot, if there was a file.
def MemorySnapshot.bytes (s : MemorySnapshot) : Option ByteArray := if s.present then some s.data else none

def Stage.settling : Stage → Bool
  | .replaced _ | .written .. => true
  | _ => false

def State.settling (s : State) : Bool :=
  match s.call with
  | some c => c.stage.settling
  | none => false

-- From `os.replace` on, nothing happens to the file until the call returns, and nothing fails.
def Calm (s : State) : Action → Prop
  | .external _ => s.settling = false
  | .step ok _ => s.settling = true → ok = true
  | _ => True

instance : ∀ s a, Decidable (Calm s a)
  | s, .external _ => inferInstanceAs (Decidable (s.settling = false))
  | s, .step ok _ => inferInstanceAs (Decidable (s.settling = true → ok = true))
  | _, .get _ | _, .getStep .. | _, .save .. | _, .put .. => inferInstanceAs (Decidable True)

theorem settling_of_call {s : State} {c : Call} (h : s.call = some c) : s.settling = c.stage.settling := by
  simp [State.settling, h]

theorem bom_eq : bom = "\uFEFF".toUTF8 := by
  decide

theorem fromUTF8?_toUTF8 (text : String) : String.fromUTF8? text.toUTF8 = some text := by
  have hvalid : text.toUTF8.IsValidUTF8 := text.isValidUTF8
  unfold String.fromUTF8?
  rw [dif_pos hvalid]
  rfl

theorem decode_encodeLike (snapshot : MemorySnapshot) (content : String) :
    (decode (encodeLike snapshot content)).isSome = true := by
  have htext : ∀ text : String, (decode text.toUTF8).isSome = true := by
    intro text
    rw [decode, fromUTF8?_toUTF8]
    rfl
  unfold encodeLike
  dsimp only
  generalize String.ofList _ = text
  split
  · rw [bom_eq]
    have happend : "\uFEFF".toUTF8 ++ text.toUTF8 = ("\uFEFF" ++ text).toUTF8 := (String.toByteArray_append ..).symm
    rw [happend]
    exact htext _
  · exact htext text

section Reads

variable {sha256 : ByteArray → Digest} {s t : State} {r r' : Reading} {ok : Bool} {snapshot : MemorySnapshot}

def Faithful (sha256 : ByteArray → Digest) (snapshot : MemorySnapshot) : Prop :=
  snapshot.sha256 = snapshot.bytes.map sha256

-- The file an unfinished reading has opened is the current one as soon as the two share an inode.
def Fresh (s : State) : Reading → Prop
  | .opening _ => True
  | .opened _ f => f.ino < s.nextIno ∧ ∀ g, s.file = some g → g.ino = f.ino → g = f

theorem snapshotOf_faithful {f : MemoryFile} (h : snapshotOf sha256 f = some snapshot) :
    snapshot.bytes = some f.data ∧ Faithful sha256 snapshot := by
  obtain ⟨content, -, rfl⟩ := Option.map_eq_some_iff.mp h
  simp [MemorySnapshot.bytes, Faithful]

theorem step_failed (file : Option MemoryFile) : r.step sha256 file false = .raised := by
  cases r <;> rfl

theorem step_missing : r.step sha256 none true = .done missing := by
  cases r <;> rfl

theorem step_opened (attempt : Nat) (f g : MemoryFile) :
    (Reading.opened attempt f).step sha256 (some g) true =
      if sameFile f g then
        match snapshotOf sha256 f with
        | some snapshot => .done snapshot
        | none => .raised
      else if attempt + 1 < 3 then .again (.opening (attempt + 1)) else .raised := rfl

theorem read_done (hr : Fresh s r) (h : r.step sha256 s.file ok = .done snapshot) :
    snapshot.bytes = s.file.map MemoryFile.data ∧ Faithful sha256 snapshot := by
  cases ok with
  | false =>
      rw [step_failed] at h
      cases h
  | true =>
      cases hfile : s.file with
      | none =>
          rw [hfile, step_missing] at h
          cases h
          simp [MemorySnapshot.bytes, Faithful, missing]
      | some g =>
          rw [hfile] at h
          cases r with
          | opening attempt => cases h
          | opened attempt f =>
              rw [step_opened] at h
              split at h
              · rename_i hsame
                simp only [sameFile, decide_eq_true_eq] at hsame
                obtain rfl := hr.2 g hfile hsame.1.symm
                cases hsnapshot : snapshotOf sha256 g with
                | none => simp [hsnapshot] at h
                | some found =>
                    rw [hsnapshot] at h
                    cases h
                    exact snapshotOf_faithful hsnapshot
              · split at h <;> cases h

theorem read_again (hfiles : ∀ g, s.file = some g → g.ino < s.nextIno) (h : r.step sha256 s.file ok = .again r') :
    Fresh s r' := by
  cases ok with
  | false =>
      rw [step_failed] at h
      cases h
  | true =>
      cases hfile : s.file with
      | none =>
          rw [hfile, step_missing] at h
          cases h
      | some g =>
          rw [hfile] at h
          cases r with
          | opening attempt =>
              cases h
              refine ⟨hfiles g hfile, fun g' hg' _ => ?_⟩
              rw [hfile] at hg'
              exact (Option.some.inj hg').symm
          | opened attempt f =>
              rw [step_opened] at h
              split at h
              · cases hsnapshot : snapshotOf sha256 f <;> simp [hsnapshot] at h
              · split at h <;> cases h
                trivial

theorem Fresh.replaceFile (hr : Fresh s r) (data : ByteArray) (mtimeNs : String) (mode : Nat) :
    Fresh (s.replaceFile data mtimeNs mode) r := by
  cases r with
  | opening attempt => trivial
  | opened attempt f =>
      refine ⟨Nat.lt_succ_of_lt hr.1, fun g hg hino => ?_⟩
      -- the new file has an inode that no reading has seen
      obtain rfl := Option.some.inj hg
      exact absurd hino (Nat.ne_of_gt hr.1)

theorem Fresh.remove (hr : Fresh s r) : Fresh { s with file := none } r := by
  cases r with
  | opening attempt => trivial
  | opened attempt f => exact ⟨hr.1, fun g hg => by cases hg⟩

-- While nobody else touches a readable file, a reading of it ends well.
def Caught (s : State) : Reading → Prop
  | .opening _ => True
  | .opened _ f => s.file = some f

theorem read_caught {f : MemoryFile} (hr : Caught s r) (hfile : s.file = some f) (hdecode : (decode f.data).isSome = true) :
    (∃ r', r.step sha256 s.file true = .again r' ∧ Caught s r') ∨
      ∃ snapshot, r.step sha256 s.file true = .done snapshot ∧ snapshotOf sha256 f = some snapshot := by
  cases r with
  | opening attempt =>
      exact Or.inl ⟨.opened attempt f, by simp [Reading.step, hfile], hfile⟩
  | opened attempt g =>
      obtain rfl := Option.some.inj (hfile.symm.trans hr)
      obtain ⟨content, hcontent⟩ := Option.isSome_iff_exists.mp hdecode
      refine Or.inr ⟨⟨true, f.data, content, some f.mtimeNs, some (sha256 f.data), some f.mode⟩, ?_, ?_⟩
      · simp [Reading.step, hfile, sameFile, snapshotOf, hcontent]
      · simp [snapshotOf, hcontent]

end Reads

structure Base (sha256 : ByteArray → Digest) (c : Call) (before : MemorySnapshot) (newData : ByteArray) : Prop where
  faithful : Faithful sha256 before
  expected : before.version = c.expected
  readable : (decode newData).isSome = true

def State.Wrote (s : State) (newData : ByteArray) : Prop :=
  ∃ f, s.file = some f ∧ f.data = newData ∧ (decode newData).isSome = true

def StageInv (sha256 : ByteArray → Digest) (s : State) (c : Call) : Prop :=
  match c.stage with
  | .before r => Fresh s r
  | .staging before newData | .backup before newData => Base sha256 c before newData
  | .current before newData r => Base sha256 c before newData ∧ Fresh s r
  | .flushing before newData => Base sha256 c before newData ∧ Entry.backup s.calls before.data ∈ s.log
  | .last before newData r =>
      Base sha256 c before newData ∧ (before.present = true → Entry.backup s.calls before.data ∈ s.log) ∧ Fresh s r
  | .replaced newData => s.Wrote newData
  | .written newData r => s.Wrote newData ∧ Caught s r

structure Inv (sha256 : ByteArray → Digest) (s : State) : Prop where
  files : ∀ g, s.file = some g → g.ino < s.nextIno
  gets : ∀ g ∈ s.gets, Fresh s g.2
  held : ∀ e h, s.held e = some h → h.version.2 = h.data.map sha256
  stage : ∀ c, s.call = some c → StageInv sha256 s c
  sent : ∀ c e, s.call = some c → c.editor = some e → c.expected.2 = c.holds.map sha256
  seen : ∀ k e holds old, Entry.replaced k (some e) holds old ∈ s.log → old = holds
  backed : ∀ k editor holds data, Entry.replaced k editor holds (some data) ∈ s.log →
    [Entry.backup k data, .replaced k editor holds (some data)].Sublist s.log
  numbered : (∀ k, Entry.raised k ∈ s.log → k ≤ s.calls) ∧
    ∀ k editor holds old, Entry.replaced k editor holds old ∈ s.log → k ≤ s.calls
  unraised : ∀ c, s.call = some c → Entry.raised s.calls ∉ s.log
  unreplaced : ∀ c editor holds old, s.call = some c → Entry.replaced s.calls editor holds old ∈ s.log →
    c.stage.settling = true
  untouched : ∀ k editor holds old, Entry.raised k ∈ s.log → Entry.replaced k editor holds old ∉ s.log

theorem StageInv.mono {sha256 : ByteArray → Digest} {s t : State} {c : Call} (h : StageInv sha256 s c)
    (hquiet : c.stage.settling = false) (hfresh : ∀ r, Fresh s r → Fresh t r) (hcalls : t.calls = s.calls)
    (hlog : ∀ e ∈ s.log, e ∈ t.log) : StageInv sha256 t c := by
  unfold StageInv at h ⊢
  cases hstage : c.stage with
  | before r =>
      simp only [hstage] at h ⊢
      exact hfresh r h
  | staging before newData =>
      simp only [hstage] at h ⊢
      exact h
  | current before newData r =>
      simp only [hstage] at h ⊢
      exact ⟨h.1, hfresh r h.2⟩
  | backup before newData =>
      simp only [hstage] at h ⊢
      exact h
  | flushing before newData =>
      simp only [hstage] at h ⊢
      rw [hcalls]
      exact ⟨h.1, hlog _ h.2⟩
  | last before newData r =>
      simp only [hstage] at h ⊢
      rw [hcalls]
      exact ⟨h.1, fun hp => hlog _ (h.2.1 hp), hfresh r h.2.2⟩
  | replaced newData => simp [hstage, Stage.settling] at hquiet
  | written newData r => simp [hstage, Stage.settling] at hquiet

namespace Inv

variable {sha256 : ByteArray → Digest} {s : State} {c : Call}

theorem refile (h : Inv sha256 s) (hquiet : s.settling = false) {file : Option MemoryFile} {nextIno : Nat}
    (hfresh : ∀ r, Fresh s r → Fresh { s with file, nextIno } r)
    (hfiles : ∀ g, file = some g → g.ino < nextIno) : Inv sha256 { s with file, nextIno } where
  files := hfiles
  gets g hg := hfresh g.2 (h.gets g hg)
  held := h.held
  stage c hc := by
    refine (h.stage c hc).mono ?_ hfresh rfl fun _ he => he
    rw [← settling_of_call hc]
    exact hquiet
  sent := h.sent
  seen := h.seen
  backed := h.backed
  numbered := h.numbered
  unraised := h.unraised
  unreplaced := h.unreplaced
  untouched := h.untouched

theorem external (h : Inv sha256 s) (hquiet : s.settling = false) (data : ByteArray) (mtimeNs : String) (mode : Nat) :
    Inv sha256 (s.replaceFile data mtimeNs mode) := by
  refine h.refile hquiet (fun r hr => hr.replaceFile data mtimeNs mode) fun g hg => ?_
  obtain rfl := Option.some.inj hg
  exact Nat.lt_succ_self _

theorem reget (h : Inv sha256 s) {gets : List (EditorId × Reading)} {held : EditorId → Option Held}
    (hgets : ∀ g ∈ gets, Fresh s g.2) (hheld : ∀ e x, held e = some x → x.version.2 = x.data.map sha256) :
    Inv sha256 { s with gets, held } :=
  ⟨h.files, hgets, hheld, h.stage, h.sent, h.seen, h.backed, h.numbered, h.unraised, h.unreplaced, h.untouched⟩

theorem update_held (h : Inv sha256 s) (e : EditorId) {x : Held} (hx : x.version.2 = x.data.map sha256) :
    ∀ e' x', Function.update s.held e (some x) e' = some x' → x'.version.2 = x'.data.map sha256 := by
  intro e' x' hx'
  by_cases he : e' = e
  · subst he
    rw [Function.update_self] at hx'
    obtain rfl := Option.some.inj hx'
    exact hx
  · rw [Function.update_of_ne he] at hx'
    exact h.held e' x' hx'

theorem stepGet (h : Inv sha256 s) {i : Nat} {e : EditorId} {r : Reading} (hi : s.gets[i]? = some (e, r)) (ok : Bool) :
    Inv sha256 (s.stepGet sha256 i e r ok) := by
  have hr : Fresh s r := h.gets (e, r) (List.mem_of_getElem? hi)
  have herase : ∀ g ∈ s.gets.eraseIdx i, Fresh s g.2 := fun g hg => h.gets g (List.mem_of_mem_eraseIdx hg)
  unfold State.stepGet
  cases hstep : r.step sha256 s.file ok with
  | again r' =>
      refine h.reget (fun g hg => ?_) h.held
      rcases List.mem_or_eq_of_mem_set hg with hg | rfl
      · exact h.gets g hg
      · exact read_again h.files hstep
  | raised => exact h.reget herase h.held
  | done snapshot =>
      obtain ⟨-, hfaithful⟩ := read_done hr hstep
      exact h.reget herase (h.update_held e hfaithful)

theorem begin (h : Inv sha256 s) (editor : Option EditorId) (content : String) {x : Held}
    (hx : ∀ e, editor = some e → x.version.2 = x.data.map sha256) : Inv sha256 (s.begin editor content x) where
  files := h.files
  gets := h.gets
  held := h.held
  stage c hc := by
    obtain rfl := Option.some.inj hc
    trivial
  sent c e hc he := by
    obtain rfl := Option.some.inj hc
    exact hx e he
  seen := h.seen
  backed := h.backed
  numbered := ⟨fun k hk => Nat.le_succ_of_le (h.numbered.1 k hk),
    fun k editor holds old hk => Nat.le_succ_of_le (h.numbered.2 k editor holds old hk)⟩
  unraised _ _ hraised := absurd (h.numbered.1 _ hraised) (Nat.not_succ_le_self _)
  unreplaced _ _ _ _ _ hreplaced := absurd (h.numbered.2 _ _ _ _ hreplaced) (Nat.not_succ_le_self _)
  untouched := h.untouched

theorem goOn (h : Inv sha256 s) (hc : s.call = some c) {stage : Stage} {entries : List Entry}
    (hentries : ∀ e ∈ entries, ∃ data, e = .backup s.calls data)
    (hsettling : c.stage.settling = true → stage.settling = true)
    (hstage : StageInv sha256 { s with log := s.log ++ entries } { c with stage }) :
    Inv sha256 { s.goOn c stage with log := s.log ++ entries } := by
  have hold : ∀ e ∈ s.log ++ entries, (∀ k data, e ≠ .backup k data) → e ∈ s.log := by
    intro e he hne
    refine (List.mem_append.mp he).resolve_right fun he => ?_
    obtain ⟨data, rfl⟩ := hentries e he
    exact hne _ _ rfl
  refine ⟨h.files, h.gets, h.held, ?_, ?_, ?_, ?_, ⟨?_, ?_⟩, ?_, ?_, ?_⟩
  · intro d hd
    obtain rfl := Option.some.inj hd
    exact hstage
  · intro d e hd he
    obtain rfl := Option.some.inj hd
    exact h.sent c e hc he
  · intro k e holds old hk
    exact h.seen k e holds old (hold _ hk (by simp))
  · intro k editor holds data hk
    exact ordered_grow (h.backed k editor holds data (hold _ hk (by simp)))
  · intro k hk
    exact h.numbered.1 k (hold _ hk (by simp))
  · intro k editor holds old hk
    exact h.numbered.2 k editor holds old (hold _ hk (by simp))
  · intro d _ hraised
    exact h.unraised c hc (hold _ hraised (by simp))
  · intro d editor holds old hd hk
    obtain rfl := Option.some.inj hd
    exact hsettling (h.unreplaced c editor holds old hc (hold _ hk (by simp)))
  · intro k editor holds old hraised hk
    exact h.untouched k editor holds old (hold _ hraised (by simp)) (hold _ hk (by simp))

theorem goOn_silent (h : Inv sha256 s) (hc : s.call = some c) {stage : Stage}
    (hsettling : c.stage.settling = true → stage.settling = true) (hstage : StageInv sha256 s { c with stage }) :
    Inv sha256 (s.goOn c stage) := by
  have hstep : Inv sha256 { s.goOn c stage with log := s.log ++ [] } :=
    h.goOn hc (by simp) hsettling (by simpa using hstage)
  simpa [State.goOn] using hstep

theorem raised (h : Inv sha256 s) (hc : s.call = some c) (hquiet : c.stage.settling = false) : Inv sha256 s.raised := by
  have hold : ∀ e ∈ s.log ++ [Entry.raised s.calls], e ≠ .raised s.calls → e ∈ s.log := by
    intro e he hne
    exact (List.mem_append.mp he).resolve_right fun he => hne (List.mem_singleton.mp he)
  have hnone : ∀ editor holds old, Entry.replaced s.calls editor holds old ∉ s.log := by
    intro editor holds old hk
    rw [h.unreplaced c editor holds old hc hk] at hquiet
    cases hquiet
  refine ⟨h.files, h.gets, h.held, (fun _ hd => by cases hd), (fun _ _ hd => by cases hd), ?_, ?_, ⟨?_, ?_⟩,
    (fun _ hd => by cases hd), (fun _ _ _ _ hd => by cases hd), ?_⟩
  · intro k e holds old hk
    exact h.seen k e holds old (hold _ hk (by simp))
  · intro k editor holds data hk
    exact ordered_grow (h.backed k editor holds data (hold _ hk (by simp)))
  · intro k hk
    rcases List.mem_append.mp hk with hk | hk
    · exact h.numbered.1 k hk
    · cases List.mem_singleton.mp hk
      exact Nat.le_refl _
  · intro k editor holds old hk
    exact h.numbered.2 k editor holds old (hold _ hk (by simp))
  · intro k editor holds old hraised hk
    have hk' := hold _ hk (by simp)
    rcases List.mem_append.mp hraised with hraised | hraised
    · exact h.untouched k editor holds old hraised hk'
    · cases List.mem_singleton.mp hraised
      exact hnone editor holds old hk'

theorem returned (h : Inv sha256 s) {version : Version} (size : Nat) {data : ByteArray}
    (hversion : version.2 = some (sha256 data)) : Inv sha256 (s.returned c version size data) := by
  have hold : ∀ e ∈ s.log ++ [Entry.returned s.calls size version], (∀ k n v, e ≠ .returned k n v) → e ∈ s.log := by
    intro e he hne
    exact (List.mem_append.mp he).resolve_right fun he => hne _ _ _ (List.mem_singleton.mp he)
  refine ⟨h.files, h.gets, ?_, (fun _ hd => by cases hd), (fun _ _ hd => by cases hd), ?_, ?_, ⟨?_, ?_⟩,
    (fun _ hd => by cases hd), (fun _ _ _ _ hd => by cases hd), ?_⟩
  · intro e x hx
    cases heditor : c.editor with
    | none =>
        simp only [State.returned, heditor] at hx
        exact h.held e x hx
    | some e' =>
        simp only [State.returned, heditor] at hx
        exact h.update_held e' (x := ⟨version, some data⟩) hversion e x hx
  · intro k e holds old hk
    exact h.seen k e holds old (hold _ hk (by simp))
  · intro k editor holds data hk
    exact ordered_grow (h.backed k editor holds data (hold _ hk (by simp)))
  · intro k hk
    exact h.numbered.1 k (hold _ hk (by simp))
  · intro k editor holds old hk
    exact h.numbered.2 k editor holds old (hold _ hk (by simp))
  · intro k editor holds old hraised hk
    exact h.untouched k editor holds old (hold _ hraised (by simp)) (hold _ hk (by simp))

theorem replaced (h : Inv sha256 s) (hsha : Function.Injective sha256) (hc : s.call = some c) {before : MemorySnapshot}
    {newData : ByteArray} (hbase : Base sha256 c before newData)
    (hfile : before.bytes = s.file.map MemoryFile.data)
    (hbackup : before.present = true → Entry.backup s.calls before.data ∈ s.log) (mtimeNs : String) :
    Inv sha256 (s.replaced c before newData mtimeNs) := by
  have hold : ∀ e ∈ s.log ++ [Entry.replaced s.calls c.editor c.holds (s.file.map MemoryFile.data)],
      e ≠ .replaced s.calls c.editor c.holds (s.file.map MemoryFile.data) → e ∈ s.log := by
    intro e he hne
    exact (List.mem_append.mp he).resolve_right fun he => hne (List.mem_singleton.mp he)
  have hsent : ∀ e, c.editor = some e → s.file.map MemoryFile.data = c.holds := by
    intro e he
    have hdigest : before.version.2 = c.expected.2 := by rw [hbase.expected]
    have hsame : before.bytes.map sha256 = c.holds.map sha256 := by
      rw [← hbase.faithful, ← h.sent c e hc he, ← hdigest]
      rfl
    rw [← hfile]
    exact Option.map_injective hsha hsame
  refine ⟨?_, ?_, h.held, ?_, ?_, ?_, ?_, ⟨?_, ?_⟩, ?_, ?_, ?_⟩
  · intro g hg
    obtain rfl := Option.some.inj hg
    exact Nat.lt_succ_self _
  · intro g hg
    exact (h.gets g hg).replaceFile newData mtimeNs (before.mode.getD 0o600)
  · intro d hd
    obtain rfl := Option.some.inj hd
    exact ⟨_, rfl, rfl, hbase.readable⟩
  · intro d e hd he
    obtain rfl := Option.some.inj hd
    exact h.sent c e hc he
  · intro k e holds old hk
    rcases List.mem_append.mp hk with hk | hk
    · exact h.seen k e holds old hk
    · obtain ⟨-, heditor, rfl, rfl⟩ := Entry.replaced.inj (List.mem_singleton.mp hk)
      exact hsent e heditor.symm
  · intro k editor holds data hk
    rcases List.mem_append.mp hk with hk | hk
    · exact ordered_grow (h.backed k editor holds data hk)
    · obtain ⟨rfl, rfl, rfl, hdata⟩ := Entry.replaced.inj (List.mem_singleton.mp hk)
      have hbytes : before.bytes = some data := hfile.trans hdata.symm
      unfold MemorySnapshot.bytes at hbytes
      split at hbytes
      · rename_i hpresent
        cases hbytes
        exact pair_of_mem (hbackup hpresent) (List.mem_singleton.mpr (by rw [hdata]))
      · cases hbytes
  · intro k hk
    exact h.numbered.1 k (hold _ hk (by simp))
  · intro k editor holds old hk
    rcases List.mem_append.mp hk with hk | hk
    · exact h.numbered.2 k editor holds old hk
    · obtain ⟨rfl, -⟩ := Entry.replaced.inj (List.mem_singleton.mp hk)
      exact Nat.le_refl _
  · intro d _ hraised
    exact h.unraised c hc (hold _ hraised (by simp))
  · intro d editor holds old hd _
    obtain rfl := Option.some.inj hd
    rfl
  · intro k editor holds old hraised hk
    have hraised' := hold _ hraised (by simp)
    rcases List.mem_append.mp hk with hk | hk
    · exact h.untouched k editor holds old hraised' hk
    · obtain ⟨rfl, -⟩ := Entry.replaced.inj (List.mem_singleton.mp hk)
      exact h.unraised c hc hraised'

theorem step (h : Inv sha256 s) (hsha : Function.Injective sha256) (hc : s.call = some c) {ok : Bool}
    (hcalm : c.stage.settling = true → ok = true) (mtimeNs : String) : Inv sha256 (s.stepCall sha256 c ok mtimeNs) := by
  have hstage := h.stage c hc
  unfold State.stepCall
  unfold StageInv at hstage
  cases hat : c.stage with
  | before r =>
      simp only [hat] at hstage ⊢
      have hquiet : c.stage.settling = false := by rw [hat]; rfl
      cases hstep : r.step sha256 s.file ok with
      | again r' => exact h.goOn_silent hc (by simp [hquiet]) (read_again h.files hstep)
      | raised => exact h.raised hc hquiet
      | done before =>
          obtain ⟨-, hfaithful⟩ := read_done hstage hstep
          dsimp only
          split
          · exact h.raised hc hquiet
          · rename_i hversion
            have hversion : before.version = c.expected := not_not.mp hversion
            split
            · rename_i hsame
              refine h.returned _ ?_
              unfold Faithful at hfaithful
              rw [MemorySnapshot.bytes, if_pos hsame.1] at hfaithful
              exact hfaithful
            · exact h.goOn_silent hc (by simp [hquiet]) ⟨hfaithful, hversion, decode_encodeLike before c.content⟩
  | staging before newData =>
      simp only [hat] at hstage ⊢
      have hquiet : c.stage.settling = false := by rw [hat]; rfl
      split
      · exact h.goOn_silent hc (by simp [hquiet]) ⟨⟨hstage.faithful, hstage.expected, hstage.readable⟩, trivial⟩
      · exact h.raised hc hquiet
  | current before newData r =>
      simp only [hat] at hstage ⊢
      have hquiet : c.stage.settling = false := by rw [hat]; rfl
      have hbase : ∀ stage, Base sha256 { c with stage } before newData := fun _ =>
        ⟨hstage.1.faithful, hstage.1.expected, hstage.1.readable⟩
      cases hstep : r.step sha256 s.file ok with
      | again r' => exact h.goOn_silent hc (by simp [hquiet]) ⟨hbase _, read_again h.files hstep⟩
      | raised => exact h.raised hc hquiet
      | done current =>
          dsimp only
          split
          · exact h.raised hc hquiet
          · split
            · exact h.goOn_silent hc (by simp [hquiet]) (hbase _)
            · rename_i habsent
              refine h.goOn_silent hc (by simp [hquiet]) ⟨hbase _, fun hp => ?_, trivial⟩
              have hfaithful := hstage.1.faithful
              unfold Faithful at hfaithful
              rw [MemorySnapshot.bytes, if_pos hp] at hfaithful
              exact absurd ⟨hp, by simp [hfaithful]⟩ habsent
  | backup before newData =>
      simp only [hat] at hstage ⊢
      have hquiet : c.stage.settling = false := by rw [hat]; rfl
      split
      · exact h.goOn hc (by simp) (by simp [hquiet])
          ⟨⟨hstage.faithful, hstage.expected, hstage.readable⟩, by simp⟩
      · exact h.raised hc hquiet
  | flushing before newData =>
      simp only [hat] at hstage ⊢
      have hquiet : c.stage.settling = false := by rw [hat]; rfl
      split
      · exact h.goOn_silent hc (by simp [hquiet])
          ⟨⟨hstage.1.faithful, hstage.1.expected, hstage.1.readable⟩, fun _ => hstage.2, trivial⟩
      · exact h.raised hc hquiet
  | last before newData r =>
      simp only [hat] at hstage ⊢
      have hquiet : c.stage.settling = false := by rw [hat]; rfl
      obtain ⟨hbase, hbackup, hfresh⟩ := hstage
      cases hstep : r.step sha256 s.file ok with
      | again r' =>
          exact h.goOn_silent hc (by simp [hquiet])
            ⟨⟨hbase.faithful, hbase.expected, hbase.readable⟩, hbackup, read_again h.files hstep⟩
      | raised => exact h.raised hc hquiet
      | done current =>
          dsimp only
          split
          · exact h.raised hc hquiet
          · rename_i hversion
            obtain ⟨hfile, hfaithful⟩ := read_done hfresh hstep
            have hdigest : current.sha256 = before.sha256 := congrArg Prod.snd (not_not.mp hversion)
            have hbytes : before.bytes = current.bytes := by
              refine Option.map_injective hsha ?_
              rw [← hbase.faithful, ← hdigest]
              exact hfaithful
            exact h.replaced hsha hc hbase (hbytes.trans hfile) hbackup mtimeNs
  | replaced newData =>
      simp only [hat] at hstage ⊢
      rw [hcalm (by rw [hat]; rfl), if_pos rfl]
      exact h.goOn_silent hc (fun _ => rfl) ⟨hstage, trivial⟩
  | written newData r =>
      simp only [hat] at hstage ⊢
      obtain ⟨⟨f, hfile, rfl, hdecode⟩, hcaught⟩ := hstage
      rw [hcalm (by rw [hat]; rfl)]
      rcases read_caught hcaught hfile hdecode with ⟨r', hstep, hr'⟩ | ⟨snapshot, hstep, hsnapshot⟩
      · rw [hstep]
        exact h.goOn_silent hc (fun _ => rfl) ⟨⟨f, hfile, rfl, hdecode⟩, hr'⟩
      · rw [hstep]
        obtain ⟨hbytes, hfaithful⟩ := snapshotOf_faithful hsnapshot
        refine h.returned _ ?_
        unfold Faithful at hfaithful
        rw [hbytes] at hfaithful
        exact hfaithful

theorem next (h : Inv sha256 s) (hsha : Function.Injective sha256) {a : Action} {t : State} (hcalm : Calm s a)
    (hnext : Memory.next sha256 s a = some t) : Inv sha256 t := by
  cases a with
  | external file =>
      cases file with
      | none =>
          obtain rfl := Option.some.inj hnext
          exact h.refile hcalm (fun r hr => hr.remove) fun _ hg => by cases hg
      | some file =>
          obtain rfl := Option.some.inj hnext
          exact h.external hcalm _ _ _
  | get e =>
      obtain rfl := Option.some.inj hnext
      refine h.reget (fun g hg => ?_) h.held
      rcases List.mem_append.mp hg with hg | hg
      · exact h.gets g hg
      · rw [List.mem_singleton.mp hg]
        trivial
  | getStep i ok =>
      obtain ⟨⟨e, r⟩, hi, rfl⟩ := Option.map_eq_some_iff.mp hnext
      exact h.stepGet hi ok
  | save e content =>
      simp only [Memory.next] at hnext
      split at hnext
      · obtain ⟨x, hx, rfl⟩ := Option.map_eq_some_iff.mp hnext
        exact h.begin (some e) content fun _ _ => h.held e x hx
      · cases hnext
  | put content expected =>
      simp only [Memory.next] at hnext
      split at hnext
      · obtain rfl := Option.some.inj hnext
        exact h.begin none content fun _ he => by cases he
      · cases hnext
  | step ok mtimeNs =>
      obtain ⟨c, hc, rfl⟩ := Option.map_eq_some_iff.mp hnext
      refine h.step hsha hc (fun hs => hcalm ?_) mtimeNs
      rw [settling_of_call hc]
      exact hs

end Inv

theorem inv_start {sha256 : ByteArray → Digest} : Inv sha256 {} := by
  constructor <;> simp

-- For every interleaving of saves, reads and other programs: a save that replaces the file replaces the bytes its
-- editor held, they were stored first, and a save that raises has replaced nothing.
theorem saves_safe {sha256 : ByteArray → Digest} (hsha : Function.Injective sha256) {s : State}
    (h : ((machine sha256).restrict Calm).Reachable s) :
    (∀ k e holds old, Entry.replaced k (some e) holds old ∈ s.log → old = holds) ∧
    (∀ k editor holds data, Entry.replaced k editor holds (some data) ∈ s.log →
      [Entry.backup k data, .replaced k editor holds (some data)].Sublist s.log) ∧
    ∀ k editor holds old, Entry.raised k ∈ s.log → Entry.replaced k editor holds old ∉ s.log := by
  have hinv : Inv sha256 s := by
    refine h.invariant inv_start fun s a t hs hnext => ?_
    obtain ⟨hcalm, hnext⟩ := Machine.restrict_next hnext
    exact hs.next hsha hcalm hnext
  exact ⟨hinv.seen, hinv.backed, hinv.untouched⟩

-- A digest without collisions: the bytes themselves, one character each.
def digest (data : ByteArray) : Digest := .ofList (data.data.toList.map fun u => Char.ofNat u.toNat)

theorem digest_injective : Function.Injective digest := by
  have hbyte : Function.Injective fun u : UInt8 => Char.ofNat u.toNat := by
    have htoNat : ∀ u : UInt8, (Char.ofNat u.toNat).toNat = u.toNat := by
      intro u
      have hvalid : u.toNat.isValidChar := Or.inl (Nat.lt_trans u.toNat_lt (by decide))
      rw [Char.ofNat, dif_pos hvalid]
      rfl
    intro u v h
    have hnat : u.toNat = v.toNat := by
      rw [← htoNat u, ← htoNat v]
      exact congrArg Char.toNat h
    exact UInt8.toNat_inj.mp hnat
  intro a b h
  have hlist : a.data.toList = b.data.toList := List.map_injective_iff.mpr hbyte (String.ofList_injective h)
  cases a
  cases b
  simpa [Array.toList_inj] using hlist

-- An editor that has read "a" saves `content`, up to `os.replace`.
def replacing (content : String) : List Action :=
  .save 0 content :: List.replicate 9 (.step true "2")

def reading : List Action := [.external (some ("a".toUTF8, "1", 420)), .get 0, .getStep 0 true, .getStep 0 true]

theorem saves_safe_run : ∃ s, ((machine digest).restrict Calm).Reachable s ∧
    Entry.replaced 1 (some 0) (some "a".toUTF8) (some "a".toUTF8) ∈ s.log ∧
    [Entry.backup 1 "a".toUTF8, .replaced 1 (some 0) (some "a".toUTF8) (some "a".toUTF8)].Sublist s.log := by
  have hrun : (((machine digest).restrict Calm).run {} (reading ++ replacing "b")).map
      (fun s => decide (Entry.replaced 1 (some 0) (some "a".toUTF8) (some "a".toUTF8) ∈ s.log)) = some true := by
    decide
  obtain ⟨s, hs, heq⟩ := Option.map_eq_some_iff.mp hrun
  have hmem := of_decide_eq_true heq
  exact ⟨s, ⟨_, hs⟩, hmem, (saves_safe digest_injective ⟨_, hs⟩).2.1 1 (some 0) _ _ hmem⟩

-- Another program replaces the file with "x" between `os.replace` and the snapshot whose version is returned: the
-- editor, which holds "b", replaces "x" with its next save.
theorem unseen_replaced :
    (∃ s, (machine digest).Reachable s ∧
      Entry.replaced 2 (some 0) (some "b".toUTF8) (some "x".toUTF8) ∈ s.log) ∧
    -- with bytes that are no text in its place, the save raises after it has replaced the file
    ∃ s, (machine digest).Reachable s ∧ Entry.raised 1 ∈ s.log ∧
      Entry.replaced 1 (some 0) (some "a".toUTF8) (some "a".toUTF8) ∈ s.log := by
  have hunseen : ((machine digest).run {} (reading ++ replacing "b" ++ [Action.step true "2", .external (some ("x".toUTF8, "3", 420)),
      .step true "2", .step true "2"] ++ replacing "c")).map
      (fun s => decide (Entry.replaced 2 (some 0) (some "b".toUTF8) (some "x".toUTF8) ∈ s.log)) = some true := by
    decide
  have hraised : ((machine digest).run {} (reading ++ replacing "b" ++ [Action.step true "2", .external (some (⟨#[255]⟩, "3", 420)),
      .step true "2", .step true "2"])).map
      (fun s => decide (Entry.raised 1 ∈ s.log ∧
        Entry.replaced 1 (some 0) (some "a".toUTF8) (some "a".toUTF8) ∈ s.log)) = some true := by
    decide
  obtain ⟨s, hs, heq⟩ := Option.map_eq_some_iff.mp hunseen
  obtain ⟨t, ht, heq'⟩ := Option.map_eq_some_iff.mp hraised
  exact ⟨⟨s, ⟨_, hs⟩, of_decide_eq_true heq⟩, t, ⟨_, ht⟩, of_decide_eq_true heq'⟩

end GaHub.Memory
