import Mathlib.Data.List.Infix
import GaHub.Lib.Routine

namespace GaHub.Restore

open Lib Lib.Routine

abbrev Path := String

-- The collaborators of the factory. `replace` is `os.replace`, which backs an unreadable archive up.
inductive Call where
  | get
  | service
  | continueInplace
  | takeoverStaleLock
  | beginFresh
  | replace
  | rotateArchive
  | acquireBirthLock
  | bindArchive
  | bindRewindStore
  | activateProject
  | startRunThread
  deriving DecidableEq

-- What a collaborator does when it is called: what it returns, `none` where it raises, and whether the new agent
-- holds an archive lock because of it.
structure Answer (α : Type) where
  result : Option α
  locks : Bool := false

structure Row where
  archivePath : Path := ""
  projectName : String := ""

structure Collaborators where
  get : Answer Row
  service : Answer Unit
  continueInplace : Answer (String × Bool)
  takeoverStaleLock : Answer Bool
  retry : Answer (String × Bool)
  beginFresh : Answer Unit
  replace : Answer Unit
  rotateArchive : Answer Unit
  acquireBirthLock : Answer Unit
  bindArchive : Answer Unit
  -- a runtime need not have a `bind_rewind_store`
  bindRewindStore : Option (Answer Unit)
  activateProject : Answer Unit
  startRunThread : Answer Unit
  logPath : Path
  timestamp : String
  resolve : Path → Path

-- A call that was answered, and whether the agent held a lock by then.
structure Answered where
  call : Call
  raised : Bool
  locked : Bool

structure World where
  -- the session's stored archive path, and the files that exist
  archivePath : Path
  files : Path → Bool
  locked : Bool := false
  refusal : Option String := none
  renamed : Bool := false
  rebound : Bool := false
  calls : List Answered := []

inductive Raised where
  | external
  | runtimeRestoreError (message : String)

abbrev Step := Routine World Raised

variable {α : Type}

def World.answered (w : World) (call : Call) (a : Answer α) : World :=
  let locked := w.locked || a.locks
  { w with locked, calls := w.calls ++ [{ call, raised := a.result.isNone, locked }] }

def ask (call : Call) (a : Answer α) : Step α := do
  update fun w => w.answered call a
  match a.result with
  | some x => pure x
  | none => throw .external

def releaseCurrent : Step Unit := update fun w => { w with locked := false }

def CONTENT_FAILURE_MARKERS : List String := ["为空或格式不符", "无法解析"]

def isContentFailure (message : String) : Bool :=
  CONTENT_FAILURE_MARKERS.any fun marker => marker.toList <:+: message.toList

def continueInplace (a : Answer (String × Bool)) : Step (String × Bool) := do
  let (message, ok) ← ask .continueInplace a
  if ok then pure () else update fun w => { w with refusal := some message }
  pure (message, ok)

variable (c : Collaborators)

def rotateUnreadableArchive (resolvedArchive : Path) : Step Unit := do
  ask .beginFresh c.beginFresh
  let backup := resolvedArchive ++ ".broken-" ++ c.timestamp
  tryCatch
    (do
      ask .replace c.replace
      update fun w =>
        { w with renamed := true, files := fun p => p == backup || p != resolvedArchive && w.files p })
    fun _ => pure ()
  ask .rotateArchive c.rotateArchive
  update fun w => { w with archivePath := c.resolve c.logPath, rebound := true }

-- The first refusal may come from the lock a dead process left behind: once it is gone, one immediate retry.
def continueOrTakeOver : Step (String × Bool) := do
  let (message, ok) ← continueInplace c.continueInplace
  if ok then pure (message, ok)
  else do
    if ← ask .takeoverStaleLock c.takeoverStaleLock then continueInplace c.retry else pure (message, ok)

def restoreArchive (archiveOverride : Option Path) (archivePath : Path) : Step Unit := do
  let resolvedArchive := c.resolve archivePath
  let (message, ok) ← continueOrTakeOver c
  if ok then pure ()
  else if archiveOverride = none ∧ isContentFailure message then rotateUnreadableArchive c resolvedArchive
  else do
    releaseCurrent
    throw (.runtimeRestoreError message)

def birth : Step Unit := do
  ask .acquireBirthLock c.acquireBirthLock
  tryCatch
    (do
      ask .bindArchive c.bindArchive
      update fun w => { w with archivePath := c.resolve c.logPath })
    fun e => do
      releaseCurrent
      throw e

def bindRewind : Step Unit :=
  match c.bindRewindStore with
  | none => pure ()
  | some a =>
    tryCatch (ask .bindRewindStore a) fun _ => do
      releaseCurrent
      throw (.runtimeRestoreError "GA rewind checkpoint initialization failed")

def openArchive (archiveOverride : Option Path) (archivePath : Path) : Step Unit :=
  if archivePath ≠ "" then restoreArchive c archiveOverride archivePath else birth c

def activate (projectName : String) : Step Unit :=
  if projectName ≠ "" then ask .activateProject c.activateProject else pure ()

-- `SessionRuntimeFactory.__call__`
def factory (archiveOverride : Option Path) : Step Unit := do
  let row ← ask .get c.get
  ask .service c.service
  openArchive c archiveOverride (archiveOverride.getD row.archivePath)
  bindRewind c
  activate c row.projectName
  ask .startRunThread c.startRunThread

def start (files : Path → Bool) : World := { archivePath := (c.get.result.getD {}).archivePath, files }

section Outcome

variable (archiveOverride : Option Path)

-- A lock the new agent got is released where the construction raises, an archive is given up only for its content,
-- and the session's archive is there after a rotation that failed.
structure LeavesNothing (out : Except Raised Unit) (w : World) : Prop where
  released : ∀ e, out = .error e → w.locked = false
  content : w.renamed ∨ w.rebound → archiveOverride = none ∧ ∃ message, w.refusal = some message ∧
    isContentFailure message
  named : w.renamed → (∃ a ∈ w.calls, a.call = .rotateArchive ∧ a.raised) → w.files (c.resolve w.archivePath)

-- The calls an exception of which the code handles.
def Call.handled : Call → Bool
  | .replace => true
  | .bindArchive => true
  | .bindRewindStore => true
  | _ => false

structure Sound (calls : List Answered) : Prop where
  handled : ∀ a ∈ calls, a.raised → a.locked → a.call.handled
  rotated : ¬((∃ a ∈ calls, a.call = .replace ∧ a.raised = false) ∧ ∃ a ∈ calls, a.call = .rotateArchive ∧ a.raised)

-- The construction while it goes on: nothing has raised but a rename.
structure Going (w : World) : Prop where
  answered : ∀ a ∈ w.calls, a.raised → a.call = .replace
  renamed : w.renamed ↔ ∃ a ∈ w.calls, a.call = .replace ∧ a.raised = false
  content : w.renamed ∨ w.rebound → archiveOverride = none ∧ ∃ message, w.refusal = some message ∧
    isContentFailure message

def Settled (out : Except Raised Unit) (w : World) : Prop :=
  LeavesNothing c archiveOverride out w ↔ Sound w.calls

def Continues (out : Except Raised α) (w : World) : Prop :=
  match out with
  | .ok _ => Going archiveOverride w
  | .error e => Settled c archiveOverride (.error e) w

variable {c archiveOverride} {w : World} {call : Call} {a : Answer α}

theorem Going.sound (h : Going archiveOverride w) : Sound w.calls where
  handled b hb hraised _ := by rw [h.answered b hb hraised]; rfl
  rotated := by
    rintro ⟨-, b, hb, hcall, hraised⟩
    rw [h.answered b hb hraised] at hcall
    cases hcall

theorem Going.settled (h : Going archiveOverride w) : Settled c archiveOverride (.ok ()) w := by
  refine iff_of_true ⟨fun e he => (by cases he), h.content, ?_⟩ h.sound
  rintro - ⟨b, hb, hcall, hraised⟩
  rw [h.answered b hb hraised] at hcall
  cases hcall

theorem Going.release {e : Raised} (h : Going archiveOverride w) :
    Settled c archiveOverride (.error e) { w with locked := false } := by
  refine iff_of_true ⟨fun _ _ => rfl, h.content, ?_⟩ h.sound
  rintro - ⟨b, hb, hcall, hraised⟩
  rw [h.answered b hb hraised] at hcall
  cases hcall

theorem answered_calls (w : World) (call : Call) (a : Answer α) : (w.answered call a).calls =
    w.calls ++ [{ call, raised := a.result.isNone, locked := w.locked || a.locks }] := rfl

theorem Going.returned (h : Going archiveOverride w) (hcall : call ≠ .replace) (ha : a.result.isNone = false) :
    Going archiveOverride (w.answered call a) where
  answered b hb hraised := by
    rw [answered_calls, List.mem_append, List.mem_singleton] at hb
    rcases hb with hb | rfl
    · exact h.answered b hb hraised
    · exact absurd hraised (by simp [ha])
  renamed := by
    refine h.renamed.trans ⟨?_, ?_⟩
    · rintro ⟨b, hb, hrest⟩
      exact ⟨b, List.mem_append_left _ hb, hrest⟩
    · rintro ⟨b, hb, hrest⟩
      rw [answered_calls, List.mem_append, List.mem_singleton] at hb
      rcases hb with hb | rfl
      · exact ⟨b, hb, hrest⟩
      · exact absurd hrest.1 hcall
  content := h.content

-- A call whose exception nothing handles: what it leaves is right exactly when no lock was held, and no archive
-- renamed where it was the rotation.
theorem Going.raised {e : Raised} (h : Going archiveOverride w) (hcall : call.handled = false)
    (ha : a.result.isNone) (hgone : call = .rotateArchive → w.renamed → w.files (c.resolve w.archivePath) = false) :
    Settled c archiveOverride (.error e) (w.answered call a) := by
  constructor
  · intro hleaves
    constructor
    · intro b hb hraised hlocked
      rw [answered_calls, List.mem_append, List.mem_singleton] at hb
      rcases hb with hb | rfl
      · exact h.sound.handled b hb hraised hlocked
      · exact absurd ((hleaves.released e rfl).symm.trans hlocked) Bool.false_ne_true
    · rintro ⟨⟨b, hb, hreplace, hreturned⟩, d, hd, hrotate, hraised⟩
      rw [answered_calls, List.mem_append, List.mem_singleton] at hb hd
      have hrenamed : w.renamed := by
        rcases hb with hb | rfl
        · exact h.renamed.mpr ⟨b, hb, hreplace, hreturned⟩
        · simp [ha] at hreturned
      rcases hd with hd | rfl
      · rw [h.answered d hd hraised] at hrotate
        cases hrotate
      · have hnamed := hleaves.named hrenamed ⟨_, List.mem_append_right _ (List.mem_singleton.mpr rfl), hrotate, hraised⟩
        exact Bool.false_ne_true ((hgone hrotate hrenamed).symm.trans hnamed)
  · intro hsound
    refine ⟨fun _ _ => ?_, h.content, ?_⟩
    · by_contra hlocked
      have hmem : { call, raised := a.result.isNone, locked := w.locked || a.locks } ∈ (w.answered call a).calls :=
        List.mem_append_right _ (List.mem_singleton.mpr rfl)
      have := hsound.handled _ hmem ha (eq_true_of_ne_false hlocked)
      exact Bool.false_ne_true (hcall.symm.trans this)
    · intro hrenamed hrotation
      obtain ⟨b, hb, hrest⟩ := h.renamed.mp hrenamed
      exact absurd ⟨⟨b, List.mem_append_left _ hb, hrest⟩, hrotation⟩ hsound.rotated

theorem Going.handled {e : Raised} (h : Going archiveOverride w) (hcall : call.handled) :
    Settled c archiveOverride (.error e) { w.answered call a with locked := false } := by
  have hrotation : ¬∃ b ∈ (w.answered call a).calls, b.call = .rotateArchive ∧ b.raised := by
    rintro ⟨b, hb, hrotate, hraised⟩
    rw [answered_calls, List.mem_append, List.mem_singleton] at hb
    rcases hb with hb | rfl
    · rw [h.answered b hb hraised] at hrotate
      cases hrotate
    · rw [show call = .rotateArchive from hrotate] at hcall
      cases hcall
  refine iff_of_true ⟨fun _ _ => rfl, h.content, fun _ hr => absurd hr hrotation⟩ ⟨?_, fun hr => hrotation hr.2⟩
  intro b hb hraised hlocked
  rw [show _ = _ from answered_calls w call a, List.mem_append, List.mem_singleton] at hb
  rcases hb with hb | rfl
  · exact h.sound.handled b hb hraised hlocked
  · exact hcall

theorem ends_ask (call : Call) (a : Answer α) (w : World) : Ends (ask call a) w fun out t =>
    t = w.answered call a ∧ match out with
      | .ok x => a.result = some x
      | .error _ => a.result = none := by
  refine Ends.bind (q := fun out t => t = w.answered call a ∧ out = .ok ()) ⟨rfl, rfl⟩ ?_ ?_
  · rintro e t ⟨-, h⟩
    cases h
  · rintro - t ⟨rfl, -⟩
    cases hresult : a.result with
    | none => exact Ends.throw ⟨rfl, rfl⟩
    | some x => exact Ends.pure ⟨rfl, rfl⟩

theorem Going.ask (h : Going archiveOverride w) (hcall : call.handled = false)
    (hgone : call = .rotateArchive → w.renamed → w.files (c.resolve w.archivePath) = false) :
    Ends (ask call a) w (Continues c archiveOverride) := by
  refine (ends_ask call a w).weaken ?_
  rintro out t ⟨rfl, hout⟩
  cases out with
  | ok x =>
      refine h.returned ?_ (by rw [hout]; rfl)
      rintro rfl
      cases hcall
  | error e => exact h.raised hcall (by rw [hout]; rfl) hgone

theorem Continues.bind {β : Type} {x : Step α} {f : α → Step β} (h : Ends x w (Continues c archiveOverride))
    (hrest : ∀ a t, Going archiveOverride t → Ends (f a) t (Continues c archiveOverride)) :
    Ends (x >>= f) w (Continues c archiveOverride) :=
  Ends.bind h (fun _ _ he => he) hrest

theorem ends_release {e : Raised} (h : Settled c archiveOverride (.error e) { w with locked := false }) :
    Ends (do releaseCurrent; throw e : Step Unit) w (Continues c archiveOverride) := h

theorem bindRewind_continues (h : Going archiveOverride w) : Ends (bindRewind c) w (Continues c archiveOverride) := by
  unfold bindRewind
  cases c.bindRewindStore with
  | none => exact Ends.pure h
  | some a =>
      refine Ends.catches (ends_ask .bindRewindStore a w) ?_ ?_
      · rintro x t ⟨rfl, hresult⟩
        exact h.returned (by decide) (by rw [hresult]; rfl)
      · rintro e t ⟨rfl, -⟩
        exact ends_release (h.handled rfl)

theorem birth_continues (h : Going archiveOverride w) : Ends (birth c) w (Continues c archiveOverride) := by
  refine Continues.bind (h.ask rfl (by rintro ⟨⟩)) fun _ t ht => ?_
  refine Ends.catches (q := fun out u => match out with
      | .ok _ => Going archiveOverride u
      | .error e => ∀ e', Settled c archiveOverride (.error e') { u with locked := false }) ?_ ?_ ?_
  · refine Ends.bind (ends_ask .bindArchive c.bindArchive t) ?_ ?_
    · rintro e u ⟨rfl, -⟩ e'
      exact ht.handled rfl
    · rintro x u ⟨rfl, hresult⟩
      have hgoing : Going archiveOverride (t.answered .bindArchive c.bindArchive) :=
        ht.returned (by decide) (by rw [hresult]; rfl)
      exact Ends.update { hgoing with }
  · exact fun _ u hu => hu
  · exact fun e u hu => ends_release (hu e)

-- The construction before any rotation, the session's stored archive path `p`.
structure Untouched (archiveOverride : Option Path) (p : Path) (w : World) : Prop where
  going : Going archiveOverride w
  renamed : w.renamed = false
  rebound : w.rebound = false
  archivePath : w.archivePath = p

variable {p : Path}

theorem Untouched.ask (h : Untouched archiveOverride p w) (hcall : call.handled = false) :
    Ends (ask call a) w fun out t => match out with
      | .ok _ => Untouched archiveOverride p t ∧ t.refusal = w.refusal
      | .error e => Settled c archiveOverride (.error e) t := by
  have hgone : call = .rotateArchive → w.renamed → w.files (c.resolve w.archivePath) = false := by
    rintro - hrenamed
    rw [h.renamed] at hrenamed
    cases hrenamed
  refine (ends_ask call a w).weaken ?_
  rintro out t ⟨rfl, hout⟩
  cases out with
  | ok x =>
      refine ⟨⟨h.going.returned ?_ (by rw [hout]; rfl), h.renamed, h.rebound, h.archivePath⟩, rfl⟩
      rintro rfl
      cases hcall
  | error e => exact h.going.raised hcall (by rw [hout]; rfl) hgone

-- An attempt to continue the archive: its refusal is the last one.
def Attempted (c : Collaborators) (archiveOverride : Option Path) (p : Path) (out : Except Raised (String × Bool))
    (w : World) : Prop :=
  match out with
  | .ok (message, ok) => Untouched archiveOverride p w ∧ (ok = false → w.refusal = some message)
  | .error e => Settled c archiveOverride (.error e) w

theorem Untouched.refuse (h : Untouched archiveOverride p w) (refusal : Option String) :
    Untouched archiveOverride p { w with refusal } where
  going := { h.going with
    content := by
      rintro (hr | hr)
      · exact absurd (h.renamed.symm.trans hr) Bool.false_ne_true
      · exact absurd (h.rebound.symm.trans hr) Bool.false_ne_true }
  renamed := h.renamed
  rebound := h.rebound
  archivePath := h.archivePath

theorem Untouched.continueInplace {a : Answer (String × Bool)} (h : Untouched archiveOverride p w) :
    Ends (continueInplace a) w (Attempted c archiveOverride p) := by
  refine Ends.bind (h.ask rfl) (fun _ _ he => he) ?_
  rintro ⟨message, ok⟩ t ⟨ht, -⟩
  cases ok with
  | true => exact ⟨ht, by rintro ⟨⟩⟩
  | false => exact ⟨ht.refuse _, fun _ => rfl⟩

theorem broken_ne (q t : String) : q ≠ q ++ ".broken-" ++ t := by
  intro h
  have := congrArg String.length h
  simp only [String.length_append] at this
  have : ".broken-".length = 8 := rfl
  omega

theorem Going.replaced {a : Answer Unit} {files : Path → Bool} (h : Going archiveOverride w)
    (ha : a.result.isNone = false) (hcontent : archiveOverride = none ∧ ∃ m, w.refusal = some m ∧ isContentFailure m) :
    Going archiveOverride { w.answered .replace a with renamed := true, files } where
  answered b hb hraised := by
    rw [show _ = _ from answered_calls w .replace a, List.mem_append, List.mem_singleton] at hb
    rcases hb with hb | rfl
    · exact h.answered b hb hraised
    · rfl
  renamed := iff_of_true rfl ⟨_, List.mem_append_right _ (List.mem_singleton.mpr rfl), rfl, ha⟩
  content _ := hcontent

theorem Going.notReplaced {a : Answer Unit} (h : Going archiveOverride w) (ha : a.result.isNone) :
    Going archiveOverride (w.answered .replace a) where
  answered b hb hraised := by
    rw [answered_calls, List.mem_append, List.mem_singleton] at hb
    rcases hb with hb | rfl
    · exact h.answered b hb hraised
    · rfl
  renamed := by
    refine h.renamed.trans ⟨fun ⟨b, hb, hrest⟩ => ⟨b, List.mem_append_left _ hb, hrest⟩, ?_⟩
    rintro ⟨b, hb, hrest⟩
    rw [answered_calls, List.mem_append, List.mem_singleton] at hb
    rcases hb with hb | rfl
    · exact ⟨b, hb, hrest⟩
    · exact absurd (ha.symm.trans hrest.2) Bool.false_ne_true.symm
  content := h.content

theorem rotate_continues (hw : Untouched none p w) (hfresh : ∃ m, w.refusal = some m ∧ isContentFailure m) :
    Ends (rotateUnreadableArchive c (c.resolve p)) w (Continues c none) := by
  refine Ends.bind (hw.ask rfl) (fun _ _ he => he) ?_
  rintro - t ⟨ht, hrefusal⟩
  rw [← hrefusal] at hfresh
  refine Ends.bind (q := fun out u => out = .ok () ∧ Going none u ∧ u.refusal = t.refusal ∧
    (u.renamed → u.files (c.resolve u.archivePath) = false)) ?_ ?_ ?_
  · refine Ends.catches (q := fun out u => match out with
      | .ok _ => Going none u ∧ u.refusal = t.refusal ∧ (u.renamed → u.files (c.resolve u.archivePath) = false)
      | .error _ => u = t.answered .replace c.replace ∧ c.replace.result = none) ?_ ?_ ?_
    · refine Ends.bind (ends_ask .replace c.replace t) (fun _ _ he => he) ?_
      rintro x u ⟨rfl, hresult⟩
      refine Ends.update ⟨ht.going.replaced (by rw [hresult]; rfl) ⟨rfl, hfresh⟩, rfl, fun _ => ?_⟩
      show (c.resolve t.archivePath == _ || c.resolve t.archivePath != _ && _) = false
      rw [ht.archivePath]
      simp [broken_ne]
    · exact fun _ u hu => ⟨rfl, hu⟩
    · rintro e u ⟨rfl, hresult⟩
      refine Ends.pure ⟨rfl, ht.going.notReplaced (by rw [hresult]; rfl), rfl, fun hrenamed => ?_⟩
      exact absurd (ht.renamed.symm.trans hrenamed) Bool.false_ne_true
  · rintro e u ⟨he, -⟩
    cases he
  · rintro - u ⟨-, hu, hsame, hgone⟩
    refine Ends.bind (ends_ask .rotateArchive c.rotateArchive u) ?_ ?_
    · rintro e v ⟨rfl, hresult⟩
      exact hu.raised rfl (by rw [hresult]; rfl) fun _ => hgone
    · rintro x v ⟨rfl, hresult⟩
      have hrotated : Going none (u.answered .rotateArchive c.rotateArchive) :=
        hu.returned (by decide) (by rw [hresult]; rfl)
      exact Ends.update { hrotated with content := fun _ => ⟨rfl, hsame ▸ hfresh⟩ }

theorem continueOrTakeOver_attempted (hw : Untouched archiveOverride p w) :
    Ends (continueOrTakeOver c) w (Attempted c archiveOverride p) := by
  refine Ends.bind hw.continueInplace (fun _ _ he => he) ?_
  rintro ⟨message, ok⟩ t ⟨ht, hrefusal⟩
  cases ok with
  | true => exact Ends.pure ⟨ht, hrefusal⟩
  | false =>
      refine Ends.bind (ht.ask rfl) (fun _ _ he => he) ?_
      rintro taken u ⟨hu, hsame⟩
      cases taken with
      | true => exact hu.continueInplace
      | false => exact Ends.pure ⟨hu, fun hok => hsame.trans (hrefusal hok)⟩

theorem restore_continues (hw : Untouched archiveOverride p w) {q : Path} (hq : archiveOverride = none → q = p) :
    Ends (restoreArchive c archiveOverride q) w (Continues c archiveOverride) := by
  refine Ends.bind (continueOrTakeOver_attempted hw) (fun _ _ he => he) ?_
  rintro ⟨message, ok⟩ t ⟨ht, hlast⟩
  cases ok with
  | true => exact Ends.pure ht.going
  | false =>
      show Ends (if archiveOverride = none ∧ isContentFailure message then _ else _) t _
      split
      case isTrue hcontent =>
        obtain ⟨rfl, hcontent⟩ := hcontent
        rw [hq rfl]
        exact rotate_continues ht ⟨message, hlast rfl, hcontent⟩
      case isFalse => exact ends_release ht.going.release

theorem openArchive_continues (hw : Untouched archiveOverride p w) :
    Ends (openArchive c archiveOverride (archiveOverride.getD p)) w (Continues c archiveOverride) := by
  unfold openArchive
  split
  · refine restore_continues hw ?_
    rintro rfl
    rfl
  · exact birth_continues hw.going

theorem activate_continues (h : Going archiveOverride w) (projectName : String) :
    Ends (activate c projectName) w (Continues c archiveOverride) := by
  unfold activate
  split
  · exact h.ask rfl (by rintro ⟨⟩)
  · exact Ends.pure h

end Outcome

-- Whatever the collaborators answer, a construction leaves nothing behind exactly when nothing that has no handler
-- raised while the agent held a lock, nor a rotation after the archive had been renamed.
theorem leaves_nothing_iff (archiveOverride : Option Path) (files : Path → Bool) :
    Ends (factory c archiveOverride) (start c files) fun out w =>
      LeavesNothing c archiveOverride out w ↔ Sound w.calls := by
  have hstart : Untouched archiveOverride (start c files).archivePath (start c files) := by
    refine ⟨⟨?_, ?_, ?_⟩, rfl, rfl, rfl⟩ <;> simp [start]
  refine Ends.weaken (q := Continues c archiveOverride) ?_ ?_
  · refine Ends.bind (q := fun out t => match out with
        | .ok row => Untouched archiveOverride row.archivePath t
        | .error e => Settled c archiveOverride (.error e) t) ?_ (fun _ _ he => he) ?_
    · refine (ends_ask .get c.get (start c files)).weaken ?_
      rintro out t ⟨rfl, hout⟩
      cases out with
      | ok row =>
          refine ⟨hstart.going.returned (by decide) (by rw [hout]; rfl), rfl, rfl, ?_⟩
          simp [World.answered, start, hout]
      | error e => exact hstart.going.raised rfl (by rw [hout]; rfl) (by rintro ⟨⟩)
    · intro row t ht
      refine Ends.bind (ht.ask rfl) (fun _ _ he => he) ?_
      rintro - u ⟨hu, -⟩
      refine Continues.bind (openArchive_continues hu) fun _ v hv => ?_
      refine Continues.bind (bindRewind_continues hv) fun _ v hv => ?_
      refine Continues.bind (activate_continues hv _) fun _ v hv => ?_
      exact hv.ask rfl (by rintro ⟨⟩)
  · rintro out w hw
    cases out with
    | ok x => exact Going.settled hw
    | error e => exact hw

-- An unreadable archive is backed up, then the metadata cannot be written.
def fullDisk : Collaborators where
  get := { result := some { archivePath := "/logs/a.txt" } }
  service := { result := some () }
  continueInplace := { result := some ("无法解析", false) }
  takeoverStaleLock := { result := some false }
  retry := { result := none }
  beginFresh := { result := some (), locks := true }
  replace := { result := some () }
  rotateArchive := { result := none }
  acquireBirthLock := { result := none }
  bindArchive := { result := none }
  bindRewindStore := none
  activateProject := { result := none }
  startRunThread := { result := some () }
  logPath := "/logs/b.txt"
  timestamp := "20260101-000000"
  resolve := id

theorem rotation_leaves_lock : ¬∀ (c : Collaborators) (archiveOverride : Option Path) (files : Path → Bool),
    Ends (factory c archiveOverride) (start c files) (LeavesNothing c archiveOverride) := by
  intro h
  have hlocked : ((factory fullDisk none) (start fullDisk fun _ => true)).2.locked = true := rfl
  have hraised : ((factory fullDisk none) (start fullDisk fun _ => true)).1 = .error .external := rfl
  exact Bool.false_ne_true (((h fullDisk none fun _ => true).released _ hraised).symm.trans hlocked)

end GaHub.Restore
