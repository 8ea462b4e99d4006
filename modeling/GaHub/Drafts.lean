import GaHub.Lib.Dict
import GaHub.Lib.Machine
import Mathlib.Tactic.Common

namespace GaHub.Drafts

open Lib

inductive Status where
  | sending
  | failed
  | uncertain
  deriving DecidableEq

structure DraftSubmission (Attachment : Type) where
  id : Nat
  key : String
  text : String
  attachments : List Attachment
  clearedRevision : Nat
  stageId : Option String := none
  status : Status
  deriving DecidableEq

-- The entries of `submissions` stand in the order of their ids, which is that of their insertion.
structure DraftState (Attachment : Type) where
  texts : Dict String String := .empty
  attachments : Dict String (List Attachment) := .empty
  revisions : Dict String Nat := .empty
  submissions : Dict Nat (DraftSubmission Attachment) := .empty
  submissionSequence : Nat := 0
  deriving DecidableEq

-- A message of the conversation as the receipt subscription reads it.
structure Message where
  pendingWebuiId : String
  pendingWebui : Bool
  streamId : String
  deriving DecidableEq

def Message.isReceipt (m : Message) : Bool := m.pendingWebuiId ≠ "" && !m.pendingWebui && m.streamId ≠ ""

namespace DraftState

variable {Attachment : Type} (path : Attachment → String) (s : DraftState Attachment)

def text (key : String) : String := (s.texts.get? key).getD ""

def files (key : String) : List Attachment := (s.attachments.get? key).getD []

def revision (key : String) : Nat := (s.revisions.get? key).getD 0

def isEmpty (key : String) : Bool := s.text key == "" && (s.files key).isEmpty

def matchesDraft (key text : String) (attachments : List Attachment) : Bool :=
  s.text key == text && (s.files key).length == attachments.length &&
    ((s.files key).zipWith (fun a b => path a == path b) attachments).all id

def setText (key text : String) : DraftState Attachment :=
  { s with texts := s.texts.set key text, revisions := s.revisions.set key (s.revision key + 1) }

def setAttachments (key : String) (attachments : List Attachment) : DraftState Attachment :=
  { s with attachments := s.attachments.set key attachments, revisions := s.revisions.set key (s.revision key + 1) }

def clearDraft (key : String) : DraftState Attachment :=
  { s with
    texts := s.texts.erase key
    attachments := s.attachments.erase key
    revisions := s.revisions.set key (s.revision key + 1) }

def clearDraftIfMatch (key text : String) (attachments : List Attachment) : DraftState Attachment :=
  if s.matchesDraft path key text attachments then s.clearDraft key else s

def locked (key : String) : Bool := s.submissions.values.any fun item => item.key == key && item.status != .failed

-- The state is left as it is where the call returns `null`.
def beginSubmission (key text : String) (attachments : List Attachment) : DraftState Attachment :=
  if !s.matchesDraft path key text attachments then s
  else if s.locked key then s
  else
    let id := s.submissionSequence + 1
    let transaction : DraftSubmission Attachment :=
      { id, key, text, attachments, clearedRevision := s.revision key + 1, status := .sending }
    { texts := s.texts.erase key
      attachments := s.attachments.erase key
      revisions := s.revisions.set key transaction.clearedRevision
      submissions := s.submissions.set id transaction
      submissionSequence := id }

def moveSubmission (id : Nat) (key : String) : DraftState Attachment :=
  match s.submissions.get? id with
  | none => s
  | some item =>
    { s with submissions := s.submissions.set id { item with key := key, clearedRevision := s.revision key } }

def bindSubmissionStage (id : Nat) (stageId : String) : DraftState Attachment :=
  match s.submissions.get? id with
  | none => s
  | some item => { s with submissions := s.submissions.set id { item with stageId := some stageId } }

def finishSubmission (id : Nat) : DraftState Attachment := { s with submissions := s.submissions.erase id }

def acceptSubmissionStage (stageId : String) : DraftState Attachment :=
  match s.submissions.values.find? fun entry => entry.stageId == some stageId with
  | none => s
  | some item => s.finishSubmission item.id

def writeBack (id : Nat) (item : DraftSubmission Attachment) : DraftState Attachment :=
  { s with
    texts := s.texts.set item.key item.text
    attachments := s.attachments.set item.key item.attachments
    revisions := s.revisions.set item.key (s.revision item.key + 1)
    submissions := s.submissions.erase id }

-- The draft that `restoreSubmission` finds is empty, or it does nothing.
def restoreSubmission (id : Nat) : DraftState Attachment :=
  match s.submissions.get? id with
  | none => s
  | some item =>
    if item.status == .sending || s.text item.key != "" || (s.files item.key).length != 0 then s
    else s.writeBack id item

def failSubmission (id : Nat) (uncertain : Bool) : DraftState Attachment :=
  match s.submissions.get? id with
  | none => s
  | some item =>
    let status := if uncertain then Status.uncertain else .failed
    let failed := { s with submissions := s.submissions.set id { item with status := status } }
    if uncertain || failed.revision item.key != item.clearedRevision then failed else failed.restoreSubmission id

-- The subscription of the chat store, for one state of its messages.
def receipts (messages : List Message) : DraftState Attachment :=
  if s.submissions.values.any fun item => item.stageId.any (· ≠ "") then
    messages.foldl (fun s m => if m.isReceipt then s.acceptSubmissionStage m.pendingWebuiId else s) s
  else s

end DraftState

inductive Op (Attachment : Type) where
  | setText (key text : String)
  | setAttachments (key : String) (attachments : List Attachment)
  | clearDraft (key : String)
  | clearDraftIfMatch (key text : String) (attachments : List Attachment)
  | beginSubmission (key text : String) (attachments : List Attachment)
  | moveSubmission (id : Nat) (key : String)
  | bindSubmissionStage (id : Nat) (stageId : String)
  | acceptSubmissionStage (stageId : String)
  | finishSubmission (id : Nat)
  | failSubmission (id : Nat) (uncertain : Bool)
  | restoreSubmission (id : Nat)
  | receipts (messages : List Message)

variable {Attachment : Type} (path : Attachment → String)

def DraftState.step (s : DraftState Attachment) : Op Attachment → DraftState Attachment
  | .setText key text => s.setText key text
  | .setAttachments key attachments => s.setAttachments key attachments
  | .clearDraft key => s.clearDraft key
  | .clearDraftIfMatch key text attachments => s.clearDraftIfMatch path key text attachments
  | .beginSubmission key text attachments => s.beginSubmission path key text attachments
  | .moveSubmission id key => s.moveSubmission id key
  | .bindSubmissionStage id stageId => s.bindSubmissionStage id stageId
  | .acceptSubmissionStage stageId => s.acceptSubmissionStage stageId
  | .finishSubmission id => s.finishSubmission id
  | .failSubmission id uncertain => s.failSubmission id uncertain
  | .restoreSubmission id => s.restoreSubmission id
  | .receipts messages => s.receipts messages

def store : Machine (DraftState Attachment) (Op Attachment) where
  start := {}
  next s op := some (s.step path op)

-- The operations that end a submission: its caller is done with it, or a receipt names its stage.
def Op.finishes (item : DraftSubmission Attachment) : Op Attachment → Bool
  | .finishSubmission id => id == item.id
  | .acceptSubmissionStage stageId => item.stageId == some stageId
  | .receipts messages => messages.any fun m => m.isReceipt && item.stageId == some m.pendingWebuiId
  | _ => false

def Op.moves (id : Nat) : Op Attachment → Bool
  | .moveSubmission id' _ => id' == id
  | _ => false

def Op.targets (key : String) : Op Attachment → Bool
  | .setText key' _ => key' == key
  | .setAttachments key' _ => key' == key
  | .clearDraft key' => key' == key
  | _ => false

namespace DraftState

def SameDraft (s t : DraftState Attachment) (key : String) : Prop := t.text key = s.text key ∧ t.files key = s.files key

-- An operation edits the draft of a key: it is meant to, or it changes what the draft holds.
def Edits (s : DraftState Attachment) (op : Op Attachment) (key : String) : Prop :=
  op.targets key ∨ ¬s.SameDraft (s.step path op) key

-- Submissions are kept under their ids, and a new id is above all of them.
structure Sound (s : DraftState Attachment) : Prop where
  keyed : ∀ id item, s.submissions.get? id = some item → item.id = id
  below : ∀ id item, s.submissions.get? id = some item → id ≤ s.submissionSequence

-- What a step can do to a submission: nothing, a change beside its snapshot, or its end, when its
-- caller or a receipt asks for it or when its snapshot is the draft of its key again.
def Steps (s t : DraftState Attachment) (op : Op Attachment) (id : Nat) : Prop :=
  t.submissions.get? id = s.submissions.get? id ∨ ∃ item, s.submissions.get? id = some item ∧
    ((∃ item', t.submissions.get? id = some item' ∧ item'.id = item.id ∧ item'.text = item.text ∧
        item'.attachments = item.attachments ∧
        (op.moves id = false → item'.key = item.key ∧ item'.clearedRevision = item.clearedRevision)) ∨
      t.submissions.get? id = none ∧
        (op.finishes item ∨ t.text item.key = item.text ∧ t.files item.key = item.attachments))

-- A step leaves the draft of a key with its revision, or counts the revision up.
def Counts (s t : DraftState Attachment) (key : String) : Prop :=
  s.SameDraft t key ∧ t.revision key = s.revision key ∨ t.revision key = s.revision key + 1

section Fields

variable {s : DraftState Attachment}

theorem revision_set (texts : Dict String String) (attachments : Dict String (List Attachment))
    (submissions : Dict Nat (DraftSubmission Attachment)) (sequence : Nat) (key other : String) (n : Nat) :
    ({ texts, attachments, revisions := s.revisions.set key n, submissions, submissionSequence := sequence } :
      DraftState Attachment).revision other = if other = key then n else s.revision other := by
  simp only [revision, Dict.get?_set]
  split <;> rfl

theorem values_mem {item : DraftSubmission Attachment} (h : s.Sound) (hitem : item ∈ s.submissions.values) :
    s.submissions.get? item.id = some item := by
  obtain ⟨id, hget⟩ := Dict.mem_values_iff.mp hitem
  rw [h.keyed id item hget]
  exact hget

theorem finishSubmission_get (id id' : Nat) :
    (s.finishSubmission id).submissions.get? id' = if id' = id then none else s.submissions.get? id' :=
  Dict.get?_erase _ _ _

theorem Sound.replace (h : s.Sound) {id : Nat} {item : DraftSubmission Attachment} (hitem : s.submissions.get? id = some item)
    {item' : DraftSubmission Attachment} (hid : item'.id = item.id) :
    ({ s with submissions := s.submissions.set id item' } : DraftState Attachment).Sound where
  keyed id' other hother := by
    rw [Dict.get?_set] at hother
    split at hother
    next heq =>
      cases hother
      rw [heq, hid, h.keyed id item hitem]
    next => exact h.keyed id' other hother
  below id' other hother := by
    rw [Dict.get?_set] at hother
    split at hother
    next heq => exact heq ▸ h.below id item hitem
    next => exact h.below id' other hother

theorem Sound.erase (h : s.Sound) {texts : Dict String String} {attachments : Dict String (List Attachment)}
    {revisions : Dict String Nat} (id : Nat) :
    ({ texts, attachments, revisions, submissions := s.submissions.erase id,
       submissionSequence := s.submissionSequence } : DraftState Attachment).Sound where
  keyed id' other hother := by
    rw [Dict.get?_erase] at hother
    split at hother
    · cases hother
    · exact h.keyed id' other hother
  below id' other hother := by
    rw [Dict.get?_erase] at hother
    split at hother
    · cases hother
    · exact h.below id' other hother

theorem acceptSubmissionStage_cases (h : s.Sound) (stageId : String) : s.acceptSubmissionStage stageId = s ∨
    ∃ item, s.submissions.get? item.id = some item ∧ item.stageId = some stageId ∧
      s.acceptSubmissionStage stageId = s.finishSubmission item.id := by
  unfold acceptSubmissionStage
  split
  next => exact .inl rfl
  next item hfind =>
    have hmem := List.mem_of_find?_eq_some hfind
    have hstage := List.find?_some hfind
    exact .inr ⟨item, values_mem h hmem, by simpa using hstage, rfl⟩

theorem restoreSubmission_cases (s : DraftState Attachment) (id : Nat) : s.restoreSubmission id = s ∨
    ∃ item, s.submissions.get? id = some item ∧ s.text item.key = "" ∧ s.files item.key = [] ∧
      s.restoreSubmission id = s.writeBack id item := by
  unfold restoreSubmission
  split
  next => exact .inl rfl
  next item hitem =>
    split
    next => exact .inl rfl
    next hempty =>
      simp only [Bool.or_eq_true, bne_iff_ne, ne_eq, not_or, not_not, List.length_eq_zero_iff] at hempty
      exact .inr ⟨item, hitem, hempty.1.2, hempty.2, rfl⟩

-- A failed call keeps its submission under a new status, and may then restore it where its draft has
-- not been touched.
theorem failSubmission_cases (s : DraftState Attachment) (id : Nat) (uncertain : Bool) :
    s.failSubmission id uncertain = s ∨ ∃ item status, s.submissions.get? id = some item ∧
      (s.failSubmission id uncertain = { s with submissions := s.submissions.set id { item with status := status } } ∨
        s.revision item.key = item.clearedRevision ∧ s.failSubmission id uncertain =
          ({ s with submissions := s.submissions.set id { item with status := status } } :
            DraftState Attachment).restoreSubmission id) := by
  unfold failSubmission
  split
  next => exact .inl rfl
  next item hitem =>
    cases uncertain with
    | true => exact .inr ⟨item, .uncertain, hitem, .inl rfl⟩
    | false =>
      refine .inr ⟨item, .failed, hitem, ?_⟩
      simp only [Bool.false_or, Bool.false_eq_true, if_false]
      split
      next => exact .inl rfl
      next hsame => exact .inr ⟨by simpa [revision] using hsame, rfl⟩

-- Between two states submissions have ended, each for a reason, and nothing else has changed.
structure Ended (s t : DraftState Attachment) (reason : DraftSubmission Attachment → Bool) : Prop where
  texts : t.texts = s.texts
  attachments : t.attachments = s.attachments
  revisions : t.revisions = s.revisions
  sequence : t.submissionSequence = s.submissionSequence
  ended : ∀ id, t.submissions.get? id = s.submissions.get? id ∨
    ∃ item, s.submissions.get? id = some item ∧ t.submissions.get? id = none ∧ reason item

variable {t u : DraftState Attachment} {reason : DraftSubmission Attachment → Bool}

theorem Ended.refl (s : DraftState Attachment) (reason : DraftSubmission Attachment → Bool) : Ended s s reason :=
  ⟨rfl, rfl, rfl, rfl, fun _ => .inl rfl⟩

theorem Ended.trans (h : Ended s t reason) (h' : Ended t u reason) : Ended s u reason where
  texts := h'.texts.trans h.texts
  attachments := h'.attachments.trans h.attachments
  revisions := h'.revisions.trans h.revisions
  sequence := h'.sequence.trans h.sequence
  ended id := by
    obtain hsame | ⟨item, hitem, hnone, hreason⟩ := h.ended id
    · rw [← hsame]
      exact h'.ended id
    · obtain hsame | ⟨item', hitem', -⟩ := h'.ended id
      · exact .inr ⟨item, hitem, hsame.trans hnone, hreason⟩
      · rw [hnone] at hitem'
        cases hitem'

theorem Ended.sound (h : Ended s t reason) (hs : s.Sound) : t.Sound where
  keyed id item hitem := by
    obtain hsame | ⟨-, -, hnone, -⟩ := h.ended id
    · exact hs.keyed id item (hsame ▸ hitem)
    · rw [hnone] at hitem
      cases hitem
  below id item hitem := by
    rw [h.sequence]
    obtain hsame | ⟨-, -, hnone, -⟩ := h.ended id
    · exact hs.below id item (hsame ▸ hitem)
    · rw [hnone] at hitem
      cases hitem

theorem finishSubmission_ended {item : DraftSubmission Attachment} (hitem : s.submissions.get? item.id = some item)
    (hreason : reason item) : Ended s (s.finishSubmission item.id) reason where
  texts := rfl
  attachments := rfl
  revisions := rfl
  sequence := rfl
  ended id := by
    rw [finishSubmission_get]
    split
    next heq =>
      subst heq
      exact .inr ⟨item, hitem, rfl, hreason⟩
    next => exact .inl rfl

theorem acceptSubmissionStage_ended (reason : DraftSubmission Attachment → Bool) (h : s.Sound) {stageId : String}
    (hreason : ∀ item : DraftSubmission Attachment, item.stageId = some stageId → reason item) :
    Ended s (s.acceptSubmissionStage stageId) reason := by
  obtain heq | ⟨item, hitem, hstage, heq⟩ := acceptSubmissionStage_cases h stageId
  · rw [heq]
    exact .refl s reason
  · rw [heq]
    exact finishSubmission_ended hitem (hreason item hstage)

theorem receipts_ended (h : s.Sound) (messages : List Message) :
    Ended s (s.receipts messages) (Op.receipts messages).finishes := by
  unfold receipts
  split
  · suffices hfold : ∀ (rest : List Message) (t : DraftState Attachment), rest ⊆ messages → t.Sound →
        Ended t (rest.foldl (fun s m => if m.isReceipt then s.acceptSubmissionStage m.pendingWebuiId else s) t)
          (Op.receipts messages).finishes from hfold messages s (List.Subset.refl _) h
    intro rest
    induction rest with
    | nil => exact fun t _ _ => .refl t _
    | cons m rest ih =>
      intro t hsub ht
      obtain ⟨hm, hrest⟩ := List.cons_subset.mp hsub
      have hone : Ended t (if m.isReceipt then t.acceptSubmissionStage m.pendingWebuiId else t)
          (Op.receipts messages).finishes := by
        split
        next hreceipt =>
          refine acceptSubmissionStage_ended _ ht fun item hstage => ?_
          exact List.any_eq_true.mpr ⟨m, hm, by simp [hreceipt, hstage]⟩
        next => exact .refl t _
      exact hone.trans (ih _ hrest (hone.sound ht))
  · exact .refl s _

theorem Ended.steps {op : Op Attachment} (h : Ended s t op.finishes) (id : Nat) : Steps s t op id := by
  obtain hsame | ⟨item, hitem, hnone, hreason⟩ := h.ended id
  · exact .inl hsame
  · exact .inr ⟨item, hitem, .inr ⟨hnone, .inl hreason⟩⟩

theorem Ended.counts (h : Ended s t reason) (key : String) : Counts s t key := by
  refine .inl ⟨⟨?_, ?_⟩, ?_⟩
  · rw [text, text, h.texts]
  · rw [files, files, h.attachments]
  · rw [revision, revision, h.revisions]

theorem replace_steps {op : Op Attachment} {id : Nat} {item item' : DraftSubmission Attachment}
    (hitem : s.submissions.get? id = some item) (hid : item'.id = item.id) (htext : item'.text = item.text)
    (hfiles : item'.attachments = item.attachments)
    (hplace : op.moves id = false → item'.key = item.key ∧ item'.clearedRevision = item.clearedRevision) (other : Nat) :
    Steps s { s with submissions := s.submissions.set id item' } op other := by
  by_cases heq : other = id
  · subst heq
    exact .inr ⟨item, hitem, .inl ⟨item', Dict.get?_set_self _ _ _, hid, htext, hfiles, hplace⟩⟩
  · exact .inl (Dict.get?_set_ne _ _ heq)

theorem writeBack_text (id : Nat) (item : DraftSubmission Attachment) (key : String) :
    (s.writeBack id item).text key = if key = item.key then item.text else s.text key := by
  simp only [writeBack, text, Dict.get?_set]
  split <;> rfl

theorem writeBack_files (id : Nat) (item : DraftSubmission Attachment) (key : String) :
    (s.writeBack id item).files key = if key = item.key then item.attachments else s.files key := by
  simp only [writeBack, files, Dict.get?_set]
  split <;> rfl

theorem writeBack_revision (id : Nat) (item : DraftSubmission Attachment) (key : String) :
    (s.writeBack id item).revision key = if key = item.key then s.revision item.key + 1 else s.revision key :=
  revision_set _ _ _ _ _ _ _

theorem writeBack_counts (id : Nat) (item : DraftSubmission Attachment) (key : String) :
    Counts s (s.writeBack id item) key := by
  by_cases hkey : key = item.key
  · right
    rw [writeBack_revision, if_pos hkey, hkey]
  · left
    exact ⟨⟨by rw [writeBack_text, if_neg hkey], by rw [writeBack_files, if_neg hkey]⟩,
      by rw [writeBack_revision, if_neg hkey]⟩

theorem writeBack_steps {op : Op Attachment} {id : Nat} {item : DraftSubmission Attachment}
    (hitem : s.submissions.get? id = some item) (other : Nat) : Steps s (s.writeBack id item) op other := by
  by_cases heq : other = id
  · subst heq
    refine .inr ⟨item, hitem, .inr ⟨Dict.get?_erase_self _ _, .inr ⟨?_, ?_⟩⟩⟩
    · rw [writeBack_text, if_pos rfl]
    · rw [writeBack_files, if_pos rfl]
  · exact .inl (Dict.get?_erase_ne _ heq)

theorem clearDraft_counts (key other : String) : Counts s (s.clearDraft key) other := by
  by_cases hkey : other = key
  · right
    rw [clearDraft, revision_set, if_pos hkey, hkey]
  · left
    refine ⟨⟨?_, ?_⟩, ?_⟩
    · rw [clearDraft, text, Dict.get?_erase_ne _ hkey, text]
    · rw [clearDraft, files, Dict.get?_erase_ne _ hkey, files]
    · rw [clearDraft, revision_set, if_neg hkey]

end Fields

section Step

variable {s : DraftState Attachment}

theorem beginSubmission_cases (s : DraftState Attachment) (key text : String) (attachments : List Attachment) :
    s.beginSubmission path key text attachments = s ∨
      s.locked key = false ∧ ∃ item : DraftSubmission Attachment, item.id = s.submissionSequence + 1 ∧ item.key = key ∧
        item.text = text ∧ item.attachments = attachments ∧ item.clearedRevision = s.revision key + 1 ∧
        item.status = .sending ∧ s.beginSubmission path key text attachments =
          { s.clearDraft key with
            submissions := s.submissions.set (s.submissionSequence + 1) item
            submissionSequence := s.submissionSequence + 1 } := by
  unfold beginSubmission
  split
  next => exact .inl rfl
  split
  next => exact .inl rfl
  next hlocked => exact .inr ⟨by simpa using hlocked, _, rfl, rfl, rfl, rfl, rfl, rfl, rfl⟩

theorem step_counts (h : s.Sound) (op : Op Attachment) (key : String) : Counts s (s.step path op) key := by
  cases op with
  | setText k text =>
    by_cases hkey : key = k
    · right
      rw [step, setText, revision_set, if_pos hkey, hkey]
    · left
      refine ⟨⟨?_, rfl⟩, by rw [step, setText, revision_set, if_neg hkey]⟩
      rw [step, setText, DraftState.text, Dict.get?_set_ne _ _ hkey, DraftState.text]
  | setAttachments k attachments =>
    by_cases hkey : key = k
    · right
      rw [step, setAttachments, revision_set, if_pos hkey, hkey]
    · left
      refine ⟨⟨rfl, ?_⟩, by rw [step, setAttachments, revision_set, if_neg hkey]⟩
      rw [step, setAttachments, files, Dict.get?_set_ne _ _ hkey, files]
  | clearDraft k => exact clearDraft_counts k key
  | clearDraftIfMatch k text attachments =>
    simp only [step, clearDraftIfMatch]
    split
    · exact clearDraft_counts k key
    · exact .inl ⟨⟨rfl, rfl⟩, rfl⟩
  | beginSubmission k text attachments =>
    obtain heq | ⟨-, item, -, -, -, -, -, -, heq⟩ := beginSubmission_cases path s k text attachments
    · rw [step, heq]
      exact .inl ⟨⟨rfl, rfl⟩, rfl⟩
    · rw [step, heq]
      exact clearDraft_counts k key
  | moveSubmission id k =>
    simp only [step, moveSubmission]
    split <;> exact .inl ⟨⟨rfl, rfl⟩, rfl⟩
  | bindSubmissionStage id stageId =>
    simp only [step, bindSubmissionStage]
    split <;> exact .inl ⟨⟨rfl, rfl⟩, rfl⟩
  | acceptSubmissionStage stageId =>
    exact (acceptSubmissionStage_ended (fun _ => true) h fun _ _ => rfl).counts key
  | finishSubmission id => exact .inl ⟨⟨rfl, rfl⟩, rfl⟩
  | failSubmission id uncertain =>
    obtain heq | ⟨item, status, hitem, heq | ⟨-, heq⟩⟩ := failSubmission_cases s id uncertain
    · rw [step, heq]
      exact .inl ⟨⟨rfl, rfl⟩, rfl⟩
    · rw [step, heq]
      exact .inl ⟨⟨rfl, rfl⟩, rfl⟩
    · rw [step, heq]
      obtain heq | ⟨item', -, -, -, heq⟩ := restoreSubmission_cases
        ({ s with submissions := s.submissions.set id { item with status := status } } : DraftState Attachment) id
      · rw [heq]
        exact .inl ⟨⟨rfl, rfl⟩, rfl⟩
      · rw [heq]
        exact writeBack_counts id item' key
  | restoreSubmission id =>
    obtain heq | ⟨item, -, -, -, heq⟩ := restoreSubmission_cases s id
    · rw [step, heq]
      exact .inl ⟨⟨rfl, rfl⟩, rfl⟩
    · rw [step, heq]
      exact writeBack_counts id item key
  | receipts messages => exact (receipts_ended h messages).counts key

theorem step_steps (h : s.Sound) (op : Op Attachment) {id : Nat} (hid : id ≤ s.submissionSequence) :
    Steps s (s.step path op) op id := by
  cases op with
  | setText k text => exact .inl rfl
  | setAttachments k attachments => exact .inl rfl
  | clearDraft k => exact .inl rfl
  | clearDraftIfMatch k text attachments =>
    simp only [step, clearDraftIfMatch]
    split <;> exact .inl rfl
  | beginSubmission k text attachments =>
    left
    obtain heq | ⟨-, item, -, -, -, -, -, -, heq⟩ := beginSubmission_cases path s k text attachments
    · rw [step, heq]
    · rw [step, heq]
      exact Dict.get?_set_ne _ _ (by omega)
  | moveSubmission moved k =>
    simp only [step, moveSubmission]
    split
    next => exact .inl rfl
    next item hitem =>
      by_cases heq : id = moved
      · subst heq
        exact replace_steps hitem (by rfl) (by rfl) (by rfl) (by simp [Op.moves]) id
      · exact .inl (Dict.get?_set_ne _ _ heq)
  | bindSubmissionStage bound stageId =>
    simp only [step, bindSubmissionStage]
    split
    next => exact .inl rfl
    next item hitem => exact replace_steps hitem (by rfl) (by rfl) (by rfl) (fun _ => by simp) id
  | acceptSubmissionStage stageId =>
    exact (acceptSubmissionStage_ended _ h fun item hstage => by simp [Op.finishes, hstage]).steps id
  | finishSubmission finished =>
    by_cases heq : id = finished
    · subst heq
      cases hitem : s.submissions.get? id with
      | none =>
        left
        rw [step, finishSubmission_get, if_pos rfl, hitem]
      | some item =>
        refine .inr ⟨item, hitem, .inr ⟨by rw [step, finishSubmission_get, if_pos rfl], .inl ?_⟩⟩
        simp [Op.finishes, h.keyed id item hitem]
    · left
      rw [step, finishSubmission_get, if_neg heq]
  | failSubmission failed uncertain =>
    obtain heq | ⟨item, status, hitem, heq | ⟨-, heq⟩⟩ := failSubmission_cases s failed uncertain
    · exact .inl (by rw [step, heq])
    · rw [step, heq]
      exact replace_steps hitem (by rfl) (by rfl) (by rfl) (fun _ => by simp) id
    · rw [step, heq]
      obtain heq | ⟨item', hitem', -, -, heq⟩ := restoreSubmission_cases
        ({ s with submissions := s.submissions.set failed { item with status := status } } : DraftState Attachment) failed
      · rw [heq]
        exact replace_steps hitem (by rfl) (by rfl) (by rfl) (fun _ => by simp) id
      · rw [heq]
        rw [Dict.get?_set_self] at hitem'
        cases hitem'
        by_cases hsame : id = failed
        · subst hsame
          refine .inr ⟨item, hitem, .inr ⟨Dict.get?_erase_self _ _, .inr ⟨?_, ?_⟩⟩⟩
          · rw [writeBack_text, if_pos rfl]
          · rw [writeBack_files, if_pos rfl]
        · left
          rw [writeBack, Dict.get?_erase_ne _ hsame, Dict.get?_set_ne _ _ hsame]
  | restoreSubmission restored =>
    obtain heq | ⟨item, hitem, -, -, heq⟩ := restoreSubmission_cases s restored
    · exact .inl (by rw [step, heq])
    · rw [step, heq]
      exact writeBack_steps hitem id
  | receipts messages => exact (receipts_ended h messages).steps id

theorem step_sound (h : s.Sound) (op : Op Attachment) :
    (s.step path op).Sound ∧ s.submissionSequence ≤ (s.step path op).submissionSequence := by
  cases op with
  | setText k text => exact ⟨⟨h.keyed, h.below⟩, Nat.le_refl _⟩
  | setAttachments k attachments => exact ⟨⟨h.keyed, h.below⟩, Nat.le_refl _⟩
  | clearDraft k => exact ⟨⟨h.keyed, h.below⟩, Nat.le_refl _⟩
  | clearDraftIfMatch k text attachments =>
    simp only [step, clearDraftIfMatch]
    split <;> exact ⟨⟨h.keyed, h.below⟩, Nat.le_refl _⟩
  | beginSubmission k text attachments =>
    obtain heq | ⟨-, item, hid, -, -, -, -, -, heq⟩ := beginSubmission_cases path s k text attachments
    · rw [step, heq]
      exact ⟨h, Nat.le_refl _⟩
    · rw [step, heq]
      refine ⟨⟨?_, ?_⟩, Nat.le_succ _⟩
      · intro id other hother
        rw [Dict.get?_set] at hother
        split at hother
        next hsame =>
          cases hother
          rw [hid, hsame]
        next => exact h.keyed id other hother
      · intro id other hother
        rw [Dict.get?_set] at hother
        split at hother
        next hsame => exact Nat.le_of_eq hsame
        next => exact Nat.le_succ_of_le (h.below id other hother)
  | moveSubmission id k =>
    simp only [step, moveSubmission]
    split
    next => exact ⟨h, Nat.le_refl _⟩
    next item hitem => exact ⟨h.replace hitem rfl, Nat.le_refl _⟩
  | bindSubmissionStage id stageId =>
    simp only [step, bindSubmissionStage]
    split
    next => exact ⟨h, Nat.le_refl _⟩
    next item hitem => exact ⟨h.replace hitem rfl, Nat.le_refl _⟩
  | acceptSubmissionStage stageId =>
    have hended := acceptSubmissionStage_ended (fun _ => true) h fun item (_ : item.stageId = some stageId) => rfl
    exact ⟨hended.sound h, Nat.le_of_eq hended.sequence.symm⟩
  | finishSubmission id => exact ⟨h.erase id, Nat.le_refl _⟩
  | failSubmission id uncertain =>
    obtain heq | ⟨item, status, hitem, heq | ⟨-, heq⟩⟩ := failSubmission_cases s id uncertain
    · rw [step, heq]
      exact ⟨h, Nat.le_refl _⟩
    · rw [step, heq]
      exact ⟨h.replace hitem rfl, Nat.le_refl _⟩
    · rw [step, heq]
      obtain heq | ⟨item', -, -, -, heq⟩ := restoreSubmission_cases
        ({ s with submissions := s.submissions.set id { item with status := status } } : DraftState Attachment) id
      · rw [heq]
        exact ⟨h.replace hitem rfl, Nat.le_refl _⟩
      · rw [heq]
        have hfailed : ({ s with submissions := s.submissions.set id { item with status := status } } :
            DraftState Attachment).Sound := h.replace hitem (by rfl)
        exact ⟨hfailed.erase id, Nat.le_refl _⟩
  | restoreSubmission id =>
    obtain heq | ⟨item, -, -, -, heq⟩ := restoreSubmission_cases s id
    · rw [step, heq]
      exact ⟨h, Nat.le_refl _⟩
    · rw [step, heq]
      exact ⟨h.erase id, Nat.le_refl _⟩
  | receipts messages =>
    have hended := receipts_ended h messages
    exact ⟨hended.sound h, Nat.le_of_eq hended.sequence.symm⟩

end Step

-- An operation takes a submission to a key: it begins it there, or it moves it there.
inductive Settles (s : DraftState Attachment) (id : Nat) (key : String) : Op Attachment → Prop where
  | begun (text : String) (attachments : List Attachment) (hold : s.submissions.get? id = none)
      (hnew : (s.beginSubmission path key text attachments).submissions.get? id ≠ none) :
      Settles s id key (.beginSubmission key text attachments)
  | moved (hold : s.submissions.get? id ≠ none) : Settles s id key (.moveSubmission id key)

section Restore

variable {s : DraftState Attachment}

theorem restoreSubmission_nonempty (id : Nat) {key : String} (hkey : s.isEmpty key = false) :
    SameDraft s (s.restoreSubmission id) key := by
  obtain heq | ⟨item, -, htext, hfiles, heq⟩ := restoreSubmission_cases s id
  · rw [heq]
    exact ⟨rfl, rfl⟩
  · rw [heq]
    have hne : key ≠ item.key := by
      rintro rfl
      simp [isEmpty, htext, hfiles] at hkey
    exact ⟨by rw [writeBack_text, if_neg hne], by rw [writeBack_files, if_neg hne]⟩

theorem failSubmission_nonempty (id : Nat) (uncertain : Bool) {key : String} (hkey : s.isEmpty key = false) :
    SameDraft s (s.failSubmission id uncertain) key := by
  obtain heq | ⟨item, status, -, heq | ⟨-, heq⟩⟩ := failSubmission_cases s id uncertain
  · rw [heq]
    exact ⟨rfl, rfl⟩
  · rw [heq]
    exact ⟨rfl, rfl⟩
  · rw [heq]
    exact restoreSubmission_nonempty id (s := { s with submissions := s.submissions.set id _ }) hkey

theorem failSubmission_touched {id : Nat} (uncertain : Bool)
    (h : ∀ item, s.submissions.get? id = some item → s.revision item.key ≠ item.clearedRevision) (key : String) :
    SameDraft s (s.failSubmission id uncertain) key := by
  obtain heq | ⟨item, status, hitem, heq | ⟨hrevision, -⟩⟩ := failSubmission_cases s id uncertain
  · rw [heq]
    exact ⟨rfl, rfl⟩
  · rw [heq]
    exact ⟨rfl, rfl⟩
  · exact absurd hrevision (h item hitem)

end Restore

end DraftState

section Runs

variable {path} {s t : DraftState Attachment} {id : Nat} {key : String}

theorem store_next {op : Op Attachment} (h : (store path).next s op = some t) : t = s.step path op := by
  simpa [store] using h.symm

theorem reachable_sound (h : (store path).Reachable s) : s.Sound :=
  h.invariant ⟨fun _ _ hnone => by simp [store] at hnone, fun _ _ hnone => by simp [store] at hnone⟩
    fun s op t hs hnext => store_next hnext ▸ (DraftState.step_sound path hs op).1

theorem snapshot_run {item : DraftSubmission Attachment} {ops : List (Op Attachment)} (hs : s.Sound)
    (hitem : s.submissions.get? id = some item) (hrun : (store path).run s ops = some t) :
    (∃ item', t.submissions.get? id = some item' ∧ item'.text = item.text ∧ item'.attachments = item.attachments) ∨
    ∃ before op after u item', ops = before ++ op :: after ∧ (store path).run s before = some u ∧
      u.submissions.get? id = some item' ∧ item'.text = item.text ∧ item'.attachments = item.attachments ∧
      (op.finishes item' ∨
        (u.step path op).text item'.key = item.text ∧ (u.step path op).files item'.key = item.attachments) := by
  induction ops generalizing s item with
  | nil =>
    cases hrun
    exact .inl ⟨item, hitem, rfl, rfl⟩
  | cons op ops ih =>
    obtain ⟨u, hu, hrest⟩ := Option.bind_eq_some_iff.mp hrun
    have hstep := store_next hu
    have hsound := (DraftState.step_sound path hs op).1
    rw [← hstep] at hsound
    have hlater : ∀ {item' : DraftSubmission Attachment}, u.submissions.get? id = some item' → item'.text = item.text →
        item'.attachments = item.attachments →
        (∃ item', t.submissions.get? id = some item' ∧ item'.text = item.text ∧ item'.attachments = item.attachments) ∨
        ∃ before op' after v item', op :: ops = before ++ op' :: after ∧ (store path).run s before = some v ∧
          v.submissions.get? id = some item' ∧ item'.text = item.text ∧ item'.attachments = item.attachments ∧
          (op'.finishes item' ∨
            (v.step path op').text item'.key = item.text ∧ (v.step path op').files item'.key = item.attachments) := by
      intro item' hitem' htext hfiles
      obtain hkept | ⟨before, op', after, v, last, rfl, hbefore, hlast, hend⟩ := ih hsound hitem' hrest
      · rw [htext, hfiles] at hkept
        exact .inl hkept
      · rw [htext, hfiles] at hend
        refine .inr ⟨op :: before, op', after, v, last, rfl, ?_, hlast, hend⟩
        rw [Machine.run, hu, Option.bind_some, hbefore]
    obtain hsame | ⟨item₁, hitem₁, ⟨item', hitem', -, htext, hfiles, -⟩ | ⟨-, hend⟩⟩ :=
      DraftState.step_steps path hs op (hs.below id item hitem)
    · rw [← hstep] at hsame
      exact hlater (hsame.trans hitem) rfl rfl
    · rw [hitem] at hitem₁
      cases hitem₁
      rw [← hstep] at hitem'
      exact hlater hitem' htext hfiles
    · rw [hitem] at hitem₁
      cases hitem₁
      exact .inr ⟨[], op, ops, s, item, rfl, rfl, hitem, rfl, rfl, hend⟩

-- A submission that is at a key, cleared no later than the key's revision says.
structure Settled (s : DraftState Attachment) (id : Nat) (key : String) (revision : Nat) : Prop where
  sound : s.Sound
  known : id ≤ s.submissionSequence
  placed : ∀ item, s.submissions.get? id = some item → item.key = key ∧ item.clearedRevision = revision

theorem Settled.step (path : Attachment → String) {revision : Nat} (h : Settled s id key revision) {op : Op Attachment} (hmoves : op.moves id = false) :
    Settled (s.step path op) id key revision where
  sound := (DraftState.step_sound path h.sound op).1
  known := Nat.le_trans h.known (DraftState.step_sound path h.sound op).2
  placed item hitem := by
    obtain hsame | ⟨old, hold, ⟨item', hitem', -, -, -, hplace⟩ | ⟨hnone, -⟩⟩ :=
      DraftState.step_steps path h.sound op h.known
    · exact h.placed item (hsame ▸ hitem)
    · rw [hitem] at hitem'
      cases hitem'
      obtain ⟨hkey, hrevision⟩ := hplace hmoves
      rw [hkey, hrevision]
      exact h.placed old hold
    · rw [hnone] at hitem
      cases hitem

theorem revision_le (hs : s.Sound) (op : Op Attachment) (key : String) :
    s.revision key ≤ (s.step path op).revision key := by
  obtain ⟨-, hsame⟩ | hnext := DraftState.step_counts path hs op key
  · exact Nat.le_of_eq hsame.symm
  · omega

theorem revision_lt (hs : s.Sound) {op : Op Attachment} (hedit : s.Edits path op key) :
    s.revision key < (s.step path op).revision key := by
  obtain ⟨hsame, hrevision⟩ | hnext := DraftState.step_counts path hs op key
  · obtain htarget | hchanged := hedit
    · cases op <;> simp only [Op.targets, beq_iff_eq, Bool.false_eq_true] at htarget <;> subst htarget <;>
        simp [DraftState.step, DraftState.setText, DraftState.setAttachments, DraftState.clearDraft,
          DraftState.revision_set] at hrevision
    · exact absurd hsame hchanged
  · omega

theorem Settled.run {revision : Nat} {ops : List (Op Attachment)} (h : Settled s id key revision)
    (hmoves : ∀ op ∈ ops, op.moves id = false) (hrun : (store path).run s ops = some t) :
    Settled t id key revision ∧ s.revision key ≤ t.revision key := by
  induction ops generalizing s with
  | nil =>
    cases hrun
    exact ⟨h, Nat.le_refl _⟩
  | cons op ops ih =>
    obtain ⟨u, hu, hrest⟩ := Option.bind_eq_some_iff.mp hrun
    obtain rfl := store_next hu
    obtain ⟨hsettled, hle⟩ := ih (h.step path (hmoves op (by simp))) (fun o ho => hmoves o (by simp [ho])) hrest
    exact ⟨hsettled, Nat.le_trans (revision_le h.sound op key) hle⟩

theorem begun_id (s : DraftState Attachment) (text : String) (attachments : List Attachment)
    (hold : s.submissions.get? id = none)
    (hnew : (s.beginSubmission path key text attachments).submissions.get? id ≠ none) :
    id = s.submissionSequence + 1 := by
  obtain heq | ⟨-, item, -, -, -, -, -, -, heq⟩ := DraftState.beginSubmission_cases path s key text attachments
  · rw [heq] at hnew
    exact absurd hold hnew
  · rw [heq, Dict.get?_set] at hnew
    split at hnew
    next hid => exact hid
    next => exact absurd hold hnew

theorem settled_of_settles {op : Op Attachment} (hs : s.Sound) (h : s.Settles path id key op) :
    Settled (s.step path op) id key ((s.step path op).revision key) := by
  have hsound := DraftState.step_sound path hs op
  cases h with
  | begun text attachments hold hnew =>
    have hid := begun_id s text attachments hold hnew
    obtain heq | ⟨-, item, -, hkey, -, -, hrevision, -, heq⟩ := DraftState.beginSubmission_cases path s key text attachments
    · rw [heq] at hnew
      exact absurd hold hnew
    · simp only [DraftState.step] at hsound ⊢
      rw [heq] at hsound ⊢
      refine ⟨hsound.1, Nat.le_of_eq hid, fun other hother => ?_⟩
      rw [hid, Dict.get?_set_self] at hother
      cases hother
      refine ⟨hkey, ?_⟩
      rw [hrevision, DraftState.clearDraft, DraftState.revision_set, if_pos rfl]
  | moved hold =>
    obtain ⟨item, hitem⟩ := Option.ne_none_iff_exists'.mp hold
    refine ⟨hsound.1, Nat.le_trans (hs.below id item hitem) hsound.2, fun other hother => ?_⟩
    simp only [DraftState.step, DraftState.moveSubmission, hitem, Dict.get?_set_self] at hother
    cases hother
    simp only [DraftState.step, DraftState.moveSubmission, hitem, true_and]
    rfl

theorem failSubmission_edited {op₀ op : Op Attachment} {before after : List (Op Attachment)} (hs : s.Sound)
    (hsettles : s.Settles path id key op₀)
    (hrun : (store path).run (s.step path op₀) (before ++ op :: after) = some t)
    (hmoves : ∀ o ∈ before ++ op :: after, o.moves id = false)
    (hedit : ∀ u, (store path).run (s.step path op₀) before = some u → u.Edits path op key) (uncertain : Bool)
    (other : String) : t.SameDraft (t.failSubmission id uncertain) other := by
  have hsettled := settled_of_settles hs hsettles
  rw [Machine.run_append] at hrun
  obtain ⟨u, hbefore, hrun⟩ := Option.bind_eq_some_iff.mp hrun
  obtain ⟨v, hv, hafter⟩ := Option.bind_eq_some_iff.mp hrun
  obtain rfl := store_next hv
  obtain ⟨hat, hle⟩ := hsettled.run (fun o ho => hmoves o (by simp [ho])) hbefore
  have hlt := revision_lt hat.sound (hedit u hbefore)
  obtain ⟨hlast, hrest⟩ := (hat.step path (hmoves op (by simp))).run (fun o ho => hmoves o (by simp [ho])) hafter
  refine DraftState.failSubmission_touched uncertain (fun item hitem => ?_) other
  obtain ⟨hkey, hrevision⟩ := hlast.placed item hitem
  rw [hkey, hrevision]
  omega

end Runs

-- Every state that the operations lead to keeps what was submitted, and writes over no draft.
theorem drafts_kept (path : Attachment → String) (s : DraftState Attachment) (h : (store path).Reachable s) :
    (∀ key text attachments, s.beginSubmission path key text attachments = s ∨
      ∃ item, s.submissions.get? item.id = none ∧
        (s.beginSubmission path key text attachments).submissions.get? item.id = some item ∧
        item.key = key ∧ item.text = text ∧ item.attachments = attachments ∧ item.status = .sending) ∧
    (∀ id item ops t, s.submissions.get? id = some item → (store path).run s ops = some t →
      (∃ item', t.submissions.get? id = some item' ∧ item'.text = item.text ∧ item'.attachments = item.attachments) ∨
      ∃ before op after u item', ops = before ++ op :: after ∧ (store path).run s before = some u ∧
        u.submissions.get? id = some item' ∧ item'.text = item.text ∧ item'.attachments = item.attachments ∧
        (op.finishes item' ∨
          (u.step path op).text item'.key = item.text ∧ (u.step path op).files item'.key = item.attachments)) ∧
    (∀ id key, s.isEmpty key = false → s.SameDraft (s.restoreSubmission id) key ∧
      ∀ uncertain, s.SameDraft (s.failSubmission id uncertain) key) ∧
    (∀ id key op₀ before op after t, s.Settles path id key op₀ →
      (store path).run (s.step path op₀) (before ++ op :: after) = some t →
      (∀ o ∈ before ++ op :: after, o.moves id = false) →
      (∀ u, (store path).run (s.step path op₀) before = some u → u.Edits path op key) →
      ∀ uncertain other, t.SameDraft (t.failSubmission id uncertain) other) ∧
    (∀ key text attachments id item, s.submissions.get? id = some item → item.key = key → item.status ≠ .failed →
      s.beginSubmission path key text attachments = s) := by
  have hs := reachable_sound h
  refine ⟨?_, ?_, ?_, ?_, ?_⟩
  · intro key text attachments
    refine (DraftState.beginSubmission_cases path s key text attachments).imp_right ?_
    rintro ⟨-, item, hid, hkey, htext, hfiles, -, hstatus, heq⟩
    refine ⟨item, ?_, ?_, hkey, htext, hfiles, hstatus⟩
    · by_contra hold
      obtain ⟨old, hold⟩ := Option.ne_none_iff_exists'.mp hold
      have hle := hs.below item.id old hold
      omega
    · rw [heq, hid]
      exact Dict.get?_set_self _ _ _
  · exact fun id item ops t hitem hrun => snapshot_run hs hitem hrun
  · exact fun id key hkey => ⟨DraftState.restoreSubmission_nonempty id hkey,
      fun uncertain => DraftState.failSubmission_nonempty id uncertain hkey⟩
  · exact fun id key op₀ before op after t hsettles hrun hmoves hedit uncertain other =>
      failSubmission_edited hs hsettles hrun hmoves hedit uncertain other
  · intro key text attachments id item hitem hkey hstatus
    obtain heq | ⟨hlocked, -⟩ := DraftState.beginSubmission_cases path s key text attachments
    · exact heq
    · have hlock : s.locked key = true :=
        List.any_eq_true.mpr ⟨item, Dict.mem_values_iff.mpr ⟨id, hitem⟩, by simp [hkey, hstatus]⟩
      rw [hlocked] at hlock
      cases hlock

def typed : DraftState String := (store id).start.setText "liveChat:a" "hi"

theorem typed_reachable : (store id).Reachable typed := (store id).reachable_start.next (a := .setText "liveChat:a" "hi") rfl

theorem drafts_kept_typed : typed.isEmpty "liveChat:a" = false ∧
    typed.SameDraft (typed.restoreSubmission 1) "liveChat:a" :=
  ⟨by decide, ((drafts_kept id typed typed_reachable).2.2.1 1 "liveChat:a" (by decide)).1⟩

-- A move takes the revision that the draft has by then: back at its key, a failed submission is
-- written over the edit that emptied it.
theorem moved_back_restored : ¬∀ (s : DraftState String) (key text : String) (attachments : List String) (n : Nat)
    (before : List (Op String)) (op : Op String) (after : List (Op String)) (t : DraftState String),
    (store id).Reachable s → s.Settles id n key (.beginSubmission key text attachments) →
    (store id).run (s.step id (.beginSubmission key text attachments)) (before ++ op :: after) = some t →
    (∀ u, (store id).run (s.step id (.beginSubmission key text attachments)) before = some u → u.Edits id op key) →
    t.SameDraft (t.failSubmission n false) key := by
  intro h
  have hsame := h typed "liveChat:a" "hi" [] 1 [] (.setText "liveChat:a" "x")
    [.setText "liveChat:a" "", .moveSubmission 1 "liveChat:a"] _ typed_reachable
    (.begun "hi" [] (by decide) (by decide)) rfl (fun _ _ => .inl (by decide))
  exact absurd hsame.1 (by decide)

end GaHub.Drafts
