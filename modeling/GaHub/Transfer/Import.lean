import GaHub.Transfer.Restore

namespace GaHub.Transfer

open Lib Sessions

-- Where `copy_archive_for_import` stands.
inductive CopyStage (Content : Type) where
  | reading
  | minting (text : Content)
  | writing (text : Content)
  | counting
  | moving
  -- `except BaseException`: the staging file goes
  | cleaning
  deriving DecidableEq

inductive Copied (Content : Type) where
  | copied (source : Content)
  | notImportable
  | failed
  deriving DecidableEq

-- Where `ensure_runtime` stands: at its head, in `_runtime_for_session`, or in the factory it calls.
inductive EnsureStage where
  | entering
  | creating (creation : Creation)
  | building (epoch : Nat) (runtime : RuntimeId) (stage : FactoryStage)
  deriving DecidableEq

inductive Cause where
  | notImportable
  | raised
  | cancelled
  deriving DecidableEq

inductive ImportPc where
  | locating
  | checking
  | titling
  | previewing
  | creating
  | copying
  | binding
  | ensuring
  | unlinking (cause : Cause)
  | deleting (cause : Cause)
  | answered (status : Nat)
  | raised
  | cancelled
  deriving DecidableEq

-- The request and the calls it has handed over, each at most once. `seen` is what the copy read of the source.
structure Importing (Content : Type) where
  host : Host Content
  pc : ImportPc := .locating
  create : Job Unit Bool := .idle
  copy : Job (CopyStage Content) (Copied Content) := .idle
  bind : Job Unit Bool := .idle
  ensure : Job EnsureStage Bool := .idle
  unlink : Job Unit Bool := .idle
  delete : Job Unit Bool := .idle
  seen : Option Content := none

inductive ImportAction (Content : Type) where
  | resume (answer : Answer)
  | cancel
  | create (o : Outcome)
  -- `written` is what a write that raises leaves behind
  | copy (o : Outcome) (written : Option Content)
  | bind (o : Outcome)
  | ensure (o : Outcome)
  | unlink (o : Outcome)
  | delete (o : Outcome)
  | others (host : Host Content)

variable {Content : Type}

section Import

-- `prepare_import_text`, `none` for an archive without a complete turn; the archive; the id `uuid4` draws, the
-- log GA mints, and the agent's own log; the call's place among those that hold gates, and its runtime.
variable (prepare : Content → Option Content) (source : FileName) (session : SessionId) (target fresh : FileName)
  (me : CallId) (serial : Nat)

def createStage (host : Host Content) : Unit → Outcome → Option (Host Content × (Unit ⊕ Bool))
  | _, .returns => some (host.create session, .inr true)
  | _, .raises => some (host, .inr false)
  | _, _ => none

def copyStage (written : Option Content) (s : Host Content × Option Content) :
    CopyStage Content → Outcome → Option ((Host Content × Option Content) × (CopyStage Content ⊕ Copied Content))
  | .reading, .returns =>
      match s.1.files.get? source with
      | none => some (s, .inr .failed)
      | some content =>
          match prepare content with
          | none => some (s, .inr .notImportable)
          | some text => some ((s.1, some content), .inl (.minting text))
  | .minting text, .returns => if s.1.files.get? target = none then some (s, .inl (.writing text)) else none
  | .writing text, .returns => some ((s.1.writeFile (.importing target) text, s.2), .inl .counting)
  | .writing _, .raises =>
      match written with
      | none => some (s, .inl .cleaning)
      | some content => some ((s.1.writeFile (.importing target) content, s.2), .inl .cleaning)
  | .counting, .returns => some (s, .inl .moving)
  | .moving, .returns =>
      match s.1.replace (.importing target) target, s.2 with
      | some host, some content => some ((host, s.2), .inr (.copied content))
      | _, _ => some (s, .inl .cleaning)
  | .cleaning, .returns => some ((s.1.unlink (.importing target), s.2), .inr .failed)
  -- the `OSError` of the clean-up is passed over
  | .cleaning, .raises => some (s, .inr .failed)
  | .reading, .raises => some (s, .inr .failed)
  | .minting _, .raises => some (s, .inr .failed)
  | .counting, .raises => some (s, .inl .cleaning)
  | .moving, .raises => some (s, .inl .cleaning)
  | _, _ => none

def bindStage (host : Host Content) : Unit → Outcome → Option (Host Content × (Unit ⊕ Bool))
  | _, .returns =>
      match host.bindArchive session target with
      | none => some (host, .inr false)
      | some host => some (host, .inr true)
  | _, .raises => some (host, .inr false)
  | _, _ => none

-- What `_runtime_for_session` makes of a step, the factory's call taken apart.
def ensureProgress (host : Host Content) (t : CreationTurn) : Host Content × (EnsureStage ⊕ Bool) :=
  ({ host with co := t.co }, match t.progress with
    | .goesOn (.building epoch runtime) => .inl (.building epoch runtime .reading)
    | .goesOn creation => .inl (.creating creation)
    | .returned _ => .inr true
    | .raised _ => .inr false)

def ensureStage (host : Host Content) : EnsureStage → Outcome → Option (Host Content × (EnsureStage ⊕ Bool))
  | .entering, .returns =>
      match host.co.raiseIfShutdown with
      | .error _ => some (host, .inr false)
      | .ok _ => some (host, .inl (.creating .lookup))
  | .creating creation, o =>
      (creation.next host.co serial me session (match o with
        | .returns => .returns
        | _ => .raises)).map (ensureProgress host)
  | .building epoch runtime stage, o =>
      match factoryStage none fresh session host stage o with
      | none => none
      | some (host, .inl stage) => some (host, .inl (.building epoch runtime stage))
      | some (host, .inr built) =>
          ((Creation.building epoch runtime).next host.co serial me session (if built then .returns else .raises)).map
            (ensureProgress host)
  | _, _ => none

def unlinkStage (host : Host Content) : Unit → Outcome → Option (Host Content × (Unit ⊕ Bool))
  | _, .returns => some (host.unlink target, .inr true)
  | _, .raises => some (host, .inr false)
  | _, _ => none

-- A `KeyError` of the deletion is passed over.
def deleteStage (host : Host Content) : Unit → Outcome → Option (Host Content × (Unit ⊕ Bool))
  | _, .returns => some (host.deleteRow session, .inr true)
  | _, .raises => some (host, .inr false)
  | _, _ => none

namespace Importing

variable (w : Importing Content)

-- `_rollback_import`, which knows of a copy once its path was returned.
def rollback (cause : Cause) (known : Bool) : Importing Content :=
  if known then { w with pc := .unlinking cause, unlink := .queued }
  else { w with pc := .deleting cause, delete := .queued }

def conclude : Cause → Importing Content
  | .notImportable => { w with pc := .answered 409 }
  | .raised => { w with pc := .raised }
  | .cancelled => { w with pc := .cancelled }

def resume (answer : Answer) : Option (Importing Content) :=
  match w.pc, answer with
  | .locating, .missing => some { w with pc := .answered 404 }
  | .locating, .returns => some { w with pc := .checking }
  | .checking, .returns =>
      match w.host.boundSessionId source with
      | some _ => some { w with pc := .answered 409 }
      | none => some { w with pc := .titling }
  -- an untitled archive is titled by its first question
  | .titling, .missing => some { w with pc := .previewing }
  | .titling, .returns => some { w with pc := .creating, create := .queued }
  | .previewing, .returns => some { w with pc := .creating, create := .queued }
  | .locating, .raises => some { w with pc := .raised }
  | .checking, .raises => some { w with pc := .raised }
  | .titling, .raises => some { w with pc := .raised }
  | .previewing, .raises => some { w with pc := .raised }
  | .creating, _ =>
      match w.create with
      | .ended true => some { w with pc := .copying, copy := .queued }
      | .ended false => some { w with pc := .raised }
      | _ => none
  | .copying, _ =>
      match w.copy with
      | .ended (.copied _) => some { w with pc := .binding, bind := .queued }
      | .ended .notImportable => some (w.rollback .notImportable false)
      | .ended .failed => some (w.rollback .raised false)
      | _ => none
  -- `_session_coordinator(lifecycle)` is resolved before the call is handed over
  | .binding, answer =>
      match w.bind with
      | .ended true =>
          if answer = .returns then some { w with pc := .ensuring, ensure := .queued }
          else some (w.rollback .raised true)
      | .ended false => some (w.rollback .raised true)
      | _ => none
  | .ensuring, _ =>
      match w.ensure with
      | .ended true => some { w with pc := .answered 200 }
      | .ended false => some (w.rollback .raised true)
      | _ => none
  -- the `OSError` of the unlink is logged
  | .unlinking cause, _ =>
      match w.unlink with
      | .ended _ => some { w with pc := .deleting cause, delete := .queued }
      | _ => none
  | .deleting cause, _ =>
      match w.delete with
      | .ended _ => some (w.conclude cause)
      | _ => none
  | _, _ => none

def cancel : Option (Importing Content) :=
  match w.pc with
  | .locating => some { w with pc := .cancelled }
  | .checking => some { w with pc := .cancelled }
  | .titling => some { w with pc := .cancelled }
  | .previewing => some { w with pc := .cancelled }
  | .creating => some { w with pc := .cancelled, create := w.create.abandon }
  | .copying => some ({ w with copy := w.copy.abandon }.rollback .cancelled false)
  | .binding => some ({ w with bind := w.bind.abandon }.rollback .cancelled true)
  | .ensuring => some ({ w with ensure := w.ensure.abandon }.rollback .cancelled true)
  | .unlinking _ => some { w with pc := .cancelled, unlink := w.unlink.abandon }
  | .deleting _ => some { w with pc := .cancelled, delete := w.delete.abandon }
  | _ => none

def next : ImportAction Content → Option (Importing Content)
  | .resume answer => w.resume source answer
  | .cancel => w.cancel
  | .create o => (w.create.work () (createStage session) w.host o).map fun (host, create) => { w with host, create }
  | .copy o written =>
      (w.copy.work .reading (copyStage prepare source target written) (w.host, w.seen) o).map fun ((host, seen), copy) =>
        { w with host, seen, copy }
  | .bind o => (w.bind.work () (bindStage session target) w.host o).map fun (host, bind) => { w with host, bind }
  | .ensure o =>
      (w.ensure.work .entering (ensureStage session fresh me serial) w.host o).map fun (host, ensure) => { w with host, ensure }
  | .unlink o => (w.unlink.work () (unlinkStage target) w.host o).map fun (host, unlink) => { w with host, unlink }
  | .delete o => (w.delete.work () (deleteStage session) w.host o).map fun (host, delete) => { w with host, delete }
  | .others host => some { w with host }

end Importing

def importMachine (host : Host Content) : Machine (Importing Content) (ImportAction Content) where
  start := { host }
  next w := w.next prepare source session target fresh me serial

-- The names the request draws are nobody else's, and no file the catalogue lists.
structure Unused (host : Host Content) : Prop where
  row : host.rows.get? session = none
  runtime : host.co.runtimes.get? session = none
  copy : host.files.get? target = none
  staging : host.files.get? (.importing target) = none
  backup : host.files.get? (.broken target) = none
  listed : source ≠ target ∧ source ≠ .importing target ∧ source ≠ .broken target

def apart (host host' : Host Content) : Prop :=
  host'.rows.get? session = host.rows.get? session ∧
    host'.co.runtimes.get? session = host.co.runtimes.get? session ∧
    host'.files.get? target = host.files.get? target ∧
    host'.files.get? (.importing target) = host.files.get? (.importing target) ∧
    host'.files.get? (.broken target) = host.files.get? (.broken target)

instance [DecidableEq Content] (host host' : Host Content) : Decidable (apart session target host host') := by
  unfold apart
  infer_instance

def Importing.copied (w : Importing Content) : Bool :=
  match w.copy with
  | .ended (.copied _) => true
  | _ => false

def Importing.renames (w : Importing Content) : Bool :=
  match w.copy with
  | .running .moving => true
  | _ => false

def Importing.cleans (w : Importing Content) : Bool :=
  match w.copy with
  | .running .cleaning => true
  | _ => false

-- The next turn puts the runtime of the call into the coordinator.
def Importing.installs (w : Importing Content) : Bool :=
  match w.ensure with
  | .running (.creating (.built epoch _)) => decide (w.host.co.epoch session = epoch) && !w.host.co.shutdownRequested
  | _ => false

-- The next turn moves an archive GA could not read out of the way.
def Importing.retires (w : Importing Content) : Bool :=
  match w.ensure with
  | .running (.building _ _ (.retiring _)) => true
  | _ => false

-- Others keep to their own; a call makes a row, a copy or a runtime only while the request waits for it, and the
-- request is not cancelled between the two; the rollback is not cancelled before its last call runs; what undoes a
-- copy or a row does not fail; and GA can read the copy.
def importable [DecidableEq Content] (w : Importing Content) : ImportAction Content → Bool
  | .resume _ => true
  | .cancel =>
      match w.pc with
      | .creating => !decide (w.create = .ended true)
      | .copying => !w.copied
      | .ensuring => !decide (w.ensure = .ended true)
      | .unlinking _ => false
      | .deleting _ => !decide (w.delete = .queued)
      | _ => true
  | .create o => decide (w.create = .running () → o = .returns → w.pc = .creating)
  | .copy o _ => decide ((w.renames = true → o = .returns → w.pc = .copying) ∧ (w.cleans = true → o ≠ .raises))
  | .bind _ => true
  | .ensure o =>
      decide ((w.installs session = true → o = .returns →
        w.pc = .ensuring ∧ w.host.rows.get? session = some (some target)) ∧ (w.retires = true → o ≠ .returns))
  | .unlink o => !decide (o = .raises)
  | .delete o => !decide (o = .raises)
  | .others host => decide (apart session target w.host host)

-- A session row bound to a complete copy of what was read of the source.
def Importing.Complete (w : Importing Content) : Prop :=
  w.host.rows.get? session = some (some target) ∧
    ∃ content text, w.seen = some content ∧ prepare content = some text ∧ w.host.files.get? target = some text

def Importing.Vacant (w : Importing Content) : Prop :=
  w.host.rows.get? session = none ∧ w.host.co.runtimes.get? session = none ∧ w.host.files.get? target = none ∧
    w.host.files.get? (.importing target) = none ∧ w.host.files.get? (.broken target) = none

def Importing.Over (w : Importing Content) : Prop :=
  (w.pc = .raised ∨ w.pc = .cancelled ∨ ∃ status, w.pc = .answered status) ∧ w.create.settled = true ∧
    w.copy.settled = true ∧ w.bind.settled = true ∧ w.ensure.settled = true ∧ w.unlink.settled = true ∧
    w.delete.settled = true

-- Which calls were handed over, by where the request is.
def Importing.Flow (w : Importing Content) : Prop :=
  match w.pc with
  | .creating => w.copy = .idle ∧ w.bind = .idle ∧ w.ensure = .idle ∧ w.unlink = .idle ∧ w.delete = .idle
  | .copying => w.create = .ended true ∧ w.bind = .idle ∧ w.ensure = .idle ∧ w.unlink = .idle ∧ w.delete = .idle
  | .binding => w.create = .ended true ∧ w.copied = true ∧ w.ensure = .idle ∧ w.unlink = .idle ∧ w.delete = .idle
  | .ensuring => w.create = .ended true ∧ w.copied = true ∧ w.unlink = .idle ∧ w.delete = .idle
  | .unlinking _ => w.create = .ended true ∧ w.copied = true ∧ w.ensure ≠ .ended true ∧ w.delete = .idle ∧ w.unlink ≠ .idle
  | .deleting _ =>
      w.create = .ended true ∧ w.ensure ≠ .ended true ∧ (w.copied = true → w.unlink = .ended true) ∧ w.delete ≠ .dropped ∧
        w.delete ≠ .idle
  | .answered 200 => w.create = .ended true ∧ w.copied = true ∧ w.ensure = .ended true ∧ w.unlink = .idle ∧ w.delete = .idle
  | .answered _ | .raised | .cancelled =>
      (w.create ≠ .ended true ∧ w.copy = .idle ∧ w.bind = .idle ∧ w.ensure = .idle ∧ w.unlink = .idle ∧ w.delete = .idle) ∨
        (w.create = .ended true ∧ w.ensure ≠ .ended true ∧ (w.copied = true → w.unlink = .ended true) ∧ w.delete ≠ .dropped ∧
          w.delete ≠ .idle ∧ w.delete ≠ .queued)
  | _ => w.create = .idle ∧ w.copy = .idle ∧ w.bind = .idle ∧ w.ensure = .idle ∧ w.unlink = .idle ∧ w.delete = .idle

structure Importing.Tidy (w : Importing Content) : Prop where
  flow : w.Flow
  undone : w.unlink ≠ .ended false ∧ w.delete ≠ .ended false
  row : w.host.rows.get? session ≠ none → w.create = .ended true ∧ w.delete ≠ .ended true
  copy : w.host.files.get? target ≠ none → w.copied = true ∧ w.unlink ≠ .ended true
  staging : w.host.files.get? (.importing target) ≠ none →
    w.copy = .running .counting ∨ w.copy = .running .moving ∨ w.copy = .running .cleaning
  backup : w.host.files.get? (.broken target) = none
  runtime : w.host.co.runtimes.get? session ≠ none → w.ensure = .ended true
  bound : w.ensure = .ended true → w.host.rows.get? session = some (some target)
  text : ∀ text, w.copy = .running (.minting text) ∨ w.copy = .running (.writing text) →
    ∃ content, w.seen = some content ∧ prepare content = some text
  staged : w.copy = .running .counting ∨ w.copy = .running .moving →
    ∃ content text, w.seen = some content ∧ prepare content = some text ∧ w.host.files.get? (.importing target) = some text
  whole : w.copied = true → w.unlink ≠ .ended true →
    ∃ content text, w.seen = some content ∧ prepare content = some text ∧ w.host.files.get? target = some text

variable {prepare source session target fresh me serial} {w w' : Importing Content}

theorem copied_iff : w.copied = true ↔ ∃ content, w.copy = .ended (.copied content) := by
  unfold Importing.copied
  cases w.copy with
  | ended result => cases result <;> simp
  | idle => simp
  | queued => simp
  | running stage => simp
  | dropped => simp

theorem Importing.Tidy.over (h : w.Tidy prepare session target) (hover : w.Over) :
    w.Complete prepare session target ∨ w.Vacant session target := by
  obtain ⟨hpc, _, hcopy, _, _, _, hdelete⟩ := hover
  have hflow := h.flow
  have hstaging : w.host.files.get? (.importing target) = none := by
    by_contra hnot
    rcases h.staging hnot with hr | hr | hr <;> simp [hr, Job.settled] at hcopy
  -- a request that failed has made nothing, or undone what it made
  have hvacant : (w.create ≠ .ended true ∧ w.copy = .idle ∧ w.bind = .idle ∧ w.ensure = .idle ∧ w.unlink = .idle ∧
      w.delete = .idle) ∨ (w.create = .ended true ∧ w.ensure ≠ .ended true ∧ (w.copied = true → w.unlink = .ended true) ∧
        w.delete ≠ .dropped ∧ w.delete ≠ .idle ∧ w.delete ≠ .queued) → w.Vacant session target := by
    rintro (⟨hcreate, hidle, _, hensure, _, _⟩ | ⟨_, hensure, hunlink, hdropped, hdidle, _⟩)
    · refine ⟨?_, ?_, ?_, hstaging, h.backup⟩
      · by_contra hnot
        exact hcreate (h.row hnot).1
      · by_contra hnot
        cases (h.runtime hnot).symm.trans hensure
      · by_contra hnot
        obtain ⟨content, hc⟩ := copied_iff.mp (h.copy hnot).1
        cases hc.symm.trans hidle
    · have hended : w.delete = .ended true := by
        cases hd : w.delete with
        | ended ok =>
            cases ok with
            | true => rfl
            | false => exact absurd hd h.undone.2
        | idle => exact absurd hd hdidle
        | dropped => exact absurd hd hdropped
        | queued => simp [hd, Job.settled] at hdelete
        | running stage => simp [hd, Job.settled] at hdelete
      refine ⟨?_, ?_, ?_, hstaging, h.backup⟩
      · by_contra hnot
        exact (h.row hnot).2 hended
      · by_contra hnot
        exact hensure (h.runtime hnot)
      · by_contra hnot
        exact (h.copy hnot).2 (hunlink (h.copy hnot).1)
  rcases hpc with hpc | hpc | ⟨status, hpc⟩
  · simp only [Importing.Flow, hpc] at hflow
    exact .inr (hvacant hflow)
  · simp only [Importing.Flow, hpc] at hflow
    exact .inr (hvacant hflow)
  · by_cases hstatus : status = 200
    · subst hstatus
      simp only [Importing.Flow, hpc] at hflow
      obtain ⟨_, hcopied, hensure, hunlink, _⟩ := hflow
      exact .inl ⟨h.bound hensure, h.whole hcopied (by simp [hunlink])⟩
    · simp only [Importing.Flow, hpc] at hflow
      exact .inr (hvacant hflow)

theorem Importing.Tidy.handled (h : w.Tidy prepare session target) (hhost : w'.host = w.host) (hseen : w'.seen = w.seen)
    (hcreate : Job.Handled w.create w'.create) (hcopy : Job.Handled w.copy w'.copy)
    (hensure : Job.Handled w.ensure w'.ensure) (hunlink : Job.Handled w.unlink w'.unlink)
    (hdelete : Job.Handled w.delete w'.delete) (hflow : w'.Flow) : w'.Tidy prepare session target := by
  have hcopied : w'.copied = true ↔ w.copied = true := by
    rw [copied_iff, copied_iff]
    exact exists_congr fun content => hcopy.ended _
  refine ⟨hflow, ?_, ?_, ?_, ?_, ?_, ?_, ?_, ?_, ?_, ?_⟩
  · rw [Ne, Ne, hunlink.ended, hdelete.ended]
    exact h.undone
  · simp only [hhost, ne_eq, hcreate.ended, hdelete.ended]
    exact h.row
  · simp only [hhost, ne_eq, hcopied, hunlink.ended]
    exact h.copy
  · rw [hhost, hcopy.running, hcopy.running, hcopy.running]
    exact h.staging
  · rw [hhost]
    exact h.backup
  · rw [hhost, hensure.ended]
    exact h.runtime
  · rw [hhost, hensure.ended]
    exact h.bound
  · simp only [hseen, hcopy.running]
    exact h.text
  · rw [hhost, hseen, hcopy.running, hcopy.running]
    exact h.staged
  · simp only [hhost, hseen, ne_eq, hcopied, hunlink.ended]
    exact h.whole

theorem Importing.Tidy.rollback (h : w.Tidy prepare session target) {u : Importing Content} {cause : Cause} {known : Bool}
    (hhost : u.host = w.host) (hseen : u.seen = w.seen) (hcreate : u.create = w.create)
    (hcopy : Job.Handled w.copy u.copy) (hensure : Job.Handled w.ensure u.ensure) (hunlink : w.unlink = .idle)
    (hdelete : w.delete = .idle) (hkept : u.unlink = w.unlink ∧ u.delete = w.delete) (hmade : w.create = .ended true)
    (hout : w.ensure ≠ .ended true) (hknown : w.copied = known) : (u.rollback cause known).Tidy prepare session target := by
  have hcopied : u.copied = w.copied := by
    rw [Bool.eq_iff_iff, copied_iff, copied_iff]
    exact exists_congr fun content => hcopy.ended _
  have hout' : u.ensure ≠ .ended true := fun hu => hout ((hensure.ended true).mp hu)
  cases known with
  | true =>
      refine h.handled hhost hseen ?_ hcopy hensure ?_ ?_ ?_
      · rw [show (u.rollback cause true).create = w.create from hcreate]
        exact .same _
      · rw [hunlink]
        exact .handed
      · rw [show (u.rollback cause true).delete = w.delete from hkept.2]
        exact .same _
      · exact ⟨hcreate.trans hmade, hcopied.trans hknown, hout', hkept.2.trans hdelete, by simp [Importing.rollback]⟩
  | false =>
      refine h.handled hhost hseen ?_ hcopy hensure ?_ ?_ ?_
      · rw [show (u.rollback cause false).create = w.create from hcreate]
        exact .same _
      · rw [show (u.rollback cause false).unlink = w.unlink from hkept.1]
        exact .same _
      · rw [hdelete]
        exact .handed
      · refine ⟨hcreate.trans hmade, hout', fun hc => ?_, by simp [Importing.rollback], by simp [Importing.rollback]⟩
        rw [show (u.rollback cause false).copied = u.copied from rfl, hcopied, hknown] at hc
        cases hc

theorem Importing.Tidy.resume (h : w.Tidy prepare session target) {answer : Answer}
    (hnext : w.resume source answer = some w') : w'.Tidy prepare session target := by
  have hflow := h.flow
  cases hpc : w.pc with
  | locating =>
      simp only [Importing.Flow, hpc] at hflow
      cases answer <;> simp only [Importing.resume, hpc] at hnext <;> cases hnext
      · exact h.handled rfl rfl (.same _) (.same _) (.same _) (.same _) (.same _) hflow
      · exact h.handled rfl rfl (.same _) (.same _) (.same _) (.same _) (.same _) (.inl ⟨by simp [hflow.1], hflow.2⟩)
      · exact h.handled rfl rfl (.same _) (.same _) (.same _) (.same _) (.same _) (.inl ⟨by simp [hflow.1], hflow.2⟩)
  | checking =>
      simp only [Importing.Flow, hpc] at hflow
      cases answer <;> simp only [Importing.resume, hpc] at hnext
      · split at hnext <;> cases hnext
        · exact h.handled rfl rfl (.same _) (.same _) (.same _) (.same _) (.same _) (.inl ⟨by simp [hflow.1], hflow.2⟩)
        · exact h.handled rfl rfl (.same _) (.same _) (.same _) (.same _) (.same _) hflow
      all_goals cases hnext
      exact h.handled rfl rfl (.same _) (.same _) (.same _) (.same _) (.same _) (.inl ⟨by simp [hflow.1], hflow.2⟩)
  | titling =>
      simp only [Importing.Flow, hpc] at hflow
      cases answer <;> simp only [Importing.resume, hpc] at hnext <;> cases hnext
      · refine h.handled rfl rfl ?_ (.same _) (.same _) (.same _) (.same _) hflow.2
        rw [hflow.1]
        exact .handed
      · exact h.handled rfl rfl (.same _) (.same _) (.same _) (.same _) (.same _) hflow
      · exact h.handled rfl rfl (.same _) (.same _) (.same _) (.same _) (.same _) (.inl ⟨by simp [hflow.1], hflow.2⟩)
  | previewing =>
      simp only [Importing.Flow, hpc] at hflow
      cases answer <;> simp only [Importing.resume, hpc] at hnext <;> cases hnext
      · refine h.handled rfl rfl ?_ (.same _) (.same _) (.same _) (.same _) hflow.2
        rw [hflow.1]
        exact .handed
      · exact h.handled rfl rfl (.same _) (.same _) (.same _) (.same _) (.same _) (.inl ⟨by simp [hflow.1], hflow.2⟩)
  | creating =>
      simp only [Importing.Flow, hpc] at hflow
      obtain ⟨hcopy, hbind, hensure, hunlink, hdelete⟩ := hflow
      simp only [Importing.resume, hpc] at hnext
      split at hnext <;> cases hnext
      · rename_i hc
        refine h.handled rfl rfl (.same _) ?_ (.same _) (.same _) (.same _) ⟨hc, hbind, hensure, hunlink, hdelete⟩
        rw [hcopy]
        exact .handed
      · rename_i hc
        refine h.handled rfl rfl (.same _) (.same _) (.same _) (.same _) (.same _) (.inl ?_)
        exact ⟨by simp [hc], hcopy, hbind, hensure, hunlink, hdelete⟩
  | copying =>
      simp only [Importing.Flow, hpc] at hflow
      obtain ⟨hcreate, hbind, hensure, hunlink, hdelete⟩ := hflow
      simp only [Importing.resume, hpc] at hnext
      split at hnext <;> cases hnext
      · rename_i content hc
        refine h.handled rfl rfl (.same _) (.same _) (.same _) (.same _) (.same _) ?_
        exact ⟨hcreate, copied_iff.mpr ⟨content, hc⟩, hensure, hunlink, hdelete⟩
      all_goals
        rename_i hc
        exact h.rollback rfl rfl rfl (.same _) (.same _) hunlink hdelete ⟨rfl, rfl⟩ hcreate (by simp [hensure])
          (by simp [Importing.copied, hc])
  | binding =>
      simp only [Importing.Flow, hpc] at hflow
      obtain ⟨hcreate, hcopied, hensure, hunlink, hdelete⟩ := hflow
      have hback : ∀ cause, (w.rollback cause true).Tidy prepare session target := fun cause =>
        h.rollback rfl rfl rfl (.same _) (.same _) hunlink hdelete ⟨rfl, rfl⟩ hcreate (by simp [hensure]) hcopied
      simp only [Importing.resume, hpc] at hnext
      split at hnext
      · split at hnext <;> cases hnext
        · refine h.handled rfl rfl (.same _) (.same _) ?_ (.same _) (.same _) ⟨hcreate, hcopied, hunlink, hdelete⟩
          rw [hensure]
          exact .handed
        · exact hback _
      · cases hnext
        exact hback _
      · cases hnext
  | ensuring =>
      simp only [Importing.Flow, hpc] at hflow
      obtain ⟨hcreate, hcopied, hunlink, hdelete⟩ := hflow
      simp only [Importing.resume, hpc] at hnext
      split at hnext <;> cases hnext
      · rename_i he
        exact h.handled rfl rfl (.same _) (.same _) (.same _) (.same _) (.same _) ⟨hcreate, hcopied, he, hunlink, hdelete⟩
      · rename_i he
        exact h.rollback rfl rfl rfl (.same _) (.same _) hunlink hdelete ⟨rfl, rfl⟩ hcreate (by simp [he]) hcopied
  | unlinking cause =>
      simp only [Importing.Flow, hpc] at hflow
      obtain ⟨hcreate, hcopied, hensure, hdelete, _⟩ := hflow
      simp only [Importing.resume, hpc] at hnext
      split at hnext <;> cases hnext
      rename_i ok hu
      have hok : w.unlink = .ended true := by
        cases ok with
        | true => exact hu
        | false => exact absurd hu h.undone.1
      refine h.handled rfl rfl (.same _) (.same _) (.same _) (.same _) ?_ ⟨hcreate, hensure, fun _ => hok, by simp, by simp⟩
      rw [hdelete]
      exact .handed
  | deleting cause =>
      simp only [Importing.Flow, hpc] at hflow
      obtain ⟨hcreate, hensure, hunlink, hdropped, hidle⟩ := hflow
      simp only [Importing.resume, hpc] at hnext
      split at hnext <;> cases hnext
      rename_i ok hd
      have hfailed : w.create = .ended true ∧ w.ensure ≠ .ended true ∧ (w.copied = true → w.unlink = .ended true) ∧
          w.delete ≠ .dropped ∧ w.delete ≠ .idle ∧ w.delete ≠ .queued :=
        ⟨hcreate, hensure, hunlink, hdropped, hidle, by simp [hd]⟩
      cases cause <;> exact h.handled rfl rfl (.same _) (.same _) (.same _) (.same _) (.same _) (.inr hfailed)
  | answered status => simp [Importing.resume, hpc] at hnext
  | raised => simp [Importing.resume, hpc] at hnext
  | cancelled => simp [Importing.resume, hpc] at hnext

theorem Importing.Flow.create (h : w.Flow) {host : Host Content} {create : Job Unit Bool} (hw : w.create.settled = false)
    (hmade : create = .ended true → w.pc = .creating) : ({ w with host, create } : Importing Content).Flow := by
  unfold Importing.Flow at h ⊢
  dsimp only
  split at h <;> grind -ring -linarith [Job.settled]

theorem Importing.Flow.copy (h : w.Flow) {host : Host Content} {seen : Option Content}
    {copy : Job (CopyStage Content) (Copied Content)} (hw : w.copy.settled = false)
    (hmade : ({ w with host, seen, copy } : Importing Content).copied = true → w.pc = .copying) :
    ({ w with host, seen, copy } : Importing Content).Flow := by
  have hout : w.copied = false := by
    cases hc : w.copy <;> simp_all [Importing.copied, Job.settled]
  unfold Importing.Flow at h ⊢
  dsimp only
  split at h <;> grind -ring -linarith [Job.settled]

theorem Importing.Flow.bind (h : w.Flow) {host : Host Content} {bind : Job Unit Bool} (hw : w.bind.settled = false) :
    ({ w with host, bind } : Importing Content).Flow := by
  unfold Importing.Flow at h ⊢
  dsimp only
  split at h <;> grind -ring -linarith [Job.settled, Importing.copied]

theorem Importing.Flow.ensure (h : w.Flow) {host : Host Content} {ensure : Job EnsureStage Bool}
    (hw : w.ensure.settled = false) (hmade : ensure = .ended true → w.pc = .ensuring) :
    ({ w with host, ensure } : Importing Content).Flow := by
  unfold Importing.Flow at h ⊢
  dsimp only
  split at h <;> grind -ring -linarith [Job.settled, Importing.copied]

theorem Importing.Flow.unlink (h : w.Flow) {host : Host Content} {unlink : Job Unit Bool} (hw : w.unlink.settled = false)
    (hnew : unlink ≠ .idle) : ({ w with host, unlink } : Importing Content).Flow := by
  unfold Importing.Flow at h ⊢
  dsimp only
  split at h <;> grind -ring -linarith [Job.settled, Importing.copied]

theorem Importing.Flow.delete (h : w.Flow) {host : Host Content} {delete : Job Unit Bool} (hw : w.delete.settled = false)
    (hnew : delete ≠ .idle ∧ delete ≠ .dropped ∧ delete ≠ .queued) :
    ({ w with host, delete } : Importing Content).Flow := by
  unfold Importing.Flow at h ⊢
  dsimp only
  split at h <;> grind -ring -linarith [Job.settled, Importing.copied]

theorem Importing.Flow.deleted (h : w.Flow) (hw : w.delete.settled = false) : w.ensure ≠ .ended true := by
  unfold Importing.Flow at h
  split at h <;> grind -ring -linarith [Job.settled]

theorem bindArchive_some {host host' : Host Content} (h : host.bindArchive session target = some host') :
    ∃ current, host.rows.get? session = some current ∧
      host' = { host with rows := host.rows.set session (some target) } := by
  unfold Host.bindArchive at h
  cases hrow : host.rows.get? session with
  | none => simp [hrow] at h
  | some current =>
      simp only [hrow] at h
      split at h <;> cases h
      exact ⟨current, rfl, rfl⟩

theorem importing_ne (name : FileName) : .importing name ≠ name := by
  induction name with
  | log name => simp
  | importing target ih => simpa using ih
  | broken archive => simp

theorem broken_ne (name : FileName) : .broken name ≠ name := by
  induction name with
  | log name => simp
  | importing target => simp
  | broken archive ih => simpa using ih

theorem Importing.Tidy.bind (h : w.Tidy prepare session target) {o : Outcome} {host : Host Content} {bind : Job Unit Bool}
    (hwork : w.bind.work () (bindStage session target) w.host o = some (host, bind)) :
    ({ w with host, bind } : Importing Content).Tidy prepare session target := by
  have hworking : w.bind.settled = false := by
    rcases Job.work_cases hwork with ⟨hc, _⟩ | ⟨_, _, hc, _⟩ | ⟨_, _, hc, _⟩ <;> simp [hc, Job.settled]
  have hsame : ∀ {bind : Job Unit Bool}, ({ w with bind } : Importing Content).Tidy prepare session target :=
    ⟨h.flow.bind hworking, h.undone, h.row, h.copy, h.staging, h.backup, h.runtime, h.bound, h.text, h.staged, h.whole⟩
  rcases Job.work_cases hwork with ⟨_, rfl, rfl⟩ | ⟨stage, stage', _, hstage, rfl⟩ | ⟨stage, ok, hc, hstage, rfl⟩
  · exact hsame
  · cases o <;> simp only [bindStage] at hstage
    · split at hstage <;> cases hstage
    all_goals cases hstage
  · cases o with
    | returns =>
        simp only [bindStage] at hstage
        cases hbind : w.host.bindArchive session target with
        | none =>
            simp only [hbind] at hstage
            cases hstage
            exact hsame
        | some bound =>
            simp only [hbind] at hstage
            cases hstage
            obtain ⟨current, hcurrent, rfl⟩ := bindArchive_some hbind
            refine ⟨h.flow.bind hworking, h.undone, fun _ => h.row (by simp [hcurrent]), h.copy, h.staging, h.backup, h.runtime,
              fun _ => Dict.get?_set_self _ _ _, h.text, h.staged, h.whole⟩
    | raises =>
        cases hstage
        exact hsame
    | declines => cases hstage
    | takesOver => cases hstage

-- A step of `_runtime_for_session` outside the factory: it keeps which runtime the session has and returns that, or it
-- installs the runtime it built.
theorem creation_cases {co : SessionCoordinator} {creation : Creation} {o : Sessions.Outcome} {t : CreationTurn}
    (h : creation.next co serial me session o = some t) :
    (t.co.runtimes = co.runtimes ∧ ∀ runtime, t.progress = .returned runtime → co.runtimes.get? session ≠ none) ∨
      (∃ epoch runtime, creation = .built epoch runtime ∧ co.epoch session = epoch ∧ co.shutdownRequested = false ∧
        o = .returns ∧ t.progress = .returned runtime) := by
  cases creation <;> cases o <;> simp only [Creation.next, reduceCtorEq, Option.some.injEq] at h
  case lookup.returns =>
    refine .inl ?_
    split at h <;> cases h
    · rename_i runtime hget
      exact ⟨rfl, fun _ _ => by simp [hget]⟩
    · exact ⟨rfl, fun _ hp => by cases hp⟩
  case waiting.returns =>
    refine .inl ?_
    split at h <;> cases h
    exact ⟨rfl, fun _ hp => by cases hp⟩
  case holding.returns =>
    refine .inl ?_
    split at h <;> cases h
    · rename_i runtime hget
      exact ⟨rfl, fun _ _ => by simp [hget]⟩
    · exact ⟨rfl, fun _ hp => by cases hp⟩
  case building.returns =>
    subst h
    exact .inl ⟨rfl, fun _ hp => by cases hp⟩
  case building.raises =>
    subst h
    exact .inl ⟨rfl, fun _ hp => by cases hp⟩
  case built.returns epoch runtime =>
    split at h <;> cases h
    · rename_i hfresh
      exact .inr ⟨epoch, runtime, rfl, hfresh.1, hfresh.2, rfl, rfl⟩
    · exact .inl ⟨rfl, fun _ hp => by cases hp⟩
  case discarding.returns runtime stopping =>
    subst h
    exact .inl ⟨rfl, fun _ hp => by cases hp⟩

-- What a turn of `ensure_runtime` can do to the session: nothing, bind its row elsewhere, or give it a runtime.
theorem ensureStage_cases {host host' : Host Content} {stage : EnsureStage} {o : Outcome} {next : EnsureStage ⊕ Bool}
    (h : ensureStage session fresh me serial host stage o = some (host', next))
    (hkept : ∀ epoch runtime archive, stage = .building epoch runtime (.retiring archive) → o ≠ .returns) :
    host'.files = host.files ∧
      ((host'.co.runtimes = host.co.runtimes ∧ (host.rows.get? session = none → host'.rows.get? session = none) ∧
          (next = .inr true → host.co.runtimes.get? session ≠ none)) ∨
        (∃ epoch runtime, stage = .creating (.built epoch runtime) ∧ host.co.epoch session = epoch ∧
          host.co.shutdownRequested = false ∧ o = .returns ∧ host'.rows = host.rows ∧ next = .inr true)) := by
  -- a step of the creation, whatever it ran before
  have hprogress : ∀ {u : Host Content} {creation : Creation} {so : Sessions.Outcome} {t : CreationTurn},
      creation.next u.co serial me session so = some t → ensureProgress u t = (host', next) →
      host'.files = u.files ∧ host'.rows = u.rows ∧
        ((host'.co.runtimes = u.co.runtimes ∧ (next = .inr true → u.co.runtimes.get? session ≠ none)) ∨
          (∃ epoch runtime, creation = .built epoch runtime ∧ u.co.epoch session = epoch ∧
            u.co.shutdownRequested = false ∧ so = .returns ∧ next = .inr true)) := by
    intro u creation so t ht heq
    obtain ⟨rfl, rfl⟩ := Prod.mk.inj heq
    refine ⟨rfl, rfl, ?_⟩
    rcases creation_cases ht with ⟨hruntimes, hreturned⟩ | ⟨epoch, runtime, hc, he, hs, ho, hp⟩
    · refine .inl ⟨hruntimes, fun hdone => ?_⟩
      cases hp : t.progress with
      | goesOn creation => cases creation <;> simp [hp] at hdone
      | returned runtime => exact hreturned runtime hp
      | raised error => simp [hp] at hdone
    · exact .inr ⟨epoch, runtime, hc, he, hs, ho, by simp [hp]⟩
  cases stage with
  | entering =>
      cases o <;> simp only [ensureStage, reduceCtorEq] at h
      split at h <;> cases h <;> exact ⟨rfl, .inl ⟨rfl, id, by simp⟩⟩
  | creating creation =>
      simp only [ensureStage] at h
      obtain ⟨t, ht, heq⟩ := Option.map_eq_some_iff.mp h
      obtain ⟨hfiles, hrows, hcases⟩ := hprogress ht heq
      refine ⟨hfiles, ?_⟩
      rcases hcases with ⟨hruntimes, hdone⟩ | ⟨epoch, runtime, rfl, he, hs, ho, hdone⟩
      · exact .inl ⟨hruntimes, fun hnone => by rw [hrows]; exact hnone, hdone⟩
      · refine .inr ⟨epoch, runtime, rfl, he, hs, ?_, hrows, hdone⟩
        cases o with
        | returns => rfl
        | raises => cases ho
        | declines => cases ho
        | takesOver => cases ho
  | building epoch runtime stage =>
      simp only [ensureStage] at h
      cases hf : factoryStage none fresh session host stage o with
      | none => simp [hf] at h
      | some made =>
          obtain ⟨u, more⟩ := made
          have hfactory : u.files = host.files ∧ u.co = host.co ∧ (host.rows.get? session = none → u.rows.get? session = none) := by
            rcases factoryStage_cases _ _ _ hf with rfl | ⟨archive, rfl, ho, _⟩ | ⟨row, archive, hrow, rfl⟩
            · exact ⟨rfl, rfl, id⟩
            · exact absurd ho (hkept epoch runtime archive rfl)
            · exact ⟨rfl, rfl, fun hnone => by simp [hrow] at hnone⟩
          obtain ⟨hfiles, hco, hrows⟩ := hfactory
          cases more with
          | inl stage' =>
              simp only [hf, Option.some.injEq] at h
              obtain ⟨rfl, rfl⟩ := Prod.mk.inj h
              exact ⟨hfiles, .inl ⟨by rw [hco], hrows, by simp⟩⟩
          | inr built =>
              simp only [hf] at h
              obtain ⟨t, ht, heq⟩ := Option.map_eq_some_iff.mp h
              obtain ⟨hfiles', hrows', hcases⟩ := hprogress ht heq
              refine ⟨hfiles'.trans hfiles, .inl ?_⟩
              rcases hcases with ⟨hruntimes, hdone⟩ | ⟨_, _, hc, _⟩
              · rw [hco] at hruntimes hdone
                exact ⟨hruntimes, fun hnone => by rw [hrows']; exact hrows hnone, hdone⟩
              · cases hc

section Steps

variable [DecidableEq Content]

theorem Importing.Tidy.cancel (h : w.Tidy prepare session target) (hok : importable session target w .cancel = true)
    (hnext : w.cancel = some w') : w'.Tidy prepare session target := by
  have hflow := h.flow
  have hearly : w.create = .idle ∧ w.copy = .idle ∧ w.bind = .idle ∧ w.ensure = .idle ∧ w.unlink = .idle ∧ w.delete = .idle →
      ({ w with pc := .cancelled } : Importing Content).Tidy prepare session target := fun hidle =>
    h.handled rfl rfl (.same _) (.same _) (.same _) (.same _) (.same _) (.inl ⟨by simp [hidle.1], hidle.2⟩)
  cases hpc : w.pc with
  | locating =>
      simp only [Importing.Flow, hpc] at hflow
      simp only [Importing.cancel, hpc] at hnext
      cases hnext
      exact hearly hflow
  | checking =>
      simp only [Importing.Flow, hpc] at hflow
      simp only [Importing.cancel, hpc] at hnext
      cases hnext
      exact hearly hflow
  | titling =>
      simp only [Importing.Flow, hpc] at hflow
      simp only [Importing.cancel, hpc] at hnext
      cases hnext
      exact hearly hflow
  | previewing =>
      simp only [Importing.Flow, hpc] at hflow
      simp only [Importing.cancel, hpc] at hnext
      cases hnext
      exact hearly hflow
  | creating =>
      simp only [Importing.Flow, hpc] at hflow
      simp only [Importing.cancel, hpc] at hnext
      cases hnext
      simp only [importable, hpc, Bool.not_eq_true', decide_eq_false_iff_not] at hok
      have hcreate := Job.Handled.abandon w.create
      refine h.handled rfl rfl hcreate (.same _) (.same _) (.same _) (.same _) (.inl ⟨?_, hflow⟩)
      exact fun hc => hok ((hcreate.ended true).mp hc)
  | copying =>
      simp only [Importing.Flow, hpc] at hflow
      obtain ⟨hcreate, _, hensure, hunlink, hdelete⟩ := hflow
      simp only [Importing.cancel, hpc] at hnext
      cases hnext
      simp only [importable, hpc, Bool.not_eq_true'] at hok
      exact h.rollback rfl rfl rfl (.abandon _) (.same _) hunlink hdelete ⟨rfl, rfl⟩ hcreate (by simp [hensure]) hok
  | binding =>
      simp only [Importing.Flow, hpc] at hflow
      obtain ⟨hcreate, hcopied, hensure, hunlink, hdelete⟩ := hflow
      simp only [Importing.cancel, hpc] at hnext
      cases hnext
      exact h.rollback rfl rfl rfl (.same _) (.same _) hunlink hdelete ⟨rfl, rfl⟩ hcreate (by simp [hensure]) hcopied
  | ensuring =>
      simp only [Importing.Flow, hpc] at hflow
      obtain ⟨hcreate, hcopied, hunlink, hdelete⟩ := hflow
      simp only [Importing.cancel, hpc] at hnext
      cases hnext
      simp only [importable, hpc, Bool.not_eq_true', decide_eq_false_iff_not] at hok
      exact h.rollback rfl rfl rfl (.same _) (.abandon _) hunlink hdelete ⟨rfl, rfl⟩ hcreate hok hcopied
  | unlinking cause => simp [importable, hpc] at hok
  | deleting cause =>
      simp only [Importing.Flow, hpc] at hflow
      obtain ⟨hcreate, hensure, hunlink, hdropped, hidle⟩ := hflow
      simp only [Importing.cancel, hpc] at hnext
      cases hnext
      simp only [importable, hpc, Bool.not_eq_true', decide_eq_false_iff_not] at hok
      have hsame : w.delete.abandon = w.delete := by
        rcases w.delete.abandon_cases with ⟨hq, _⟩ | ⟨_, hsame⟩
        · exact absurd hq hok
        · exact hsame
      refine h.handled rfl rfl (.same _) (.same _) (.same _) (.same _) (.abandon _) (.inr ?_)
      rw [show ({ w with pc := .cancelled, delete := w.delete.abandon } : Importing Content).delete = w.delete from hsame]
      exact ⟨hcreate, hensure, hunlink, hdropped, hidle, hok⟩
  | answered status => simp [Importing.cancel, hpc] at hnext
  | raised => simp [Importing.cancel, hpc] at hnext
  | cancelled => simp [Importing.cancel, hpc] at hnext

theorem Importing.Tidy.create (h : w.Tidy prepare session target) {o : Outcome}
    (hok : importable session target w (.create o) = true) {host : Host Content} {create : Job Unit Bool}
    (hwork : w.create.work () (createStage session) w.host o = some (host, create)) :
    ({ w with host, create } : Importing Content).Tidy prepare session target := by
  have hworking : w.create.settled = false := by
    rcases Job.work_cases hwork with ⟨hc, _⟩ | ⟨_, _, hc, _⟩ | ⟨_, _, hc, _⟩ <;> simp [hc, Job.settled]
  have hrow : w.host.rows.get? session = none := by
    by_contra hnot
    simp [(h.row hnot).1, Job.settled] at hworking
  have hensure : w.ensure ≠ .ended true := fun he => by simp [h.bound he] at hrow
  have hsame : ∀ {create : Job Unit Bool}, create ≠ .ended true →
      ({ w with create } : Importing Content).Tidy prepare session target := fun hnew =>
    ⟨h.flow.create hworking fun hc => absurd hc hnew, h.undone, fun hnot => absurd hrow hnot, h.copy, h.staging, h.backup,
      h.runtime, h.bound, h.text, h.staged, h.whole⟩
  rcases Job.work_cases hwork with ⟨_, rfl, rfl⟩ | ⟨stage, stage', _, hstage, rfl⟩ | ⟨stage, ok, hc, hstage, rfl⟩
  · exact hsame (by simp)
  · cases o <;> cases hstage
  · cases o with
    | returns =>
        cases hstage
        simp only [importable, decide_eq_true_eq] at hok
        have hpc := hok hc trivial
        have hflow := h.flow
        simp only [Importing.Flow, hpc] at hflow
        exact ⟨h.flow.create hworking fun _ => hpc, h.undone, fun _ => ⟨rfl, by simp [hflow.2.2.2.2]⟩, h.copy, h.staging,
          h.backup, h.runtime, fun he => absurd he hensure, h.text, h.staged, h.whole⟩
    | raises =>
        cases hstage
        exact hsame (by simp)
    | declines => cases hstage
    | takesOver => cases hstage

theorem Importing.Tidy.unlink (h : w.Tidy prepare session target) {o : Outcome}
    (hok : importable session target w (.unlink o) = true) {host : Host Content} {unlink : Job Unit Bool}
    (hwork : w.unlink.work () (unlinkStage target) w.host o = some (host, unlink)) :
    ({ w with host, unlink } : Importing Content).Tidy prepare session target := by
  have hworking : w.unlink.settled = false := by
    rcases Job.work_cases hwork with ⟨hc, _⟩ | ⟨_, _, hc, _⟩ | ⟨_, _, hc, _⟩ <;> simp [hc, Job.settled]
  rcases Job.work_cases hwork with ⟨hq, rfl, rfl⟩ | ⟨stage, stage', _, hstage, rfl⟩ | ⟨stage, ok, hc, hstage, rfl⟩
  · exact ⟨h.flow.unlink hworking (by simp), ⟨by simp, h.undone.2⟩, h.row, fun hnot => ⟨(h.copy hnot).1, by simp⟩, h.staging,
      h.backup, h.runtime, h.bound, h.text, h.staged, fun hcopied _ => h.whole hcopied (by simp [hq])⟩
  · cases o <;> cases hstage
  · cases o with
    | returns =>
        cases hstage
        have hother : ∀ name, name ≠ target → (w.host.unlink target).files.get? name = w.host.files.get? name :=
          fun name hne => Dict.get?_erase_ne _ hne
        refine ⟨h.flow.unlink hworking (by simp), ⟨by simp, h.undone.2⟩, h.row, fun hnot => ?_, ?_, ?_, h.runtime, h.bound,
          h.text, ?_, fun _ hnot => absurd rfl hnot⟩
        · exact absurd (Dict.get?_erase_self _ _) hnot
        · rw [show ({ w with host := w.host.unlink target, unlink := .ended true } : Importing Content).host.files.get?
            (.importing target) = _ from hother _ (importing_ne target)]
          exact h.staging
        · exact (hother _ (broken_ne target)).trans h.backup
        · rw [show ({ w with host := w.host.unlink target, unlink := .ended true } : Importing Content).host.files.get?
            (.importing target) = _ from hother _ (importing_ne target)]
          exact h.staged
    | raises => simp [importable] at hok
    | declines => cases hstage
    | takesOver => cases hstage

theorem Importing.Tidy.delete (h : w.Tidy prepare session target) {o : Outcome}
    (hok : importable session target w (.delete o) = true) {host : Host Content} {delete : Job Unit Bool}
    (hwork : w.delete.work () (deleteStage session) w.host o = some (host, delete)) :
    ({ w with host, delete } : Importing Content).Tidy prepare session target := by
  have hworking : w.delete.settled = false := by
    rcases Job.work_cases hwork with ⟨hc, _⟩ | ⟨_, _, hc, _⟩ | ⟨_, _, hc, _⟩ <;> simp [hc, Job.settled]
  rcases Job.work_cases hwork with ⟨hq, rfl, rfl⟩ | ⟨stage, stage', _, hstage, rfl⟩ | ⟨stage, ok, hc, hstage, rfl⟩
  · exact ⟨h.flow.delete hworking (by simp), ⟨h.undone.1, by simp⟩, fun hnot => ⟨(h.row hnot).1, by simp⟩, h.copy, h.staging,
      h.backup, h.runtime, h.bound, h.text, h.staged, h.whole⟩
  · cases o <;> cases hstage
  · cases o with
    | returns =>
        cases hstage
        have hensure : w.ensure ≠ .ended true := h.flow.deleted hworking
        exact ⟨h.flow.delete hworking (by simp), ⟨h.undone.1, by simp⟩, fun hnot => absurd (Dict.get?_erase_self _ _) hnot,
          h.copy, h.staging, h.backup, h.runtime, fun he => absurd he hensure, h.text, h.staged, h.whole⟩
    | raises => simp [importable] at hok
    | declines => cases hstage
    | takesOver => cases hstage

theorem Importing.Tidy.copies (h : w.Tidy prepare session target) {o : Outcome} {written : Option Content}
    (hok : importable session target w (.copy o written) = true) {host : Host Content} {seen : Option Content}
    {copy : Job (CopyStage Content) (Copied Content)}
    (hwork : w.copy.work .reading (copyStage prepare source target written) (w.host, w.seen) o = some ((host, seen), copy)) :
    ({ w with host, seen, copy } : Importing Content).Tidy prepare session target := by
  have hworking : w.copy.settled = false := by
    rcases Job.work_cases hwork with ⟨hc, _⟩ | ⟨_, _, hc, _⟩ | ⟨_, _, hc, _⟩ <;> simp [hc, Job.settled]
  have hcopied : w.copied = false := by
    cases hc : w.copied with
    | false => rfl
    | true =>
        obtain ⟨content, hended⟩ := copied_iff.mp hc
        simp [hended, Job.settled] at hworking
  have hnone : w.host.files.get? target = none := by
    by_contra hnot
    simp [(h.copy hnot).1] at hcopied
  have hstep : ∀ {files : Dict FileName Content} {seen : Option Content} {stage : CopyStage Content},
      files.get? target = none → files.get? (.broken target) = none →
      (files.get? (.importing target) ≠ none → stage = .counting ∨ stage = .moving ∨ stage = .cleaning) →
      (∀ text, stage = .minting text ∨ stage = .writing text → ∃ content, seen = some content ∧ prepare content = some text) →
      (stage = .counting ∨ stage = .moving → ∃ content text, seen = some content ∧ prepare content = some text ∧
        files.get? (.importing target) = some text) →
      ({ w with host := { w.host with files }, seen, copy := .running stage } : Importing Content).Tidy prepare session target :=
    fun hfiles hbackup hstaging htext hstaged =>
      ⟨h.flow.copy hworking fun hc => by simp [Importing.copied] at hc, h.undone, h.row, fun hnot => absurd hfiles hnot,
        fun hnot => by simpa using hstaging hnot, hbackup, h.runtime, h.bound, fun text hs => htext text (by simpa using hs),
        fun hs => hstaged (by simpa using hs), fun hc => by simp [Importing.copied] at hc⟩
  have hfail : ∀ {files : Dict FileName Content} {result : Copied Content}, (∀ content, result ≠ .copied content) →
      files.get? target = none → files.get? (.broken target) = none → files.get? (.importing target) = none →
      ({ w with host := { w.host with files }, copy := .ended result } : Importing Content).Tidy prepare session target :=
    fun {files result} hresult hfiles hbackup hstaging => by
      have hout : ({ w with host := { w.host with files }, copy := .ended result } : Importing Content).copied ≠ true :=
        fun hc => by
          obtain ⟨content, hended⟩ := copied_iff.mp hc
          exact hresult content (by simpa using hended)
      exact ⟨h.flow.copy hworking fun hc => absurd hc hout, h.undone, h.row, fun hnot => absurd hfiles hnot,
        fun hnot => absurd hstaging hnot, hbackup, h.runtime, h.bound, fun text hs => by simp at hs, fun hs => by simp at hs,
        fun hc => absurd hc hout⟩
  have hunstaged : (∀ stage, w.copy = .running stage → stage ≠ .counting ∧ stage ≠ .moving ∧ stage ≠ .cleaning) →
      w.host.files.get? (.importing target) = none := fun hearly => by
    by_contra hnot
    rcases h.staging hnot with hr | hr | hr
    · exact (hearly _ hr).1 rfl
    · exact (hearly _ hr).2.1 rfl
    · exact (hearly _ hr).2.2 rfl
  rcases Job.work_cases hwork with ⟨hq, heq, rfl⟩ | ⟨stage, stage', hr, hstage, rfl⟩ | ⟨stage, result, hr, hstage, rfl⟩
  · cases heq
    exact hstep hnone h.backup (fun hnot => absurd (hunstaged (by simp [hq])) hnot) (by simp) (by simp)
  · cases stage with
    | reading =>
        have hst := hunstaged (by simp [hr])
        cases o <;> simp only [copyStage] at hstage
        · split at hstage
          · cases hstage
          · rename_i content _
            split at hstage
            · cases hstage
            · rename_i text hprepare
              cases hstage
              refine hstep hnone h.backup (fun hnot => absurd hst hnot) (fun text' hs => ?_) (by simp)
              rcases hs with hs | hs
              · cases hs
                exact ⟨content, rfl, hprepare⟩
              · cases hs
        all_goals cases hstage
    | minting text =>
        have hst := hunstaged (by simp [hr])
        have htext := h.text text (.inl hr)
        cases o with
        | returns =>
            simp only [copyStage, hnone, ↓reduceIte] at hstage
            cases hstage
            refine hstep hnone h.backup (fun hnot => absurd hst hnot) (fun text' hs => ?_) (by simp)
            rcases hs with hs | hs
            · cases hs
            · cases hs
              exact htext
        | raises => cases hstage
        | declines => cases hstage
        | takesOver => cases hstage
    | writing text =>
        obtain ⟨content, hseen, hprepare⟩ := h.text text (.inr hr)
        have hother : ∀ {name : FileName} {c : Content}, name ≠ .importing target →
            (w.host.files.set (.importing target) c).get? name = w.host.files.get? name := fun hne =>
          Dict.get?_set_ne _ _ hne
        cases o with
        | returns =>
            cases hstage
            refine hstep ?_ ?_ (fun _ => .inl rfl) (by simp) fun _ => ⟨content, text, hseen, hprepare, Dict.get?_set_self _ _ _⟩
            · exact (hother (importing_ne target).symm).trans hnone
            · exact (hother (by simp)).trans h.backup
        | raises =>
            simp only [copyStage] at hstage
            split at hstage <;> cases hstage
            · exact hstep hnone h.backup (fun _ => .inr (.inr rfl)) (by simp) (by simp)
            · refine hstep ?_ ?_ (fun _ => .inr (.inr rfl)) (by simp) (by simp)
              · exact (hother (importing_ne target).symm).trans hnone
              · exact (hother (by simp)).trans h.backup
        | declines => cases hstage
        | takesOver => cases hstage
    | counting =>
        have hstaged := h.staged (.inl hr)
        cases o <;> cases hstage
        · exact hstep hnone h.backup (fun _ => .inr (.inl rfl)) (by simp) fun _ => hstaged
        · exact hstep hnone h.backup (fun _ => .inr (.inr rfl)) (by simp) (by simp)
    | moving =>
        cases o <;> simp only [copyStage] at hstage
        · split at hstage <;> cases hstage
          exact hstep hnone h.backup (fun _ => .inr (.inr rfl)) (by simp) (by simp)
        · cases hstage
          exact hstep hnone h.backup (fun _ => .inr (.inr rfl)) (by simp) (by simp)
        all_goals cases hstage
    | cleaning => cases o <;> cases hstage
  · cases stage with
    | reading =>
        have hst := hunstaged (by simp [hr])
        cases o <;> simp only [copyStage] at hstage
        · split at hstage
          · cases hstage
            exact hfail (by simp) hnone h.backup hst
          · split at hstage
            · cases hstage
              exact hfail (by simp) hnone h.backup hst
            · cases hstage
        · cases hstage
          exact hfail (by simp) hnone h.backup hst
        all_goals cases hstage
    | minting text =>
        have hst := hunstaged (by simp [hr])
        cases o <;> simp only [copyStage] at hstage
        · split at hstage <;> cases hstage
        · cases hstage
          exact hfail (by simp) hnone h.backup hst
        all_goals cases hstage
    | writing text =>
        cases o <;> simp only [copyStage] at hstage
        · cases hstage
        · split at hstage <;> cases hstage
        all_goals cases hstage
    | counting => cases o <;> cases hstage
    | moving =>
        obtain ⟨content, text, hseen, hprepare, hstaged⟩ := h.staged (.inr hr)
        cases o with
        | returns =>
            simp only [importable, Importing.renames, hr, decide_eq_true_eq] at hok
            have hpc := hok.1 trivial trivial
            have hflow := h.flow
            simp only [Importing.Flow, hpc] at hflow
            simp only [copyStage, hseen, Host.replace, hstaged, Option.map_some] at hstage
            cases hstage
            refine ⟨h.flow.copy hworking fun _ => hpc, h.undone, h.row, fun _ => ⟨rfl, by simp [hflow.2.2.2.1]⟩, fun hnot => ?_, ?_,
              h.runtime, h.bound, by simp, by simp, fun _ _ => ⟨content, text, rfl, hprepare, Dict.get?_set_self _ _ _⟩⟩
            · refine absurd ?_ hnot
              exact (Dict.get?_set_ne _ _ (importing_ne target)).trans (Dict.get?_erase_self _ _)
            · exact (Dict.get?_set_ne _ _ (broken_ne target)).trans ((Dict.get?_erase_ne _ (by simp)).trans h.backup)
        | raises => cases hstage
        | declines => cases hstage
        | takesOver => cases hstage
    | cleaning =>
        cases o with
        | returns =>
            cases hstage
            refine hfail (by simp) ?_ ?_ (Dict.get?_erase_self _ _)
            · exact (Dict.get?_erase_ne _ (importing_ne target).symm).trans hnone
            · exact (Dict.get?_erase_ne _ (by simp)).trans h.backup
        | raises => simp [importable, Importing.cleans, hr] at hok
        | declines => cases hstage
        | takesOver => cases hstage

theorem Importing.Tidy.ensure (h : w.Tidy prepare session target) {o : Outcome}
    (hok : importable session target w (.ensure o) = true) {host : Host Content} {ensure : Job EnsureStage Bool}
    (hwork : w.ensure.work .entering (ensureStage session fresh me serial) w.host o = some (host, ensure)) :
    ({ w with host, ensure } : Importing Content).Tidy prepare session target := by
  have hworking : w.ensure.settled = false := by
    rcases Job.work_cases hwork with ⟨hc, _⟩ | ⟨_, _, hc, _⟩ | ⟨_, _, hc, _⟩ <;> simp [hc, Job.settled]
  have hnone : w.host.co.runtimes.get? session = none := by
    by_contra hnot
    simp [h.runtime hnot, Job.settled] at hworking
  simp only [importable, decide_eq_true_eq] at hok
  have hkept : ∀ stage, w.ensure = .running stage → ∀ epoch runtime archive,
      stage = .building epoch runtime (.retiring archive) → o ≠ .returns := by
    rintro _ hr epoch runtime archive rfl
    exact hok.2 (by simp [Importing.retires, hr])
  -- every turn but the one that installs
  have hplain : ∀ {host : Host Content} {ensure : Job EnsureStage Bool}, host.files = w.host.files →
      host.co.runtimes = w.host.co.runtimes → (w.host.rows.get? session = none → host.rows.get? session = none) →
      ensure ≠ .ended true → ({ w with host, ensure } : Importing Content).Tidy prepare session target := by
    intro host ensure hfiles hruntimes hrows hnew
    refine ⟨h.flow.ensure hworking fun he => absurd he hnew, h.undone, fun hnot => h.row fun hr => hnot (hrows hr), ?_, ?_, ?_,
      fun hnot => ?_, fun he => absurd he hnew, h.text, ?_, ?_⟩
    · rw [hfiles]
      exact h.copy
    · rw [hfiles]
      exact h.staging
    · rw [hfiles]
      exact h.backup
    · rw [hruntimes] at hnot
      exact absurd hnone hnot
    · rw [hfiles]
      exact h.staged
    · rw [hfiles]
      exact h.whole
  rcases Job.work_cases hwork with ⟨_, rfl, rfl⟩ | ⟨stage, stage', hr, hstage, rfl⟩ | ⟨stage, ok, hr, hstage, rfl⟩
  · exact hplain rfl rfl id (by simp)
  · obtain ⟨hfiles, ⟨hruntimes, hrows, _⟩ | ⟨_, _, _, _, _, _, _, hdone⟩⟩ := ensureStage_cases hstage (hkept stage hr)
    · exact hplain hfiles hruntimes hrows (by simp)
    · cases hdone
  · obtain ⟨hfiles, ⟨hruntimes, hrows, hdone⟩ | ⟨epoch, runtime, rfl, he, hs, ho, hrows, hdone⟩⟩ :=
      ensureStage_cases hstage (hkept stage hr)
    · refine hplain hfiles hruntimes hrows fun hended => ?_
      cases hended
      exact hdone rfl hnone
    · cases hdone
      obtain ⟨hpc, hbound⟩ := hok.1 (by simp [Importing.installs, hr, he, hs]) ho
      refine ⟨h.flow.ensure hworking fun _ => hpc, h.undone, fun hnot => h.row (by rwa [hrows] at hnot), ?_, ?_, ?_,
        fun _ => rfl, fun _ => by rw [hrows]; exact hbound, h.text, ?_, ?_⟩
      · rw [hfiles]
        exact h.copy
      · rw [hfiles]
        exact h.staging
      · rw [hfiles]
        exact h.backup
      · rw [hfiles]
        exact h.staged
      · rw [hfiles]
        exact h.whole

theorem Importing.Tidy.next (h : w.Tidy prepare session target) {a : ImportAction Content}
    (hok : importable session target w a = true)
    (hnext : w.next prepare source session target fresh me serial a = some w') : w'.Tidy prepare session target := by
  cases a with
  | resume answer => exact h.resume hnext
  | cancel => exact h.cancel hok hnext
  | create o =>
      obtain ⟨⟨host, create⟩, hwork, rfl⟩ := Option.map_eq_some_iff.mp hnext
      exact h.create hok hwork
  | copy o written =>
      obtain ⟨⟨⟨host, seen⟩, copy⟩, hwork, rfl⟩ := Option.map_eq_some_iff.mp hnext
      exact h.copies hok hwork
  | bind o =>
      obtain ⟨⟨host, bind⟩, hwork, rfl⟩ := Option.map_eq_some_iff.mp hnext
      exact h.bind hwork
  | ensure o =>
      obtain ⟨⟨host, ensure⟩, hwork, rfl⟩ := Option.map_eq_some_iff.mp hnext
      exact h.ensure hok hwork
  | unlink o =>
      obtain ⟨⟨host, unlink⟩, hwork, rfl⟩ := Option.map_eq_some_iff.mp hnext
      exact h.unlink hok hwork
  | delete o =>
      obtain ⟨⟨host, delete⟩, hwork, rfl⟩ := Option.map_eq_some_iff.mp hnext
      exact h.delete hok hwork
  | others host =>
      cases hnext
      simp only [importable, decide_eq_true_eq] at hok
      obtain ⟨hrow, hruntime, hcopy, hstaging, hbackup⟩ := hok
      refine ⟨h.flow, h.undone, ?_, ?_, ?_, ?_, ?_, ?_, h.text, ?_, ?_⟩
      · rw [hrow]
        exact h.row
      · rw [hcopy]
        exact h.copy
      · rw [hstaging]
        exact h.staging
      · exact hbackup.trans h.backup
      · rw [hruntime]
        exact h.runtime
      · rw [hrow]
        exact h.bound
      · rw [hstaging]
        exact h.staged
      · rw [hcopy]
        exact h.whole

theorem reachable_tidy {host : Host Content} (hunused : Unused source session target host)
    (hw : ((importMachine prepare source session target fresh me serial host).restrict
      fun w a => importable session target w a).Reachable w) : w.Tidy prepare session target := by
  refine hw.invariant ?_ fun _ _ _ h hnext => h.next (Machine.restrict_next hnext).1 (Machine.restrict_next hnext).2
  refine ⟨⟨rfl, rfl, rfl, rfl, rfl, rfl⟩, ⟨by simp [Machine.restrict, importMachine], by simp [Machine.restrict, importMachine]⟩,
    fun hnot => absurd hunused.row hnot, fun hnot => absurd hunused.copy hnot, fun hnot => absurd hunused.staging hnot,
    hunused.backup, fun hnot => absurd hunused.runtime hnot, ?_, ?_, ?_, ?_⟩
  · intro he
    cases he
  · rintro text (he | he) <;> cases he
  · rintro (he | he) <;> cases he
  · intro hc
    cases hc

end Steps

theorem copyStage_source {written : Option Content} {u u' : Host Content × Option Content} {stage : CopyStage Content}
    {o : Outcome} {next : CopyStage Content ⊕ Copied Content}
    (h : copyStage prepare source target written u stage o = some (u', next)) (hne : source ≠ target)
    (hstaging : source ≠ .importing target) : u'.1.files.get? source = u.1.files.get? source := by
  cases stage with
  | reading => cases o <;> simp only [copyStage] at h <;> grind -ring -linarith
  | minting text => cases o <;> simp only [copyStage] at h <;> grind -ring -linarith
  | counting => cases o <;> cases h <;> rfl
  | writing text =>
      cases o with
      | returns =>
          cases h
          exact Dict.get?_set_ne _ _ hstaging
      | raises =>
          simp only [copyStage] at h
          split at h <;> cases h
          · rfl
          · exact Dict.get?_set_ne _ _ hstaging
      | declines => cases h
      | takesOver => cases h
  | moving =>
      cases o with
      | returns =>
          simp only [copyStage] at h
          split at h
          · rename_i moved content hmoved hseen
            cases h
            obtain ⟨staged, _, rfl⟩ := Option.map_eq_some_iff.mp hmoved
            exact (Dict.get?_set_ne _ _ hne).trans (Dict.get?_erase_ne _ hstaging)
          · cases h
            rfl
      | raises =>
          cases h
          rfl
      | declines => cases h
      | takesOver => cases h
  | cleaning =>
      cases o with
      | returns =>
          cases h
          exact Dict.get?_erase_ne _ hstaging
      | raises =>
          cases h
          rfl
      | declines => cases h
      | takesOver => cases h

theorem Importing.resume_host {answer : Answer} (hnext : w.resume source answer = some w') : w'.host = w.host := by
  unfold Importing.resume Importing.rollback Importing.conclude at hnext
  grind -ring -linarith

theorem Importing.cancel_host (hnext : w.cancel = some w') : w'.host = w.host := by
  unfold Importing.cancel Importing.rollback at hnext
  grind -ring -linarith

theorem Importing.next_source [DecidableEq Content] {a : ImportAction Content} (hne : source ≠ target)
    (hstaging : source ≠ .importing target) (hok : importable session target w a = true) (ha : ∀ host, a ≠ .others host)
    (hnext : w.next prepare source session target fresh me serial a = some w') :
    w'.host.files.get? source = w.host.files.get? source := by
  cases a with
  | resume answer => rw [resume_host hnext]
  | cancel => rw [cancel_host hnext]
  | create o =>
      obtain ⟨⟨host, create⟩, hwork, rfl⟩ := Option.map_eq_some_iff.mp hnext
      rcases Job.work_cases hwork with ⟨_, rfl, _⟩ | ⟨_, _, _, hstage, _⟩ | ⟨_, _, _, hstage, _⟩
      · rfl
      all_goals cases o <;> cases hstage <;> rfl
  | copy o written =>
      obtain ⟨⟨⟨host, seen⟩, copy⟩, hwork, rfl⟩ := Option.map_eq_some_iff.mp hnext
      rcases Job.work_cases hwork with ⟨_, heq, _⟩ | ⟨_, _, _, hstage, _⟩ | ⟨_, _, _, hstage, _⟩
      · cases heq
        rfl
      all_goals exact copyStage_source hstage hne hstaging
  | bind o =>
      obtain ⟨⟨host, bind⟩, hwork, rfl⟩ := Option.map_eq_some_iff.mp hnext
      have hfiles : ∀ {next : Unit ⊕ Bool}, bindStage session target w.host () o = some (host, next) →
          host.files.get? source = w.host.files.get? source := fun hstage => by
        cases o <;> simp only [bindStage, reduceCtorEq] at hstage
        · split at hstage
          · cases hstage
            rfl
          · rename_i bound hbind
            cases hstage
            obtain ⟨current, _, rfl⟩ := bindArchive_some hbind
            rfl
        · cases hstage
          rfl
      rcases Job.work_cases hwork with ⟨_, rfl, _⟩ | ⟨_, _, _, hstage, _⟩ | ⟨_, _, _, hstage, _⟩
      · rfl
      all_goals exact hfiles hstage
  | ensure o =>
      obtain ⟨⟨host, ensure⟩, hwork, rfl⟩ := Option.map_eq_some_iff.mp hnext
      simp only [importable, decide_eq_true_eq] at hok
      have hkept : ∀ stage, w.ensure = .running stage → ∀ epoch runtime archive,
          stage = .building epoch runtime (.retiring archive) → o ≠ .returns := by
        rintro _ hr epoch runtime archive rfl
        exact hok.2 (by simp [Importing.retires, hr])
      rcases Job.work_cases hwork with ⟨_, rfl, _⟩ | ⟨stage, _, hr, hstage, _⟩ | ⟨stage, _, hr, hstage, _⟩
      · rfl
      all_goals exact congrArg (fun files => files.get? source) (ensureStage_cases hstage (hkept stage hr)).1
  | unlink o =>
      obtain ⟨⟨host, unlink⟩, hwork, rfl⟩ := Option.map_eq_some_iff.mp hnext
      rcases Job.work_cases hwork with ⟨_, rfl, _⟩ | ⟨_, _, _, hstage, _⟩ | ⟨_, _, _, hstage, _⟩
      · rfl
      · cases o <;> cases hstage
      · cases o <;> cases hstage
        · exact Dict.get?_erase_ne _ hne
        · rfl
  | delete o =>
      obtain ⟨⟨host, delete⟩, hwork, rfl⟩ := Option.map_eq_some_iff.mp hnext
      rcases Job.work_cases hwork with ⟨_, rfl, _⟩ | ⟨_, _, _, hstage, _⟩ | ⟨_, _, _, hstage, _⟩
      · rfl
      all_goals cases o <;> cases hstage <;> rfl
  | others host => exact absurd rfl (ha host)

end Import

-- An import ends with a session bound to a complete copy or with nothing, and no step of it touches the source.
def ImportsCleanly [DecidableEq Content] (prepare : Content → Option Content) (source : FileName) (session : SessionId)
    (target fresh : FileName) (me : CallId) (serial : Nat) (w : Importing Content) : Prop :=
  (w.Over → w.Complete prepare session target ∨ w.Vacant session target) ∧
    ∀ a w', importable session target w a = true → (∀ host, a ≠ .others host) →
      w.next prepare source session target fresh me serial a = some w' →
      w'.host.files.get? source = w.host.files.get? source

-- A request leaves nothing half done when it is refused only where it answers that, is not cancelled between a call's
-- effect and its answer, and what undoes its effects works.
theorem transfers_clean [DecidableEq Content] (prepare : Content → Option Content) (source target fresh archive log : FileName)
    (session : SessionId) (me : CallId) (serial : Nat) (runtime : RuntimeId) (host : Host Content) :
    (Unused source session target host → ∀ w : Importing Content,
      ((importMachine prepare source session target fresh me serial host).restrict
        fun w a => importable session target w a).Reachable w →
      ImportsCleanly prepare source session target fresh me serial w) ∧
    ∀ w : Restoring Content,
      ((restoreMachine session archive log runtime host).restrict fun w a => restorable session w a).Reachable w →
      w.Over → w.Clean session := by
  refine ⟨fun hunused w hw => ⟨(reachable_tidy hunused hw).over, fun a w' hok ha hnext => ?_⟩, fun w hw => (reachable_kept hw).clean⟩
  exact Importing.next_source hunused.listed.1 hunused.listed.2.1 hok ha hnext

-- The state of a small installation: one archive, one session with a runtime.
def smallHost (co : SessionCoordinator) : Host String where
  co := { co with runtimes := .ofList [("s", .built 0)] }
  rows := .ofList [("s", none)]
  files := .ofList [(.log "a", "turns")]

def importedRun : List (ImportAction String) :=
  [ImportAction.resume .returns, .resume .returns, .resume .returns] ++ List.replicate 2 (ImportAction.create .returns) ++
    [ImportAction.resume .returns] ++ List.replicate 6 (ImportAction.copy .returns none) ++
    [ImportAction.resume .returns] ++ List.replicate 2 (ImportAction.bind .returns) ++
    [ImportAction.resume .returns] ++ List.replicate 10 (ImportAction.ensure .returns) ++ [ImportAction.resume .returns]

def builtRun : List RestoreAction :=
  [RestoreAction.resume .returns, .resume .returns] ++ List.replicate 5 (RestoreAction.factory .returns) ++
    [RestoreAction.resume .returns] ++ List.replicate 2 (RestoreAction.replace .returns) ++ [RestoreAction.resume .returns]

-- An import that succeeds, and a restore refused because the session is being released.
theorem transfers_clean_small :
    (∃ w : Importing String,
      (importMachine some (.log "a") "n" (.log "b") (.log "c") 0 1 (smallHost { capacity := 1, abortTimeout := 30 })).run
        { host := smallHost { capacity := 1, abortTimeout := 30 } } importedRun = some w ∧ w.pc = .answered 200 ∧
        w.Complete some "n" (.log "b")) ∧
    ∃ w : Restoring String,
      (restoreMachine "s" (.log "a") (.log "c") (.prepared 0) (smallHost
        { capacity := 1, abortTimeout := 30, exclusiveControls := .ofList [("s", "release")] })).Reachable w ∧
        w.pc = .answered 409 ∧ w.swapped = false ∧ w.host.co.runtimes.get? "s" = w.standing ∧ w.shutdown = .ended true := by
  constructor
  · have hrun : (((importMachine some (.log "a") "n" (.log "b") (.log "c") 0 1
        (smallHost { capacity := 1, abortTimeout := 30 })).restrict fun w a => importable "n" (.log "b") w a).run
        { host := smallHost { capacity := 1, abortTimeout := 30 } } importedRun).map (fun w =>
        (w.pc, w.copy.settled && w.bind.settled && w.ensure.settled && w.unlink.settled && w.delete.settled && w.create.settled,
          w.host.rows.get? "n")) = some (.answered 200, true, some (some (.log "b"))) := by decide
    obtain ⟨w, hrun, hfacts⟩ := Option.map_eq_some_iff.mp hrun
    obtain ⟨hpc, hrest⟩ := Prod.mk.inj hfacts
    obtain ⟨hsettled, hrow⟩ := Prod.mk.inj hrest
    simp only [Bool.and_eq_true] at hsettled
    obtain ⟨⟨⟨⟨⟨hcopy, hbind⟩, hensure⟩, hunlink⟩, hdelete⟩, hcreate⟩ := hsettled
    have hunused : Unused (.log "a") "n" (.log "b") (smallHost { capacity := 1, abortTimeout := 30 }) := by
      constructor <;> decide
    have hclean := (transfers_clean some (.log "a") (.log "b") (.log "c") (.log "a") (.log "c") "n" 0 1 (.prepared 0)
      (smallHost { capacity := 1, abortTimeout := 30 })).1 hunused w ⟨importedRun, hrun⟩
    refine ⟨w, Machine.run_of_restrict hrun, hpc, ?_⟩
    refine (hclean.1 ⟨.inr (.inr ⟨200, hpc⟩), hcreate, hcopy, hbind, hensure, hunlink, hdelete⟩).resolve_right fun hvacant => ?_
    rw [hvacant.1] at hrow
    cases hrow
  · have hrun : (((restoreMachine "s" (.log "a") (.log "c") (.prepared 0) (smallHost
        { capacity := 1, abortTimeout := 30, exclusiveControls := .ofList [("s", "release")] })).restrict
        fun w a => restorable "s" w a).run
        { host := smallHost { capacity := 1, abortTimeout := 30, exclusiveControls := .ofList [("s", "release")] }
          standing := some (.built 0) }
        (builtRun ++ [.shutdown .returns, .shutdown .returns, .resume .returns])).map (fun w =>
        (w.pc, w.factory, w.replace.settled, w.shutdown.settled, w.swapped)) =
        some (.answered 409, .ended true, true, true, false) := by decide
    obtain ⟨w, hrun, hfacts⟩ := Option.map_eq_some_iff.mp hrun
    simp only [Prod.mk.injEq] at hfacts
    obtain ⟨hpc, hfactory, hreplace, hshutdown, hswapped⟩ := hfacts
    have hreach : ((restoreMachine "s" (.log "a") (.log "c") (.prepared 0) (smallHost
        { capacity := 1, abortTimeout := 30, exclusiveControls := .ofList [("s", "release")] })).restrict
        fun w a => restorable "s" w a).Reachable w := ⟨_, hrun⟩
    obtain ⟨hstanding, hdisposed⟩ := ((transfers_clean some (.log "a") (.log "b") (.log "c") (.log "a") (.log "c") "s" 0 1
      (.prepared 0) _).2 w hreach ⟨.inr (.inr ⟨409, hpc⟩), by simp [hfactory, Job.settled], hreplace, hshutdown⟩).resolve_left
      (by simp [hswapped])
    exact ⟨w, hreach.of_restrict, hpc, hswapped, hstanding, hdisposed hfactory⟩

-- The session runs when its archive is to be restored: nobody disposes of the fresh runtime.
theorem restore_leaks_runtime : ¬ ∀ (host : Host String) (w : Restoring String),
    (restoreMachine "s" (.log "a") (.log "c") (.prepared 0) host).Reachable w → w.Over → w.Clean "s" := by
  intro h
  have hrun : ((restoreMachine "s" (.log "a") (.log "c") (.prepared 0) (smallHost
      { capacity := 1, abortTimeout := 30
        activeBySession := .ofList [("s", { sessionId := "s", status := .running, runId := some 0 })] })).run
      { host := smallHost { capacity := 1, abortTimeout := 30
                            activeBySession := .ofList [("s", { sessionId := "s", status := .running, runId := some 0 })] }
        standing := some (.built 0) } builtRun).map (fun w => (w.pc, w.factory, w.replace.settled, w.shutdown, w.swapped)) =
      some (.raised, .ended true, true, .idle, false) := by decide
  obtain ⟨w, hrun, hfacts⟩ := Option.map_eq_some_iff.mp hrun
  simp only [Prod.mk.injEq] at hfacts
  obtain ⟨hpc, hfactory, hreplace, hshutdown, hswapped⟩ := hfacts
  rcases h _ w ⟨builtRun, hrun⟩ ⟨.inl hpc, by simp [hfactory, Job.settled], hreplace, by simp [hshutdown, Job.settled]⟩ with
    hclean | ⟨_, hclean⟩
  · rw [hswapped] at hclean
    cases hclean
  · cases hshutdown.symm.trans (hclean hfactory)

end GaHub.Transfer
