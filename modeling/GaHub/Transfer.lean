import GaHub.Sessions.Calls
import GaHub.Lib.Job

namespace GaHub.Transfer

open Lib Sessions

-- The files of an archive directory: GA's logs, which the catalogue's glob picks
-- up, the staging file of a copy, and the backup of a log GA could not read.
inductive FileName where
  | log (name : String)
  | importing (target : FileName)
  | broken (archive : FileName)
  deriving DecidableEq

-- The coordinator, the `archive_path` of every session row, and the files.
structure Host (Content : Type) where
  co : SessionCoordinator
  rows : Dict SessionId (Option FileName) := .empty
  files : Dict FileName Content := .empty

variable {Content : Type}

namespace Host

variable (host : Host Content) (session : SessionId)

-- `SessionMetadataStore.create`
def create : Host Content := { host with rows := host.rows.set session none }

-- `bind_archive`; `none` is `SessionNotFoundError`, or the `ValueError` of a row bound elsewhere.
def bindArchive (path : FileName) : Option (Host Content) :=
  match host.rows.get? session with
  | none => none
  | some current =>
      if current = none ∨ current = some path then some { host with rows := host.rows.set session (some path) }
      else none

-- `rotate_archive`
def rotateArchive (path : FileName) : Option (Host Content) :=
  match host.rows.get? session with
  | none => none
  | some _ => some { host with rows := host.rows.set session (some path) }

-- `SessionMetadataStore.delete`; a `KeyError` leaves the rows as they are.
def deleteRow : Host Content := { host with rows := host.rows.erase session }

def writeFile (name : FileName) (content : Content) : Host Content :=
  { host with files := host.files.set name content }

-- `unlink(missing_ok=True)`
def unlink (name : FileName) : Host Content := { host with files := host.files.erase name }

-- `os.replace`; `none` is `FileNotFoundError`.
def replace (source target : FileName) : Option (Host Content) :=
  (host.files.get? source).map fun content => (host.unlink source).writeFile target content

-- `find_by_archive`
def findByArchive (path : FileName) : Option SessionId :=
  (host.rows.entries.find? fun row => decide (row.2 = some path)).map Prod.fst

-- A title-only row is no binding.
def boundSessionId (path : FileName) : Option SessionId :=
  (host.findByArchive path).filter fun session => !("archive-".toList.isPrefixOf session.toList)

end Host

-- How a call that leaves the process, or GA, answers.
inductive Outcome where
  | returns
  | raises
  -- `continue_inplace` did not load the archive, for its content or for its lock
  | declines (unreadable : Bool)
  -- the lock belonged to a dead process and is gone
  | takesOver
  deriving DecidableEq

-- Where a call of the runtime factory stands.
inductive FactoryStage where
  | reading
  | serving (archive : Option FileName)
  | opening (archive : FileName) (retried : Bool)
  -- `_rotate_unreadable_archive`: the fresh session, the backup, the row
  | beginning (archive : FileName)
  | retiring (archive : FileName)
  | rotating
  | locking
  | binding
  | finishing
  deriving DecidableEq

section Factory

variable (override : Option FileName) (fresh : FileName) (session : SessionId)

-- `SessionRuntimeFactory.__call__`; `true` is a runtime, `false` an exception, and
-- `fresh` the log of the agent.
def factoryStage (host : Host Content) : FactoryStage → Outcome → Option (Host Content × (FactoryStage ⊕ Bool))
  | .reading, .returns =>
      match host.rows.get? session with
      | none => some (host, .inr false)
      | some archive => some (host, .inl (.serving (if override.isSome then override else archive)))
  | .serving (some archive), .returns => some (host, .inl (.opening archive false))
  | .serving none, .returns => some (host, .inl .locking)
  | .opening _ _, .returns => some (host, .inl .finishing)
  | .opening archive false, .takesOver => some (host, .inl (.opening archive true))
  | .opening archive _, .declines unreadable =>
      if unreadable ∧ override = none then some (host, .inl (.beginning archive)) else some (host, .inr false)
  | .beginning archive, .returns => some (host, .inl (.retiring archive))
  | .retiring archive, .returns => (host.replace archive (.broken archive)).map fun host => (host, .inl .rotating)
  -- the `OSError` is logged
  | .retiring _, .raises => some (host, .inl .rotating)
  | .rotating, .returns =>
      match host.rotateArchive session fresh with
      | none => some (host, .inr false)
      | some host => some (host, .inl .finishing)
  | .locking, .returns => some (host, .inl .binding)
  | .binding, .returns =>
      match host.bindArchive session fresh with
      | none => some (host, .inr false)
      | some host => some (host, .inl .finishing)
  -- the rewind store, the project and the run thread
  | .finishing, .returns => some (host, .inr true)
  | _, .raises => some (host, .inr false)
  | _, _ => none

-- The factory writes no row but the session's, which it does not create, and
-- moves no file but an archive it could not read.
theorem factoryStage_cases {host host' : Host Content} {stage : FactoryStage} {o : Outcome}
    {next : FactoryStage ⊕ Bool} (h : factoryStage override fresh session host stage o = some (host', next)) :
    host' = host ∨
    (∃ archive, stage = .retiring archive ∧ o = .returns ∧ host.replace archive (.broken archive) = some host') ∨
    (∃ row archive, host.rows.get? session = some row ∧ host' = { host with rows := host.rows.set session archive }) := by
  unfold factoryStage at h
  split at h
  case h_1 | h_2 | h_3 | h_4 | h_5 | h_6 | h_7 | h_9 | h_11 | h_13 | h_14 | h_15 =>
    refine .inl ?_
    grind -ring -linarith
  case h_8 archive =>
    obtain ⟨moved, hmoved, heq⟩ := Option.map_eq_some_iff.mp h
    cases heq
    exact .inr (.inl ⟨archive, rfl, rfl, hmoved⟩)
  case h_10 =>
    unfold Host.rotateArchive at h
    cases hrow : host.rows.get? session with
    | none =>
        simp only [hrow] at h
        cases h
        exact .inl rfl
    | some row =>
        simp only [hrow] at h
        cases h
        exact .inr (.inr ⟨row, _, rfl, rfl⟩)
  case h_12 =>
    unfold Host.bindArchive at h
    cases hrow : host.rows.get? session with
    | none =>
        simp only [hrow] at h
        cases h
        exact .inl rfl
    | some row =>
        simp only [hrow] at h
        by_cases hfree : row = none ∨ row = some fresh
        · simp only [if_pos hfree] at h
          cases h
          exact .inr (.inr ⟨row, _, rfl, rfl⟩)
        · simp only [if_neg hfree] at h
          cases h
          exact .inl rfl

end Factory

end GaHub.Transfer
