import Mathlib.Data.List.Basic

namespace GaHub.Page

-- One row of the activity timeline; the hub stamps no row before the epoch. The kind, the text and the worker only
-- travel along.
structure ActivityEvent where
  id : String
  requestId : String
  atMs : Nat
  deriving DecidableEq

-- A revision that is missing, or that is no integer, is `none`: the store tells them apart nowhere.
structure SnapshotVersion where
  bootId : Option String := none
  snapshotRevision : Option Int := none
  deriving DecidableEq

-- The fields of `useConductorStore` that snapshots and the timeline live in.
structure ConductorState (Subagent : Type) where
  subagents : List Subagent := []
  subagentsRevision : Nat := 0
  engineBootId : Option String := none
  engineSnapshotRevision : Int := -1
  retiredBootIds : List String := []
  activity : List ActivityEvent := []
  deriving DecidableEq

def ACTIVITY_LIMIT : Nat := 4000

-- `null`, `undefined` and the empty string are all falsy.
def truthy : Option String → Bool
  | some b => b != ""
  | none => false

namespace ConductorState

variable {Subagent : Type} (s : ConductorState Subagent)

def applySnapshot (items : List Subagent) (version : SnapshotVersion) : ConductorState Subagent :=
  match version.bootId.filter (· != ""), version.snapshotRevision with
  | none, _ =>
      if truthy s.engineBootId then s
      else { s with subagents := items, subagentsRevision := s.subagentsRevision + 1 }
  | some _, none => s
  | some boot, some revision =>
      if revision < 0 ∨ boot ∈ s.retiredBootIds then s
      else if some boot = s.engineBootId ∧ revision ≤ s.engineSnapshotRevision then s
      else
        { s with
          subagents := items
          subagentsRevision := s.subagentsRevision + 1
          engineBootId := some boot
          engineSnapshotRevision := revision
          retiredBootIds :=
            if truthy s.engineBootId ∧ some boot ≠ s.engineBootId then s.retiredBootIds ++ s.engineBootId.toList
            else s.retiredBootIds }

def replaceSubagents (items : List Subagent) (version : SnapshotVersion) : ConductorState Subagent :=
  s.applySnapshot items version

def hydrateSubagents (items : List Subagent) (expectedRevision : Nat) (version : SnapshotVersion) :
    ConductorState Subagent :=
  if s.subagentsRevision ≠ expectedRevision ∧ version.bootId ≠ s.engineBootId then s
  else if ¬truthy version.bootId ∧ s.subagentsRevision ≠ expectedRevision then s
  else s.applySnapshot items version

-- What `clear()` leaves; chat messages and the chat generation are not part of this model.
def clear : ConductorState Subagent := { subagentsRevision := s.subagentsRevision + 1 }

end ConductorState

end GaHub.Page
