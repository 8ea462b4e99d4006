import Mathlib.Data.List.Basic
import Mathlib.Tactic.Common

namespace GaHub.Desktop.Sweep

-- Times and durations in nanoseconds.
abbrev SystemTime := Int

def STALE_AFTER : Int := 30 * 60 * 1000000000

-- What stands in a directory. The entries of an unreadable directory, and the metadata of an entry
-- that has none, are missing.
inductive Node where
  | file (name : String) (len : Nat)
  | dir (name : String) (entries : Option (List Node))
  | unknown (name : String)

def Node.name : Node → String
  | .file name _ | .dir name _ | .unknown name => name

-- An entry of the temporary directory: `entries` is its content where it is a directory that can be read.
structure Entry (Path : Type) where
  path : Path
  name : String
  isDir : Bool
  entries : Option (List Node)
  created : Option SystemTime

-- What the sweep meets: the listing of `%TEMP%`, the answers of the liveness probe when it is asked
-- first and when it is asked again, and the directories that `remove_dir_all` can remove.
structure World (Path : Type) where
  entries : Option (List (Entry Path))
  probe : List Path × Bool
  recheck : List Path × Bool
  removable : Path → Bool

structure Candidate (Path : Type) where
  path : Path
  name : String
  created : Option SystemTime
  entries : List Node

structure MeiSweepReport where
  removed : List String := []
  reclaimedBytes : Nat := 0
  skippedLive : Nat := 0
  skippedRecent : Nat := 0
  skippedForeign : Nat := 0
  skippedUnreadable : Nat := 0
  failed : Nat := 0
  dryRun : Bool := false
  wouldReclaimBytes : Nat := 0
  scanComplete : Bool := false
  deriving DecidableEq

inductive LogLine (Path : Type) where
  | summary (report : MeiSweepReport)
  | refused (kept : Nat)
  | recheckRefused (kept : Nat)
  | wouldRemove (path : Path) (size : Nat)
  | couldNotRemove (path : Path)

-- What a sweep did: its report and its log, the probes it ran (whether each was complete), and the
-- directories that are gone.
structure Outcome (Path : Type) where
  report : MeiSweepReport
  log : List (LogLine Path) := []
  probes : List Bool := []
  gone : List Path := []

section Functions

def startsWith (name head : String) : Bool := head.toList.isPrefixOf name.toList

def endsWith (name tail : String) : Bool := tail.toList.isSuffixOf name.toList

def carriesOurFingerprint (topLevel : List String) : Bool :=
  topLevel.any fun name => name == "generic_agent_admin.egg-info" ||
    (startsWith name "generic_agent_admin-" && endsWith name ".dist-info")

mutual

def Node.size : Node → Nat
  | .file _ len => len
  | .dir _ none => 0
  | .dir _ (some entries) => directorySize entries
  | .unknown _ => 0

def directorySize : List Node → Nat
  | [] => 0
  | entry :: entries => entry.size + directorySize entries

end

variable {Path : Type} [DecidableEq Path]

def isStale (candidate : Candidate Path) (now : SystemTime) : Bool :=
  candidate.created.any fun created => decide (created ≤ now) && decide (STALE_AFTER ≤ now - created)

def collectEntry (state : List (Candidate Path) × MeiSweepReport) (entry : Entry Path) :
    List (Candidate Path) × MeiSweepReport :=
  let (candidates, report) := state
  if !startsWith entry.name "_MEI" then state
  else if !entry.isDir then state
  else
    match entry.entries with
    | none => (candidates, { report with skippedUnreadable := report.skippedUnreadable + 1 })
    | some nodes =>
      if !carriesOurFingerprint (nodes.map Node.name) then
        (candidates, { report with skippedForeign := report.skippedForeign + 1 })
      else
        (candidates ++ [{ path := entry.path, name := entry.name, created := entry.created, entries := nodes }], report)

def collectCandidates (entries : Option (List (Entry Path))) (report : MeiSweepReport) :
    List (Candidate Path) × MeiSweepReport :=
  match entries with
  | none => ([], report)
  | some entries => entries.foldl collectEntry ([], report)

def doomEntry (live : List Path) (now : SystemTime) (state : List (Candidate Path) × MeiSweepReport)
    (candidate : Candidate Path) : List (Candidate Path) × MeiSweepReport :=
  let (doomed, report) := state
  if live.contains candidate.path then (doomed, { report with skippedLive := report.skippedLive + 1 })
  else if !isStale candidate now then (doomed, { report with skippedRecent := report.skippedRecent + 1 })
  else (doomed ++ [candidate], report)

def removeEntry (removable : Path → Bool) (dryRun : Bool) (s : Outcome Path) (candidate : Candidate Path) : Outcome Path :=
  let size := directorySize candidate.entries
  if dryRun then
    { s with
      report := { s.report with
        wouldReclaimBytes := s.report.wouldReclaimBytes + size, removed := s.report.removed ++ [candidate.name] }
      log := s.log ++ [.wouldRemove candidate.path size] }
  else if removable candidate.path then
    { s with
      report := { s.report with
        reclaimedBytes := s.report.reclaimedBytes + size, removed := s.report.removed ++ [candidate.name] }
      gone := s.gone ++ [candidate.path] }
  else
    { s with
      report := { s.report with failed := s.report.failed + 1 }
      log := s.log ++ [.couldNotRemove candidate.path] }

-- The second probe, asked where something is to be removed. An incomplete answer is logged, and the
-- list is left as it is.
def recheckDoomed (answer : List Path × Bool) (doomed : List (Candidate Path)) (s : Outcome Path) :
    List (Candidate Path) × Outcome Path :=
  let (liveNow, completeNow) := answer
  if doomed.isEmpty then (doomed, s)
  else if !completeNow then
    (doomed, { s with
      report := { s.report with scanComplete := false }
      log := s.log ++ [.recheckRefused doomed.length]
      probes := s.probes ++ [completeNow] })
  else
    let kept := doomed.filter fun candidate => liveNow.contains candidate.path
    (doomed.filter fun candidate => !liveNow.contains candidate.path, { s with
      report := { s.report with skippedLive := s.report.skippedLive + kept.length }
      probes := s.probes ++ [completeNow] })

def sweepDir (world : World Path) (now : SystemTime) (dryRun : Bool) : Outcome Path :=
  let (candidates, report) := collectCandidates world.entries { dryRun := dryRun }
  if candidates.isEmpty then
    let report := { report with scanComplete := true }
    { report := report, log := [.summary report] }
  else
    let (live, complete) := world.probe
    if !complete then
      { report := { report with scanComplete := false }, log := [.refused candidates.length], probes := [complete] }
    else
      let report := { report with scanComplete := true }
      let (doomed, report) := candidates.foldl (doomEntry live now) ([], report)
      let (doomed, s) := recheckDoomed world.recheck doomed { report := report, probes := [complete] }
      let s := doomed.foldl (removeEntry world.removable dryRun) s
      { s with log := s.log ++ [.summary s.report] }

end Functions

-- The gates that a directory has passed: it may be removed.
structure Proved {Path : Type} (world : World Path) (now : SystemTime) (dryRun : Bool) (path : Path) : Prop where
  wet : dryRun = false
  listed : ∃ entry ∈ world.entries.getD [], entry.path = path ∧ entry.isDir ∧ startsWith entry.name "_MEI" ∧
    (∃ nodes, entry.entries = some nodes ∧ carriesOurFingerprint (nodes.map Node.name)) ∧
    ∃ created, entry.created = some created ∧ created ≤ now ∧ STALE_AFTER ≤ now - created
  complete : world.probe.2 ∧ world.recheck.2
  dead : path ∉ world.probe.1 ∧ path ∉ world.recheck.1

-- Only directories that may be removed are gone; after an incomplete probe none is, and the report says so.
structure Safe {Path : Type} (world : World Path) (now : SystemTime) (dryRun : Bool) (s : Outcome Path) : Prop where
  proved : ∀ path ∈ s.gone, Proved world now dryRun path
  incomplete : ∀ complete ∈ s.probes, complete = false → s.report.scanComplete = false ∧ s.gone = []

-- A directory that the first pass chooses and that can be removed.
def Chosen {Path : Type} [DecidableEq Path] (world : World Path) (now : SystemTime) : Prop :=
  ∃ candidate ∈ (collectCandidates world.entries {}).1,
    candidate.path ∉ world.probe.1 ∧ isStale candidate now ∧ world.removable candidate.path

section Passes

variable {Path : Type} {world : World Path} {now : SystemTime} {dryRun : Bool}

def Entry.candidate (entry : Entry Path) : Option (Candidate Path) :=
  match entry.entries with
  | none => none
  | some nodes =>
    if startsWith entry.name "_MEI" && entry.isDir && carriesOurFingerprint (nodes.map Node.name) then
      some { path := entry.path, name := entry.name, created := entry.created, entries := nodes }
    else none

theorem collect_fst (entries : List (Entry Path)) (state : List (Candidate Path) × MeiSweepReport) :
    (entries.foldl collectEntry state).1 = state.1 ++ entries.filterMap Entry.candidate := by
  induction entries generalizing state with
  | nil => simp
  | cons entry entries ih =>
    have hone : (collectEntry state entry).1 = state.1 ++ entry.candidate.toList := by
      unfold collectEntry Entry.candidate
      cases startsWith entry.name "_MEI" <;> cases entry.isDir <;> cases entry.entries <;> simp
      split <;> simp_all
    rw [List.foldl_cons, ih, hone, List.filterMap_cons]
    cases entry.candidate <;> simp

theorem collectCandidates_fst (entries : Option (List (Entry Path))) (report : MeiSweepReport) :
    (collectCandidates entries report).1 = (entries.getD []).filterMap Entry.candidate := by
  cases entries with
  | none => rfl
  | some entries => exact (collect_fst entries _).trans (List.nil_append _)

theorem remove_spec (removable : Path → Bool) (dryRun : Bool) (doomed : List (Candidate Path)) (s : Outcome Path) :
    (doomed.foldl (removeEntry removable dryRun) s).gone =
        s.gone ++ (if dryRun then [] else (doomed.filter fun c => removable c.path).map Candidate.path) ∧
      (doomed.foldl (removeEntry removable dryRun) s).probes = s.probes ∧
      (doomed.foldl (removeEntry removable dryRun) s).report.scanComplete = s.report.scanComplete := by
  induction doomed generalizing s with
  | nil => simp
  | cons candidate doomed ih =>
    obtain ⟨hgone, hprobes, hscan⟩ := ih (removeEntry removable dryRun s candidate)
    rw [List.foldl_cons, hgone, hprobes, hscan, List.filter_cons]
    unfold removeEntry
    cases dryRun <;> cases hremovable : removable candidate.path <;> simp

theorem candidate_listed {candidate : Candidate Path} (h : candidate ∈ (world.entries.getD []).filterMap Entry.candidate)
    (hstale : isStale candidate now) :
    ∃ entry ∈ world.entries.getD [], entry.path = candidate.path ∧ entry.isDir ∧ startsWith entry.name "_MEI" ∧
      (∃ nodes, entry.entries = some nodes ∧ carriesOurFingerprint (nodes.map Node.name)) ∧
      ∃ created, entry.created = some created ∧ created ≤ now ∧ STALE_AFTER ≤ now - created := by
  obtain ⟨entry, hentry, hcandidate⟩ := List.mem_filterMap.mp h
  unfold Entry.candidate at hcandidate
  split at hcandidate
  · cases hcandidate
  next nodes hnodes =>
    obtain ⟨hgates, hcandidate⟩ := Option.ite_none_right_eq_some.mp hcandidate
    cases hcandidate
    simp only [Bool.and_eq_true] at hgates
    obtain ⟨⟨hname, hdir⟩, hprint⟩ := hgates
    obtain ⟨created, hcreated, hage⟩ : ∃ created, entry.created = some created ∧
        created ≤ now ∧ STALE_AFTER ≤ now - created := by
      unfold isStale at hstale
      cases hcreated : entry.created with
      | none => simp [hcreated] at hstale
      | some created => exact ⟨created, rfl, by simpa [hcreated] using hstale⟩
    exact ⟨entry, hentry, rfl, hdir, hname, ⟨nodes, hnodes, hprint⟩, created, hcreated, hage⟩

variable [DecidableEq Path]

theorem doom_fst (live : List Path) (candidates : List (Candidate Path))
    (state : List (Candidate Path) × MeiSweepReport) : (candidates.foldl (doomEntry live now) state).1 =
      state.1 ++ candidates.filter fun c => !live.contains c.path && isStale c now := by
  induction candidates generalizing state with
  | nil => simp
  | cons candidate candidates ih =>
    rw [List.foldl_cons, ih, List.filter_cons]
    unfold doomEntry
    cases hlive : live.contains candidate.path <;> cases hstale : isStale candidate now <;> simp

def firstPass (world : World Path) (now : SystemTime) : List (Candidate Path) :=
  ((world.entries.getD []).filterMap Entry.candidate).filter fun c => !world.probe.1.contains c.path && isStale c now

theorem sweepDir_cases (world : World Path) (now : SystemTime) (dryRun : Bool) :
    (firstPass world now = [] ∧ (sweepDir world now dryRun).gone = [] ∧ (sweepDir world now dryRun).probes = []) ∨
    (world.probe.2 = false ∧ (sweepDir world now dryRun).gone = [] ∧
      (sweepDir world now dryRun).report.scanComplete = false) ∨
    (world.probe.2 = true ∧ firstPass world now = [] ∧ (sweepDir world now dryRun).gone = [] ∧
      (sweepDir world now dryRun).probes = [true]) ∨
    (world.probe.2 = true ∧ firstPass world now ≠ [] ∧ (sweepDir world now dryRun).probes = [true, world.recheck.2] ∧
      (world.recheck.2 = false → (sweepDir world now dryRun).report.scanComplete = false) ∧
      (sweepDir world now dryRun).gone = if dryRun then [] else
        (((firstPass world now).filter fun c => !(world.recheck.2 && world.recheck.1.contains c.path)).filter
          fun c => world.removable c.path).map Candidate.path) := by
  have hcandidates := collectCandidates_fst world.entries { dryRun := dryRun }
  rcases hcollect : collectCandidates world.entries { dryRun := dryRun } with ⟨candidates, report⟩
  rcases hprobe : world.probe with ⟨live, complete⟩
  rcases hrecheck : world.recheck with ⟨liveNow, completeNow⟩
  simp only [hcollect] at hcandidates
  unfold sweepDir
  simp only [hcollect, hprobe, hrecheck]
  split
  next hnone =>
    left
    rw [List.isEmpty_iff.mp hnone] at hcandidates
    exact ⟨by rw [firstPass, ← hcandidates]; rfl, rfl, rfl⟩
  cases complete with
  | false => exact .inr (.inl ⟨rfl, rfl, rfl⟩)
  | true =>
    right
    right
    simp only [Bool.not_true, Bool.false_eq_true, if_false, true_and]
    have hfirst : _ = [] ++ _ := @doom_fst Path now _ live candidates ([], { report with scanComplete := true })
    have hpass : firstPass world now = candidates.filter fun c => !live.contains c.path && isStale c now := by
      rw [firstPass, hprobe, hcandidates]
    rw [List.nil_append, ← hpass] at hfirst
    rcases hdoom : candidates.foldl (doomEntry live now) ([], { report with scanComplete := true }) with ⟨doomed, report'⟩
    simp only [hdoom] at hfirst
    subst hfirst
    by_cases hempty : firstPass world now = []
    · left
      simp [recheckDoomed, hempty]
    · right
      refine ⟨hempty, ?_⟩
      have hnonempty : (firstPass world now).isEmpty = false := by simpa using hempty
      cases completeNow with
      | false =>
        simp only [recheckDoomed, hnonempty, Bool.false_eq_true, if_false, Bool.not_false, if_true]
        obtain ⟨hgone, hprobes, hscan⟩ := remove_spec world.removable dryRun (firstPass world now)
          { report := { report' with scanComplete := false }, log := [.recheckRefused (firstPass world now).length],
            probes := [true, false] }
        refine ⟨hprobes, fun _ => hscan, ?_⟩
        simpa using hgone
      | true =>
        simp only [recheckDoomed, hnonempty, Bool.false_eq_true, if_false, Bool.not_true]
        obtain ⟨hgone, hprobes, -⟩ := remove_spec world.removable dryRun
          ((firstPass world now).filter fun c => !liveNow.contains c.path)
          { report := { report' with skippedLive := report'.skippedLive +
              ((firstPass world now).filter fun c => liveNow.contains c.path).length }, probes := [true, true] }
        refine ⟨hprobes, by simp, ?_⟩
        simpa using hgone

theorem mem_firstPass {candidate : Candidate Path} : candidate ∈ firstPass world now ↔
    candidate ∈ (world.entries.getD []).filterMap Entry.candidate ∧ candidate.path ∉ world.probe.1 ∧
      isStale candidate now := by
  simp [firstPass]

theorem chosen_iff : Chosen world now ↔ ∃ candidate ∈ firstPass world now, world.removable candidate.path := by
  unfold Chosen
  rw [collectCandidates_fst]
  constructor
  · rintro ⟨candidate, hmem, hlive, hstale, hremovable⟩
    exact ⟨candidate, mem_firstPass.mpr ⟨hmem, hlive, hstale⟩, hremovable⟩
  · rintro ⟨candidate, hmem, hremovable⟩
    obtain ⟨hmem, hlive, hstale⟩ := mem_firstPass.mp hmem
    exact ⟨candidate, hmem, hlive, hstale, hremovable⟩

-- A sweep is safe but where the second probe is incomplete and the first pass chose a directory that
-- can be removed: that one is removed all the same.
theorem sweepDir_safe_iff (world : World Path) (now : SystemTime) (dryRun : Bool) :
    Safe world now dryRun (sweepDir world now dryRun) ↔
      ¬(dryRun = false ∧ world.probe.2 = true ∧ world.recheck.2 = false ∧ Chosen world now) := by
  rw [chosen_iff]
  obtain ⟨hfirst, hgone, hprobes⟩ | ⟨hprobe, hgone, hscan⟩ | ⟨hprobe, hfirst, hgone, hprobes⟩ |
      ⟨hprobe, hfirst, hprobes, hscan, hgone⟩ := sweepDir_cases world now dryRun
  · exact iff_of_true ⟨by simp [hgone], by simp [hprobes]⟩ (by simp [hfirst])
  · exact iff_of_true ⟨by simp [hgone], fun _ _ _ => ⟨hscan, hgone⟩⟩ (by simp [hprobe])
  · exact iff_of_true ⟨by simp [hgone], by simp [hprobes]⟩ (by simp [hfirst])
  · cases dryRun with
    | true =>
      refine iff_of_true ⟨by simp [hgone], fun complete hmem hfalse => ?_⟩ (by simp)
      refine ⟨hscan ?_, by simp [hgone]⟩
      subst hfalse
      rw [hprobes] at hmem
      simpa using hmem
    | false =>
      simp only [Bool.false_eq_true, if_false] at hgone
      cases hrecheck : world.recheck.2 with
      | true =>
        refine iff_of_true ⟨fun path hpath => ?_, by simp [hprobes, hrecheck]⟩ (by simp)
        -- both probes were complete: what is left has passed every gate
        rw [hgone] at hpath
        obtain ⟨candidate, hmem, rfl⟩ := List.mem_map.mp hpath
        simp only [hrecheck, Bool.true_and, List.mem_filter, Bool.not_eq_true', List.contains_eq_mem,
          decide_eq_false_iff_not] at hmem
        obtain ⟨⟨hpass, hnow⟩, -⟩ := hmem
        obtain ⟨hcandidate, hlive, hstale⟩ := mem_firstPass.mp hpass
        exact ⟨rfl, candidate_listed hcandidate hstale, ⟨hprobe, hrecheck⟩, hlive, hnow⟩
      | false =>
        have hgone' : (sweepDir world now false).gone =
            ((firstPass world now).filter fun c => world.removable c.path).map Candidate.path := by
          simpa [hrecheck] using hgone
        have hnone : (sweepDir world now false).gone = [] ↔
            ¬∃ candidate ∈ firstPass world now, world.removable candidate.path := by
          rw [hgone', List.map_eq_nil_iff, List.filter_eq_nil_iff]
          simp
        constructor
        · intro hsafe hall
          exact hnone.mp (hsafe.incomplete false (by simp [hprobes, hrecheck]) rfl).2 hall.2.2.2
        · intro hnot
          have hempty := hnone.mpr fun hchosen => hnot ⟨rfl, hprobe, rfl, hchosen⟩
          exact ⟨by simp [hempty], fun _ _ _ => ⟨hscan hrecheck, hempty⟩⟩

end Passes

-- A bundle of the hub that was unpacked an hour ago; the first probe is complete and finds nothing, the
-- second breaks off.
def bundle : Entry String where
  path := "_MEI42"
  name := "_MEI42"
  isDir := true
  entries := some [.dir "generic_agent_admin.egg-info" none]
  created := some 0

def leftBehind : World String where
  entries := some [bundle]
  probe := ([], true)
  recheck := ([], false)
  removable := fun _ => true

theorem second_probe_ignored : ¬∀ (world : World String) (now : SystemTime) (dryRun : Bool),
    Safe world now dryRun (sweepDir world now dryRun) := by
  intro h
  have hgone : (sweepDir leftBehind (3600 * 1000000000) false).gone = ["_MEI42"] := by decide
  have hnone := ((h leftBehind (3600 * 1000000000) false).incomplete false (by decide) rfl).2
  rw [hgone] at hnone
  cases hnone

end GaHub.Desktop.Sweep
