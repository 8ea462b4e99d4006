import Mathlib.Data.List.Dedup
import Mathlib.Data.List.Infix
import Mathlib.Data.List.Perm.Subperm
import Mathlib.Algebra.Order.BigOperators.Group.List
import Mathlib.Algebra.Order.Ring.Nat
import Mathlib.Tactic.Common
import GaHub.Lib.Forest
import GaHub.Lib.Text

namespace GaHub.Citations

open Lib

abbrev Name := List Char

structure Path where
  absolute : Bool
  parts : List Name
  deriving DecidableEq

namespace Path

def join (root path : Path) : Path := if path.absolute then path else ⟨root.absolute, root.parts ++ path.parts⟩

def child (p : Path) (name : Name) : Path := ⟨p.absolute, p.parts ++ [name]⟩

-- `as_posix`
def text (p : Path) : List Char :=
  if p.absolute then '/' :: List.intercalate ['/'] p.parts else List.intercalate ['/'] p.parts

end Path

-- An entry of `os.scandir`. `link` is a symlink, a junction or a reparse point, and `fails` is where the entry's own
-- data cannot be read.
structure Child where
  name : Name
  link : Bool := false
  dir : Bool := false
  fails : Bool := false
  deriving DecidableEq

structure FileSystem where
  exist : Path → Bool
  resolve : Path → Path
  isDir : Path → Bool
  scandir : Path → Option (List Child)
  normcase : List Char → List Char
  resolved : ∀ p, resolve (resolve p) = resolve p
  exist_resolve : ∀ p, exist p → exist (resolve p)
  -- what is listed and no link is there, under its own name
  listed : ∀ d cs c, resolve d = d → scandir d = some cs → c ∈ cs → c.link = false →
    exist (d.child c.name) ∧ resolve (d.child c.name) = d.child c.name
  distinct : ∀ d cs, scandir d = some cs → (cs.map Child.name).Nodup
  -- what is there is told apart by its normalized text
  keyed : ∀ p q, resolve p = p → resolve q = q → exist p → exist q → normcase p.text = normcase q.text → p = q

-- What `resolve` uses of the host.
structure Host where
  fs : FileSystem
  isDigit : Char → Bool
  lower : List Char → List Char
  urlsplit : List Char → Option (List Char × List Char)
  unquote : List Char → List Char
  expanduser : Path → Path
  gaRoot : Option Path
  adminRoot : Path

def PRUNE : List Name :=
  [".git", "node_modules", "__pycache__", ".venv", "venv", ".idea", ".vscode", "binaries", "target", "dist", "build",
    ".cache", "archives"].map String.toList

def MAX_DEPTH : Nat := 4
def MAX_DIRS : Nat := 200
def MAX_ENTRIES : Nat := 5000
def MAX_RESULTS : Nat := 20

def trim (ok : Char → Bool) (s : List Char) : List Char := ((s.dropWhile ok).reverse.dropWhile ok).reverse

section Normalize

variable (host : Host)

def atEnd : List Char → Bool
  | [] => true
  | ['\n'] => true
  | _ => false

-- `:\d+` and what follows it
def number : List Char → Option (List Char)
  | ':' :: rest => if (rest.takeWhile host.isDigit).isEmpty then none else some (rest.dropWhile host.isDigit)
  | _ => none

-- `:\d+(?::\d+)?$` and what follows it
def position (s : List Char) : Option (List Char) :=
  match number host s with
  | none => none
  | some rest =>
    if atEnd rest then some rest
    else match number host rest with
      | some rest' => if atEnd rest' then some rest' else none
      | none => none

def dropPosition (prev : Option Char) : List Char → List Char
  | [] => []
  | c :: rest =>
    match if prev.any (!isSpace ·) then position host (c :: rest) else none with
    | some rest' => rest'
    | none => c :: dropPosition (some c) rest

def dropDot : List Char → List Char
  | '.' :: '/' :: rest => dropDot rest
  | s => s

def isLetter (c : Char) : Bool := ('a' ≤ c ∧ c ≤ 'z') || ('A' ≤ c ∧ c ≤ 'Z')

-- `[a-zA-Z]:/`
def drive : List Char → Bool
  | c :: ':' :: '/' :: _ => isLetter c
  | _ => false

def fromUrl (value : List Char) : Option (List Char) :=
  if (value.take 5).map Char.toLower = "file:".toList then
    (host.urlsplit value).map fun (netloc, path) =>
      (if !netloc.isEmpty && host.lower netloc ≠ "localhost".toList then "//".toList ++ netloc else []) ++
        host.unquote path
  else some value

def normalize (raw : List Char) : List Char :=
  let value := (trim (· = '"') (trim isSpace raw)).map fun c => if c = '\\' then '/' else c
  match fromUrl host (dropPosition host none value) with
  | none => []
  | some value =>
    let value := match value with
      | '/' :: rest => if drive rest then rest else value
      | _ => value
    trim isSpace (dropDot value)

-- `Path(value)`
def pathOf (value : List Char) : Path :=
  ⟨value.head? = some '/', (value.splitOn '/').filter fun part => part ≠ [] && part ≠ ['.']⟩

end Normalize

structure Info where
  raw : List Char
  resolved : Option Path := none
  exist : Bool := false
  isDir : Bool := false
  ambiguous : Bool := false
  candidates : List Path := []
  incomplete : Bool := false
  scope : List Char
  deriving DecidableEq

structure Search where
  dirs : Nat := 0
  entries : Nat := 0
  ticks : Nat := 0
  visited : List (List Char) := []
  hits : List Path := []
  stack : List (Path × Nat)
  incomplete : Bool := false

section Resolve

-- `late` is whether the time is up, by how often it has been looked at.
variable (host : Host) (late : Nat → Bool)

def key (p : Path) : List Char := host.fs.normcase p.text

-- `hits[_key(target)] = target`
def addHit (hits : List Path) (target : Path) : List Path :=
  if hits.any fun p => key host p = key host target then
    hits.map fun p => if key host p = key host target then target else p
  else hits ++ [target]

def tailOf (value : List Char) : List Char := (host.fs.normcase value).map fun c => if c = '\\' then '/' else c

def endsWith (tail : List Char) (item : Path) : Bool :=
  let name := (host.fs.normcase item.text).map fun c => if c = '\\' then '/' else c
  decide (name = tail) || decide ('/' :: tail <:+ name)

def opens (c : Child) : Bool := c.dir && decide (host.lower c.name ∉ PRUNE)

def scan (tail : List Char) (directory : Path) (depth : Nat) : List Child → Search → Search
  | [], s => s
  | c :: children, s =>
    let s := { s with entries := s.entries + 1, ticks := s.ticks + 1 }
    if s.entries > MAX_ENTRIES || late s.ticks then { s with incomplete := true }
    else if c.link then scan tail directory depth children s
    else if c.fails then { s with incomplete := true }
    else
      let item := directory.child c.name
      let found := endsWith host tail item
      let s := if found then { s with hits := addHit host s.hits (host.fs.resolve item) } else s
      if found && s.hits.length ≥ MAX_RESULTS then { s with incomplete := true }
      else
        scan tail directory depth children
          (if opens host c && depth < MAX_DEPTH then { s with stack := (item, depth + 1) :: s.stack } else s)

theorem scan_dirs (tail : List Char) (directory : Path) (depth : Nat) (children : List Child) (s : Search) :
    (scan host late tail directory depth children s).dirs = s.dirs := by
  induction children generalizing s with
  | nil => rfl
  | cons c children ih =>
      simp only [scan]
      repeat' split
      all_goals first | rfl | exact ih _

def search (tail : List Char) (s : Search) : Search :=
  match hstack : s.stack with
  | [] => s
  | (directory, depth) :: rest =>
    if hcut : s.dirs ≥ MAX_DIRS ∨ s.entries ≥ MAX_ENTRIES ∨ late (s.ticks + 1) then
      { s with ticks := s.ticks + 1, incomplete := true }
    else
      let canonical := host.fs.resolve directory
      if key host canonical ∈ s.visited then search tail { s with ticks := s.ticks + 1, stack := rest }
      else
        let s' := { s with
          ticks := s.ticks + 1, stack := rest, visited := key host canonical :: s.visited, dirs := s.dirs + 1 }
        match host.fs.scandir directory with
        | none => { s' with incomplete := true }
        | some children =>
          let scanned := scan host late tail directory depth children s'
          if scanned.incomplete then scanned else search tail scanned
termination_by (MAX_DIRS - s.dirs, s.stack.length)
decreasing_by
  · rw [hstack]
    exact .right _ (Nat.lt_succ_self _)
  · refine .left _ _ ?_
    have hlt : s.dirs < MAX_DIRS := Nat.lt_of_not_le fun h => hcut (.inl h)
    rw [scan_dirs]
    show MAX_DIRS - (s.dirs + 1) < MAX_DIRS - s.dirs
    omega

def ENTRY_NAMES : List Name := ["temp", "memory", "project_artifacts", "projects"].map String.toList

def named (p : Path) (name : String) : Path := p.join ⟨false, [name.toList]⟩

-- `Path(project_name).name == project_name`
def plainName (name : List Char) : Bool := (pathOf name).parts.getLast? = some name

-- The roots that are searched: the project's and its artifacts', with the exact candidates' third one.
structure Roots where
  project : Option Path
  artifacts : Option Path
  temp : Option Path

def rootsOf (projectPath projectName : Option (List Char)) : Roots :=
  let temp := host.gaRoot.map fun ga => named ga "temp"
  let project := (projectPath.filter fun p => !p.isEmpty).map pathOf
  let artifacts := temp.bind fun temp => (projectName.filter fun n => !n.isEmpty && plainName n).map fun n =>
    (named temp "project_artifacts").join (pathOf n)
  ⟨project, artifacts, temp⟩

-- The candidates, and whether the citation names one of GA's own directories.
def candidatesOf (roots : Roots) (path : Path) : List Path × Bool :=
  let plain := [roots.project, roots.artifacts, roots.temp].filterMap (·.map (·.join path)) ++
    (match host.gaRoot with
      | some ga => [ga.join path, (ga.join ⟨false, ["memory".toList, "L4_raw_sessions".toList]⟩).join path]
      | none => []) ++ [host.adminRoot.join path]
  match host.gaRoot, roots.temp, path.parts with
  | some ga, some temp, first :: rest =>
    if first ∈ ENTRY_NAMES then
      ([if first = "temp".toList then temp.join ⟨false, rest⟩
        else if first = "memory".toList then ga.join path else temp.join path], true)
    else (plain, false)
  | _, _, _ => (plain, false)

def exactHits (candidates : List Path) : List Path :=
  candidates.foldl (fun hits candidate =>
    if host.fs.exist candidate then addHit host hits (host.fs.resolve candidate) else hits) []

def finish (info : Info) (hits : List Path) (incomplete : Bool) : Info :=
  let info := { info with candidates := hits, ambiguous := hits.length > 1, incomplete }
  match hits with
  | [hit] => if incomplete then info else { info with resolved := some hit, exist := true, isDir := host.fs.isDir hit }
  | _ => info

-- The roots that are there, with the one to search first at the front.
def searchRoots (roots : Roots) : List Path :=
  ([roots.artifacts, roots.project].filterMap id).filterMap fun r =>
    if host.fs.exist r && host.fs.isDir (host.fs.resolve r) then some (host.fs.resolve r) else none

def scopeOf (projectPath : Option (List Char)) : List Char :=
  match projectPath.filter fun p => !p.isEmpty with
  | some p => p
  | none => "未绑定项目（仅精确路径与 temp 根层）".toList

def startSearch (roots hits : List Path) : Search := ⟨0, 0, 0, [], hits, roots.map fun r => (r, 0), false⟩

def resolve (raw : List Char) (projectPath projectName : Option (List Char)) : Info :=
  let info : Info := ⟨raw, none, false, false, false, [], false, scopeOf projectPath⟩
  let value := normalize host raw
  if value = [] ∨ Char.ofNat 0 ∈ value then info
  else
    let path := host.expanduser (pathOf value)
    let roots := rootsOf host projectPath projectName
    if path.absolute || drive value then
      finish host info (if host.fs.exist path then [host.fs.resolve path] else []) false
    else
      let (candidates, explicit) := candidatesOf host roots path
      let hits := exactHits host candidates
      if hits ≠ [] ∨ explicit ∨ ['.', '.'] ∈ path.parts then finish host info hits false
      else
        let searched := searchRoots host roots
        if searched = [] then info
        else
          let found := search host late (tailOf host value) (startSearch searched hits)
          finish host info found.hits found.incomplete

end Resolve

section Hits

variable {host : Host} {hits : List Path} {t : Path}

-- A path as `resolve` gives it, of something there.
def Canonical (host : Host) (p : Path) : Prop := host.fs.resolve p = p ∧ host.fs.exist p

theorem canonical_resolve {p : Path} (h : host.fs.exist p) : Canonical host (host.fs.resolve p) :=
  ⟨host.fs.resolved p, host.fs.exist_resolve p h⟩

theorem key_inj {p q : Path} (hp : Canonical host p) (hq : Canonical host q) : key host p = key host q ↔ p = q :=
  ⟨host.fs.keyed p q hp.1 hq.1 hp.2 hq.2, fun h => h ▸ rfl⟩

theorem addHit_eq (hhits : ∀ p ∈ hits, Canonical host p) (ht : Canonical host t) :
    addHit host hits t = if t ∈ hits then hits else hits ++ [t] := by
  have hany : (hits.any fun p => key host p = key host t) = decide (t ∈ hits) := by
    rw [Bool.eq_iff_iff, List.any_eq_true, decide_eq_true_iff]
    constructor
    · rintro ⟨p, hp, hkey⟩
      exact (key_inj (hhits p hp) ht).mp (of_decide_eq_true hkey) ▸ hp
    · exact fun hmem => ⟨t, hmem, decide_eq_true rfl⟩
  rw [addHit, hany]
  by_cases hmem : t ∈ hits
  · simp only [hmem, decide_true, if_true]
    conv_rhs => rw [← List.map_id hits]
    refine List.map_congr_left fun p hp => ?_
    split
    · rename_i hkey
      exact ((key_inj (hhits p hp) ht).mp hkey).symm
    · rfl
  · simp [hmem]

structure Distinct (host : Host) (hits : List Path) : Prop where
  nodup : hits.Nodup
  canonical : ∀ p ∈ hits, Canonical host p

theorem mem_addHit (h : Distinct host hits) (ht : Canonical host t) {p : Path} :
    p ∈ addHit host hits t ↔ p ∈ hits ∨ p = t := by
  rw [addHit_eq h.canonical ht]
  split
  · exact ⟨.inl, fun hp => hp.elim id fun heq => heq ▸ ‹t ∈ hits›⟩
  · simp

theorem Distinct.add (h : Distinct host hits) (ht : Canonical host t) : Distinct host (addHit host hits t) where
  nodup := by
    rw [addHit_eq h.canonical ht]
    split
    · exact h.nodup
    · rename_i hmem
      exact List.nodup_append.mpr ⟨h.nodup, List.nodup_singleton t, by
        rintro a ha b hb rfl
        exact hmem (List.mem_singleton.mp hb ▸ ha)⟩
  canonical p hp := by
    rcases (mem_addHit h ht).mp hp with hp | rfl
    · exact h.canonical p hp
    · exact ht

theorem exactHits_spec (candidates : List Path) :
    Distinct host (exactHits host candidates) ∧
      ∀ t, t ∈ exactHits host candidates ↔ ∃ c ∈ candidates, host.fs.exist c ∧ t = host.fs.resolve c := by
  have general : ∀ (candidates hits : List Path), Distinct host hits →
      Distinct host (candidates.foldl (fun hits candidate =>
        if host.fs.exist candidate then addHit host hits (host.fs.resolve candidate) else hits) hits) ∧
      ∀ t, t ∈ candidates.foldl (fun hits candidate =>
        if host.fs.exist candidate then addHit host hits (host.fs.resolve candidate) else hits) hits ↔
          t ∈ hits ∨ ∃ c ∈ candidates, host.fs.exist c ∧ t = host.fs.resolve c := by
    intro candidates
    induction candidates with
    | nil => exact fun hits hd => ⟨hd, by simp⟩
    | cons c candidates ih =>
        intro hits hd
        simp only [List.foldl_cons]
        split
        · rename_i hexist
          obtain ⟨hdistinct, hmem⟩ := ih _ (hd.add (canonical_resolve hexist))
          refine ⟨hdistinct, fun t => ?_⟩
          rw [hmem, mem_addHit hd (canonical_resolve hexist)]
          simp only [List.exists_mem_cons_iff, hexist, true_and]
          exact or_assoc
        · rename_i hexist
          obtain ⟨hdistinct, hmem⟩ := ih _ hd
          refine ⟨hdistinct, fun t => ?_⟩
          rw [hmem]
          simp [hexist]
  obtain ⟨hdistinct, hmem⟩ := general candidates [] ⟨List.nodup_nil, by rintro _ ⟨⟩⟩
  exact ⟨hdistinct, fun t => (hmem t).trans (by simp)⟩

end Hits

section Scan

variable {host : Host} {late : Nat → Bool} {tail : List Char} {d : Path} {depth : Nat}

def Matches (host : Host) (tail : List Char) (d : Path) (cs : List Child) (t : Path) : Prop :=
  ∃ c ∈ cs, c.link = false ∧ endsWith host tail (d.child c.name) ∧ t = d.child c.name

def Pushes (host : Host) (d : Path) (depth : Nat) (cs : List Child) (x : Path × Nat) : Prop :=
  depth < MAX_DEPTH ∧ ∃ c ∈ cs, c.link = false ∧ opens host c ∧ x = (d.child c.name, depth + 1)

structure Looked (host : Host) (tail : List Char) (d : Path) (depth : Nat) (c : Child) (s s' : Search) : Prop where
  dirs : s'.dirs = s.dirs
  entries : s'.entries = s.entries + 1
  visited : s'.visited = s.visited
  incomplete : s'.incomplete = s.incomplete
  sound : c.link = false → c.fails = false
  hits : s'.hits = if c.link = false ∧ endsWith host tail (d.child c.name) then
    addHit host s.hits (host.fs.resolve (d.child c.name)) else s.hits
  stack : s'.stack = if c.link = false ∧ opens host c ∧ depth < MAX_DEPTH then (d.child c.name, depth + 1) :: s.stack
    else s.stack

structure Stopped (host : Host) (late : Nat → Bool) (tail : List Char) (d : Path) (c : Child) (s s' : Search) : Prop where
  incomplete : s'.incomplete = true
  hits : s'.hits = s.hits ∨ c.link = false ∧ endsWith host tail (d.child c.name) ∧
    s'.hits = addHit host s.hits (host.fs.resolve (d.child c.name))
  cause : s.entries + 1 > MAX_ENTRIES ∨ late (s.ticks + 1) ∨ c.link = false ∧ c.fails ∨ s'.hits.length ≥ MAX_RESULTS

theorem scan_cons (c : Child) (cs : List Child) (s : Search) :
    Stopped host late tail d c s (scan host late tail d depth (c :: cs) s) ∨
      ∃ s', scan host late tail d depth (c :: cs) s = scan host late tail d depth cs s' ∧ Looked host tail d depth c s s' := by
  simp only [scan]
  split
  · rename_i hcut
    refine .inl ⟨rfl, .inl rfl, ?_⟩
    rcases Bool.or_eq_true_iff.mp hcut with hentries | hlate
    · exact .inl (of_decide_eq_true hentries)
    · exact .inr (.inl hlate)
  · split
    · rename_i hlink
      exact .inr ⟨_, rfl, rfl, rfl, rfl, rfl, by simp [hlink], by simp [hlink], by simp [hlink]⟩
    · rename_i hlink
      have hlink : c.link = false := by simpa using hlink
      split
      · rename_i hfails
        exact .inl ⟨rfl, .inl rfl, .inr (.inr (.inl ⟨hlink, hfails⟩))⟩
      · rename_i hfails
        have hfails : c.fails = false := by simpa using hfails
        -- what is pushed does not depend on what is found
        have hpush : ∀ {s₁ : Search}, s₁.dirs = s.dirs → s₁.entries = s.entries + 1 → s₁.visited = s.visited →
            s₁.incomplete = s.incomplete → s₁.stack = s.stack →
            s₁.hits = (if c.link = false ∧ endsWith host tail (d.child c.name) then
              addHit host s.hits (host.fs.resolve (d.child c.name)) else s.hits) →
            Looked host tail d depth c s
              (if opens host c && depth < MAX_DEPTH then { s₁ with stack := (d.child c.name, depth + 1) :: s₁.stack }
                else s₁) := by
          intro s₁ hdirs hentries hvisited hincomplete hstack hhits
          split
          · rename_i hopens
            obtain ⟨hopens, hdepth⟩ := Bool.and_eq_true_iff.mp hopens
            exact ⟨hdirs, hentries, hvisited, hincomplete, fun _ => hfails, hhits, by
              rw [if_pos ⟨hlink, hopens, of_decide_eq_true hdepth⟩, ← hstack]⟩
          · rename_i hopens
            refine ⟨hdirs, hentries, hvisited, hincomplete, fun _ => hfails, hhits, ?_⟩
            rw [hstack, if_neg]
            rintro ⟨-, hdir, hdepth⟩
            exact hopens (Bool.and_eq_true_iff.mpr ⟨hdir, decide_eq_true hdepth⟩)
        by_cases hends : endsWith host tail (d.child c.name) = true
        · simp only [hends, if_true, Bool.true_and]
          split
          · rename_i hmany
            exact .inl ⟨rfl, .inr ⟨hlink, hends, rfl⟩, .inr (.inr (.inr (of_decide_eq_true hmany)))⟩
          · exact .inr ⟨_, rfl, hpush rfl rfl rfl rfl rfl (by rw [if_pos ⟨hlink, hends⟩])⟩
        · simp only [hends, Bool.false_and, Bool.false_eq_true, if_false]
          exact .inr ⟨_, rfl, hpush rfl rfl rfl rfl rfl (by rw [if_neg fun h => hends h.2])⟩

theorem scan_hits (cs : List Child)
    (hcanon : ∀ c ∈ cs, c.link = false → Canonical host (d.child c.name)) (s : Search) (hd : Distinct host s.hits) :
    Distinct host (scan host late tail d depth cs s).hits ∧
      ∀ t ∈ (scan host late tail d depth cs s).hits, t ∈ s.hits ∨ Matches host tail d cs t := by
  induction cs generalizing s with
  | nil => exact ⟨hd, fun _ => .inl⟩
  | cons c cs ih =>
      have hadd : c.link = false → endsWith host tail (d.child c.name) →
          Distinct host (addHit host s.hits (host.fs.resolve (d.child c.name))) ∧
          ∀ t ∈ addHit host s.hits (host.fs.resolve (d.child c.name)), t ∈ s.hits ∨ Matches host tail d (c :: cs) t := by
        intro hlink hends
        have hitem := hcanon c List.mem_cons_self hlink
        rw [hitem.1]
        refine ⟨hd.add hitem, fun t ht => ((mem_addHit hd hitem).mp ht).imp_right ?_⟩
        rintro rfl
        exact ⟨c, List.mem_cons_self, hlink, hends, rfl⟩
      rcases scan_cons c cs s with hstop | ⟨s', heq, hlooked⟩
      · rcases hstop.hits with hsame | ⟨hlink, hends, hadded⟩
        · rw [hsame]
          exact ⟨hd, fun _ => .inl⟩
        · rw [hadded]
          exact hadd hlink hends
      · have hs' : Distinct host s'.hits ∧ ∀ t ∈ s'.hits, t ∈ s.hits ∨ Matches host tail d (c :: cs) t := by
          rw [hlooked.hits]
          split
          · exact hadd ‹_ ∧ _›.1 ‹_ ∧ _›.2
          · exact ⟨hd, fun _ => .inl⟩
        obtain ⟨hdistinct, hmem⟩ := ih (fun c hc => hcanon c (List.mem_cons_of_mem _ hc)) s' hs'.1
        rw [heq]
        refine ⟨hdistinct, fun t ht => ?_⟩
        rcases hmem t ht with ht | ⟨c', hc', hrest⟩
        · exact hs'.2 t ht
        · exact .inr ⟨c', List.mem_cons_of_mem _ hc', hrest⟩

structure Scanned (host : Host) (tail : List Char) (d : Path) (depth : Nat) (cs : List Child) (s s' : Search) : Prop where
  dirs : s'.dirs = s.dirs
  entries : s'.entries = s.entries + cs.length
  visited : s'.visited = s.visited
  sound : ∀ c ∈ cs, c.link = false → c.fails = false
  hits : ∀ t, t ∈ s'.hits ↔ t ∈ s.hits ∨ Matches host tail d cs t
  stack : ∃ new, s'.stack = new ++ s.stack ∧ ∀ x, x ∈ new ↔ Pushes host d depth cs x

theorem scan_complete (cs : List Child)
    (hcanon : ∀ c ∈ cs, c.link = false → Canonical host (d.child c.name)) (s : Search) (hd : Distinct host s.hits)
    (h : (scan host late tail d depth cs s).incomplete = false) :
    Scanned host tail d depth cs s (scan host late tail d depth cs s) := by
  induction cs generalizing s with
  | nil =>
      exact ⟨rfl, rfl, rfl, by rintro _ ⟨⟩, fun t => by simp [Matches, scan], [], rfl, fun x => by simp [Pushes]⟩
  | cons c cs ih =>
      rcases scan_cons c cs s with hstop | ⟨s', heq, hlooked⟩
      · exact absurd (hstop.incomplete.symm.trans h) (by decide)
      · have hitem := hcanon c List.mem_cons_self
        have hs' : Distinct host s'.hits ∧ ∀ t, t ∈ s'.hits ↔
            t ∈ s.hits ∨ c.link = false ∧ endsWith host tail (d.child c.name) ∧ t = d.child c.name := by
          rw [hlooked.hits]
          split
          · rename_i hc
            rw [(hitem hc.1).1]
            exact ⟨hd.add (hitem hc.1), fun t => by rw [mem_addHit hd (hitem hc.1)]; simp [hc]⟩
          · rename_i hc
            refine ⟨hd, fun t => ⟨.inl, fun ht => ht.elim id fun hnew => absurd ⟨hnew.1, hnew.2.1⟩ hc⟩⟩
        rw [heq] at h ⊢
        have hrest := ih (fun c hc => hcanon c (List.mem_cons_of_mem _ hc)) s' hs'.1 h
        refine ⟨hrest.dirs.trans hlooked.dirs, ?_, hrest.visited.trans hlooked.visited, ?_, fun t => ?_, ?_⟩
        · rw [hrest.entries, hlooked.entries, List.length_cons]
          omega
        · intro c' hc'
          rcases List.mem_cons.mp hc' with rfl | hc'
          · exact hlooked.sound
          · exact hrest.sound c' hc'
        · rw [hrest.hits, hs'.2]
          simp only [Matches, List.exists_mem_cons_iff]
          exact or_assoc
        · obtain ⟨new, hstack, hnew⟩ := hrest.stack
          rw [hlooked.stack] at hstack
          split at hstack
          · rename_i hc
            refine ⟨new ++ [(d.child c.name, depth + 1)], by rw [hstack, List.append_assoc]; rfl, fun x => ?_⟩
            rw [List.mem_append, hnew, List.mem_singleton]
            simp only [Pushes, List.exists_mem_cons_iff, hc, true_and]
            exact or_comm
          · rename_i hc
            refine ⟨new, hstack, fun x => (hnew x).trans ?_⟩
            simp only [Pushes, List.exists_mem_cons_iff]
            refine and_congr_right fun hdepth => ⟨.inr, fun hx => hx.elim (fun hx => ?_) id⟩
            exact absurd ⟨hx.1, hx.2.1, hdepth⟩ hc

end Scan

section Search

variable {host : Host} {late : Nat → Bool} {tail : List Char} {s : Search} {d : Path} {depth : Nat}
  {rest : List (Path × Nat)}

def Cut (late : Nat → Bool) (s : Search) : Prop :=
  s.dirs ≥ MAX_DIRS ∨ s.entries ≥ MAX_ENTRIES ∨ late (s.ticks + 1)

def Search.enter (host : Host) (s : Search) (d : Path) (rest : List (Path × Nat)) : Search :=
  { s with
    ticks := s.ticks + 1, stack := rest, visited := key host (host.fs.resolve d) :: s.visited, dirs := s.dirs + 1 }

theorem search_nil (h : s.stack = []) : search host late tail s = s := by
  rw [search]
  split
  · rfl
  · rename_i heq
    rw [h] at heq
    cases heq

theorem search_cut (h : s.stack = (d, depth) :: rest) (hcut : Cut late s) :
    search host late tail s = { s with ticks := s.ticks + 1, incomplete := true } := by
  rw [search]
  split
  · rename_i heq
    rw [h] at heq
    cases heq
  · exact dif_pos hcut

theorem search_skip (h : s.stack = (d, depth) :: rest) (hcut : ¬Cut late s)
    (hkey : key host (host.fs.resolve d) ∈ s.visited) :
    search host late tail s = search host late tail { s with ticks := s.ticks + 1, stack := rest } := by
  rw [search]
  split
  · rename_i heq
    rw [h] at heq
    cases heq
  · rename_i heq
    rw [h] at heq
    cases heq
    exact (dif_neg hcut).trans (if_pos hkey)

theorem search_none (h : s.stack = (d, depth) :: rest) (hcut : ¬Cut late s)
    (hkey : key host (host.fs.resolve d) ∉ s.visited) (hscan : host.fs.scandir d = none) :
    search host late tail s = { s.enter host d rest with incomplete := true } := by
  rw [search]
  split
  · rename_i heq
    rw [h] at heq
    cases heq
  · rename_i heq
    rw [h] at heq
    cases heq
    refine (dif_neg hcut).trans ((if_neg hkey).trans ?_)
    split
    · rfl
    · rename_i hsome
      rw [hscan] at hsome
      cases hsome

theorem search_enter {cs : List Child} (h : s.stack = (d, depth) :: rest) (hcut : ¬Cut late s)
    (hkey : key host (host.fs.resolve d) ∉ s.visited) (hscan : host.fs.scandir d = some cs) :
    search host late tail s = if (scan host late tail d depth cs (s.enter host d rest)).incomplete then
      scan host late tail d depth cs (s.enter host d rest)
    else search host late tail (scan host late tail d depth cs (s.enter host d rest)) := by
  rw [search]
  split
  · rename_i heq
    rw [h] at heq
    cases heq
  · rename_i heq
    rw [h] at heq
    cases heq
    refine (dif_neg hcut).trans ((if_neg hkey).trans ?_)
    split
    · rename_i hnone
      rw [hscan] at hnone
      cases hnone
    · rename_i hsome
      obtain rfl := Option.some.inj (hscan.symm.trans hsome)
      rfl

-- The search's own case analysis.
@[elab_as_elim]
theorem search_induction (host : Host) (late : Nat → Bool) (tail : List Char) {motive : Search → Prop}
    (nil : ∀ s, s.stack = [] → motive s)
    (cut : ∀ s d depth rest, s.stack = (d, depth) :: rest → Cut late s → motive s)
    (skip : ∀ s d depth rest, s.stack = (d, depth) :: rest → ¬Cut late s → key host (host.fs.resolve d) ∈ s.visited →
      motive { s with ticks := s.ticks + 1, stack := rest } → motive s)
    (unlisted : ∀ s d depth rest, s.stack = (d, depth) :: rest → ¬Cut late s →
      key host (host.fs.resolve d) ∉ s.visited → host.fs.scandir d = none → motive s)
    (enter : ∀ s d depth rest cs, s.stack = (d, depth) :: rest → ¬Cut late s →
      key host (host.fs.resolve d) ∉ s.visited → host.fs.scandir d = some cs →
      ((scan host late tail d depth cs (s.enter host d rest)).incomplete = false →
        motive (scan host late tail d depth cs (s.enter host d rest))) → motive s)
    (s : Search) : motive s :=
  search.induct host late tail motive nil cut skip unlisted
    (fun s d depth rest hstack hcut hkey cs hscan hstop =>
      enter s d depth rest cs hstack hcut hkey hscan fun hgo => absurd (hstop.symm.trans hgo) (by decide))
    (fun s d depth rest hstack hcut hkey cs hscan _ ih => enter s d depth rest cs hstack hcut hkey hscan fun _ => ih) s

def IsChild (host : Host) (p q : Path) : Prop :=
  ∃ cs, host.fs.scandir p = some cs ∧ ∃ c ∈ cs, c.link = false ∧ opens host c ∧ q = p.child c.name

theorem child_inj {p q : Path} {a b : Name} (h : p.child a = q.child b) : p = q ∧ a = b := by
  obtain ⟨habs, hparts⟩ := Path.mk.inj h
  obtain ⟨hinit, hlast⟩ := List.append_inj' hparts rfl
  exact ⟨by cases p; cases q; simp_all, List.head_eq_of_cons_eq hlast⟩

theorem isChild_parent (p p' q : Path) (h : IsChild host p q) (h' : IsChild host p' q) : p = p' := by
  obtain ⟨_, _, _, _, _, _, rfl⟩ := h
  obtain ⟨_, _, _, _, _, _, heq⟩ := h'
  exact (child_inj heq).1

theorem isChild_rank (p q : Path) (h : IsChild host p q) : q.parts.length = p.parts.length + 1 := by
  obtain ⟨_, _, _, _, _, _, rfl⟩ := h
  simp [Path.child]

theorem canonical_child {cs : List Child} (hd : Canonical host d) (hscan : host.fs.scandir d = some cs) :
    ∀ c ∈ cs, c.link = false → Canonical host (d.child c.name) := by
  intro c hc hlink
  obtain ⟨hexist, hresolve⟩ := host.fs.listed d cs c hd.1 hscan hc hlink
  exact ⟨hresolve, hexist⟩

def DomainMatch (host : Host) (tail : List Char) (roots : List Path) (t : Path) : Prop :=
  ∃ r ∈ roots, ∃ p k cs, Reach (IsChild host) MAX_DEPTH r p k ∧ host.fs.scandir p = some cs ∧ Matches host tail p cs t

def FoundIn (host : Host) (tail : List Char) (vis : List (Path × Nat)) (t : Path) : Prop :=
  ∃ x ∈ vis, ∃ cs, host.fs.scandir x.1 = some cs ∧ Matches host tail x.1 cs t

def Listable (host : Host) (p : Path) : Prop :=
  ∃ cs, host.fs.scandir p = some cs ∧ ∀ c ∈ cs, c.link = false → c.fails = false

def entryCount (host : Host) (p : Path) : Nat := ((host.fs.scandir p).getD []).length

-- How far a search has come that has not been cut short, with what is left of the roots' part of the stack.
structure Progress (host : Host) (tail : List Char) (roots : List Path) (extra : List (Path × Nat)) (s : Search)
    (vis upper : List (Path × Nat)) : Prop where
  explored : Explored (IsChild host) MAX_DEPTH roots vis upper
  stack : s.stack = upper ++ extra
  visited : s.visited = vis.map fun x => key host x.1
  canonical : ∀ x ∈ vis ++ s.stack, Canonical host x.1
  distinct : Distinct host s.hits
  hits : ∀ t, t ∈ s.hits ↔ FoundIn host tail vis t
  listable : ∀ x ∈ vis, Listable host x.1
  dirs : s.dirs = vis.length
  entries : s.entries = (vis.map fun x => entryCount host x.1).sum
  incomplete : s.incomplete = false
  -- the first root is visited first
  first : ∀ r ∈ roots.head?, (r, 0) ∈ vis ∨ vis = [] ∧ upper = roots.map fun r => (r, 0)

variable {roots : List Path} {vis upper extra : List (Path × Nat)}

theorem Progress.known (h : Progress host tail roots extra s vis upper) (hstack : s.stack = (d, depth) :: rest) :
    key host (host.fs.resolve d) ∈ s.visited ↔ d ∈ vis.map Prod.fst := by
  have hd : Canonical host d := h.canonical (d, depth) (List.mem_append_right _ (hstack ▸ List.mem_cons_self))
  rw [hd.1, h.visited]
  constructor
  · intro hkey
    obtain ⟨x, hx, heq⟩ := List.mem_map.mp hkey
    have hsame := (key_inj (h.canonical x (List.mem_append_left _ hx)) hd).mp heq
    exact List.mem_map.mpr ⟨x, hx, hsame⟩
  · intro hmem
    obtain ⟨x, hx, rfl⟩ := List.mem_map.mp hmem
    exact List.mem_map_of_mem hx

theorem Progress.pop {upper' extra' : List (Path × Nat)} (h : Progress host tail roots extra s vis upper)
    (hstack : s.stack = (d, depth) :: rest) (hrest : rest = upper' ++ extra')
    (hexplored : Explored (IsChild host) MAX_DEPTH roots vis upper')
    (hfirst : ∀ r ∈ roots.head?, (r, 0) ∈ vis) :
    Progress host tail roots extra' { s with ticks := s.ticks + 1, stack := rest } vis upper' where
  explored := hexplored
  stack := hrest
  visited := h.visited
  canonical x hx := by
    refine h.canonical x ?_
    rw [hstack]
    rcases List.mem_append.mp hx with hx | hx
    · exact List.mem_append_left _ hx
    · exact List.mem_append_right _ (List.mem_cons_of_mem _ hx)
  distinct := h.distinct
  hits := h.hits
  listable := h.listable
  dirs := h.dirs
  entries := h.entries
  incomplete := h.incomplete
  first r hr := .inl (hfirst r hr)

theorem Progress.first_of_visited (h : Progress host tail roots extra s vis upper) (hd : d ∈ vis.map Prod.fst) :
    ∀ r ∈ roots.head?, (r, 0) ∈ vis := by
  intro r hr
  rcases h.first r hr with hmem | ⟨rfl, -⟩
  · exact hmem
  · cases hd

theorem Progress.enter {cs : List Child} (h : Progress host tail roots extra s vis ((d, depth) :: upper))
    (hd : d ∉ vis.map Prod.fst) (hscan : host.fs.scandir d = some cs)
    (hcomplete : (scan host late tail d depth cs (s.enter host d (upper ++ extra))).incomplete = false) :
    ∃ new, Progress host tail roots extra (scan host late tail d depth cs (s.enter host d (upper ++ extra)))
      ((d, depth) :: vis) (new ++ upper) := by
  have hcanon : Canonical host d :=
    h.canonical (d, depth) (List.mem_append_right _ (h.stack ▸ List.mem_cons_self))
  have hchildren := canonical_child hcanon hscan
  have hs := scan_complete cs hchildren (s.enter host d (upper ++ extra)) h.distinct hcomplete
  have hdistinct : Distinct host (scan host late tail d depth cs (s.enter host d (upper ++ extra))).hits :=
    (scan_hits cs hchildren (s.enter host d (upper ++ extra)) h.distinct).1
  obtain ⟨new, hstack, hnew⟩ := hs.stack
  refine ⟨new, ?explored, by rw [hstack, List.append_assoc]; rfl, ?visited, ?canonical, hdistinct, ?hits, ?listable,
    ?dirs, ?entries, hcomplete, ?first⟩
  case explored =>
    refine h.explored.visit hd ?_ ?_
    · intro x hx
      obtain ⟨hdepth, c, hc, hlink, hopens, rfl⟩ := (hnew x).mp hx
      exact ⟨hdepth, ⟨cs, hscan, c, hc, hlink, hopens, rfl⟩, rfl⟩
    · rintro q hdepth ⟨cs', hscan', c, hc, hlink, hopens, rfl⟩
      obtain rfl := Option.some.inj (hscan.symm.trans hscan')
      exact (hnew _).mpr ⟨hdepth, c, hc, hlink, hopens, rfl⟩
  case visited =>
    rw [hs.visited]
    show key host (host.fs.resolve d) :: s.visited = _
    rw [hcanon.1, h.visited]
    rfl
  case canonical =>
    intro x hx
    rw [hstack] at hx
    rcases List.mem_append.mp hx with hx | hx
    · rcases List.mem_cons.mp hx with rfl | hx
      · exact hcanon
      · exact h.canonical x (List.mem_append_left _ hx)
    · rcases List.mem_append.mp hx with hx | hx
      · obtain ⟨-, c, hc, hlink, -, rfl⟩ := (hnew x).mp hx
        exact hchildren c hc hlink
      · refine h.canonical x (List.mem_append_right _ ?_)
        rw [h.stack]
        exact List.mem_cons_of_mem _ hx
  case hits =>
    intro t
    rw [hs.hits]
    refine (or_congr_left (h.hits t)).trans ?_
    simp only [FoundIn, List.exists_mem_cons_iff, hscan, Option.some.injEq, exists_eq_left']
    exact or_comm
  case listable =>
    intro x hx
    rcases List.mem_cons.mp hx with rfl | hx
    · exact ⟨cs, hscan, hs.sound⟩
    · exact h.listable x hx
  case dirs =>
    rw [hs.dirs]
    show s.dirs + 1 = _
    rw [h.dirs, List.length_cons]
  case entries =>
    rw [hs.entries]
    show s.entries + cs.length = _
    have hcount : entryCount host d = cs.length := by rw [entryCount, hscan]; rfl
    rw [h.entries, List.map_cons, List.sum_cons, hcount]
    omega
  case first =>
    intro r hr
    rcases h.first r hr with hmem | ⟨-, hupper⟩
    · exact .inl (List.mem_cons_of_mem _ hmem)
    · obtain ⟨rs, rfl⟩ : ∃ rs, roots = r :: rs := List.head?_eq_some_iff.mp hr
      cases hupper
      exact .inl List.mem_cons_self

-- What is left of the roots' part of the stack is reached from the first root.
def Covered (host : Host) (roots : List Path) (extra : List (Path × Nat)) : Prop :=
  ∀ x ∈ extra, ∃ r ∈ roots.head?, ∃ k, Reach (IsChild host) MAX_DEPTH r x.1 k

theorem FoundIn.domain (h : Explored (IsChild host) MAX_DEPTH roots vis upper) {t : Path}
    (ht : FoundIn host tail vis t) : DomainMatch host tail roots t := by
  obtain ⟨⟨p, k⟩, hp, cs, hscan, hmatch⟩ := ht
  obtain ⟨r, hr, hreach⟩ := h.sound k p hp
  exact ⟨r, hr, p, k, cs, hreach, hscan, hmatch⟩

theorem Progress.rest_visited (h : Progress host tail roots ((d, depth) :: extra) s vis [])
    (hcovered : Covered host roots ((d, depth) :: extra)) : d ∈ vis.map Prod.fst := by
  obtain ⟨r, hr, k, hreach⟩ := hcovered _ List.mem_cons_self
  have hroot : (r, 0) ∈ vis := by
    rcases h.first r hr with hmem | ⟨-, hupper⟩
    · exact hmem
    · obtain ⟨rs, rfl⟩ := List.head?_eq_some_iff.mp hr
      cases hupper
  obtain ⟨j, -, hmem⟩ := h.explored.complete isChild_parent hroot hreach
  exact List.mem_map_of_mem hmem

theorem Progress.entered (h : Progress host tail roots extra s vis upper) (hcovered : Covered host roots extra)
    (hstack : s.stack = (d, depth) :: rest) (hkey : key host (host.fs.resolve d) ∉ s.visited) :
    ∃ upper', upper = (d, depth) :: upper' ∧ rest = upper' ++ extra := by
  cases hupper : upper with
  | nil =>
      subst hupper
      obtain rfl : extra = (d, depth) :: rest := h.stack.symm.trans hstack
      exact absurd ((h.known hstack).mpr (h.rest_visited hcovered)) hkey
  | cons x upper' =>
      subst hupper
      obtain ⟨rfl, rfl⟩ : x = (d, depth) ∧ upper' ++ extra = rest := List.cons.inj (h.stack.symm.trans hstack)
      exact ⟨upper', rfl, rfl⟩

theorem Progress.skip (h : Progress host tail roots extra s vis upper) (hcovered : Covered host roots extra)
    (hstack : s.stack = (d, depth) :: rest) (hkey : key host (host.fs.resolve d) ∈ s.visited) :
    ∃ upper' extra', Progress host tail roots extra' { s with ticks := s.ticks + 1, stack := rest } vis upper' ∧
      Covered host roots extra' ∧ (extra ≠ [] → extra' ≠ [] ∨ rest = []) := by
  have hd := (h.known hstack).mp hkey
  cases hupper : upper with
  | nil =>
      subst hupper
      obtain rfl : extra = (d, depth) :: rest := h.stack.symm.trans hstack
      exact ⟨[], rest, h.pop hstack rfl h.explored (h.first_of_visited hd),
        fun x hx => hcovered x (List.mem_cons_of_mem _ hx), fun _ => (em (rest = [])).symm⟩
  | cons x upper' =>
      subst hupper
      obtain ⟨rfl, rfl⟩ : x = (d, depth) ∧ upper' ++ extra = rest := List.cons.inj (h.stack.symm.trans hstack)
      exact ⟨upper', extra, h.pop hstack rfl (h.explored.skip hd) (h.first_of_visited hd), hcovered, .inl⟩

theorem search_spec (h : Progress host tail roots extra s vis upper) (hcovered : Covered host roots extra) :
    (Distinct host (search host late tail s).hits ∧ ∀ t ∈ (search host late tail s).hits, DomainMatch host tail roots t) ∧
      ((search host late tail s).incomplete = false → ∃ vis', Progress host tail roots [] (search host late tail s) vis' []) := by
  induction s using search_induction host late tail generalizing vis upper extra with
  | nil s hnil =>
      rw [search_nil hnil]
      refine ⟨⟨h.distinct, fun t ht => ((h.hits t).mp ht).domain h.explored⟩, fun _ => ⟨vis, ?_⟩⟩
      obtain ⟨rfl, rfl⟩ := List.append_eq_nil_iff.mp (h.stack.symm.trans hnil)
      exact h
  | cut s d depth rest hstack hcut =>
      rw [search_cut hstack hcut]
      exact ⟨⟨h.distinct, fun t ht => ((h.hits t).mp ht).domain h.explored⟩, by rintro ⟨⟩⟩
  | skip s d depth rest hstack hcut hkey ih =>
      rw [search_skip hstack hcut hkey]
      obtain ⟨upper', extra', hnext, hcovered', -⟩ := h.skip hcovered hstack hkey
      exact ih hnext hcovered'
  | unlisted s d depth rest hstack hcut hkey hscan =>
      rw [search_none hstack hcut hkey hscan]
      exact ⟨⟨h.distinct, fun t ht => ((h.hits t).mp ht).domain h.explored⟩, by rintro ⟨⟩⟩
  | enter s d depth rest cs hstack hcut hkey hscan ih =>
      rw [search_enter hstack hcut hkey hscan]
      obtain ⟨upper', rfl, rfl⟩ := h.entered hcovered hstack hkey
      have hd := mt (h.known hstack).mpr hkey
      have hcanon : Canonical host d := h.canonical (d, depth) (List.mem_append_right _ (hstack ▸ List.mem_cons_self))
      split
      · rename_i hstop
        obtain ⟨hdistinct, hmem⟩ := @scan_hits host late tail d depth cs (canonical_child hcanon hscan)
          (s.enter host d (upper' ++ extra)) h.distinct
        refine ⟨⟨hdistinct, fun t ht => ?_⟩, fun hfalse => absurd (hstop.symm.trans hfalse) (by decide)⟩
        rcases hmem t ht with hold | hnew
        · exact ((h.hits t).mp hold).domain h.explored
        · obtain ⟨r, hr, hreach⟩ := h.explored.sound_queued List.mem_cons_self
          exact ⟨r, hr, d, depth, cs, hreach, hscan, hnew⟩
      · rename_i hgo
        have hgo := Bool.eq_false_iff.mpr hgo
        obtain ⟨new, hnext⟩ := h.enter hd hscan hgo
        exact ih hgo hnext hcovered

theorem scan_uncut (hlate : ∀ n, late n = false) (cs : List Child) (hfails : ∀ c ∈ cs, c.link = false → c.fails = false)
    (hcanon : ∀ c ∈ cs, c.link = false → Canonical host (d.child c.name)) (s : Search) (hd : Distinct host s.hits)
    (hentries : s.entries + cs.length ≤ MAX_ENTRIES) {e : Path} (hhits : ∀ t ∈ s.hits, t = e)
    (hfew : ∀ t, Matches host tail d cs t → t = e) (hs : s.incomplete = false) :
    (scan host late tail d depth cs s).incomplete = false := by
  induction cs generalizing s with
  | nil => exact hs
  | cons c cs ih =>
      have hadded : c.link = false → endsWith host tail (d.child c.name) →
          Distinct host (addHit host s.hits (host.fs.resolve (d.child c.name))) ∧
          ∀ t ∈ addHit host s.hits (host.fs.resolve (d.child c.name)), t = e := by
        intro hlink hends
        have hitem := hcanon c List.mem_cons_self hlink
        rw [hitem.1]
        refine ⟨hd.add hitem, fun t ht => ?_⟩
        rcases (mem_addHit hd hitem).mp ht with ht | rfl
        · exact hhits t ht
        · exact hfew _ ⟨c, List.mem_cons_self, hlink, hends, rfl⟩
      have hone : ∀ {hits : List Path}, Distinct host hits → (∀ t ∈ hits, t = e) → ¬hits.length ≥ MAX_RESULTS := by
        intro hits hdistinct hall hmany
        have hle : hits.length ≤ [e].length :=
          (hdistinct.nodup.subperm fun t ht => List.mem_singleton.mpr (hall t ht)).length_le
        simp only [List.length_singleton, MAX_RESULTS] at hle hmany
        omega
      rcases scan_cons c cs s with hstop | ⟨s', heq, hlooked⟩
      · exfalso
        rcases hstop.cause with hmany | hl | ⟨hlink, hf⟩ | hresults
        · rw [List.length_cons] at hentries
          omega
        · exact Bool.false_ne_true ((hlate _).symm.trans hl)
        · exact Bool.false_ne_true ((hfails c List.mem_cons_self hlink).symm.trans hf)
        · rcases hstop.hits with hsame | ⟨hlink, hends, hsame⟩
          · exact hone hd hhits (hsame ▸ hresults)
          · exact hone (hadded hlink hends).1 (hadded hlink hends).2 (hsame ▸ hresults)
      · have hs' : Distinct host s'.hits ∧ ∀ t ∈ s'.hits, t = e := by
          rw [hlooked.hits]
          split
          · exact hadded ‹_ ∧ _›.1 ‹_ ∧ _›.2
          · exact ⟨hd, hhits⟩
        rw [heq]
        refine ih (fun c hc => hfails c (List.mem_cons_of_mem _ hc)) (fun c hc => hcanon c (List.mem_cons_of_mem _ hc))
          s' hs'.1 ?_ hs'.2 ?_ (hlooked.incomplete.trans hs)
        · rw [hlooked.entries]
          rw [List.length_cons] at hentries
          omega
        · rintro t ⟨c', hc', hrest⟩
          exact hfew t ⟨c', List.mem_cons_of_mem _ hc', hrest⟩

theorem sum_le_of_subset {vis' : List Path} {L : List Path} (f : Path → Nat) (hnodup : vis'.Nodup) (hsub : vis' ⊆ L) :
    (vis'.map f).sum ≤ (L.map f).sum := by
  obtain ⟨l, hperm, hl⟩ := hnodup.subperm hsub
  rw [← (hperm.map f).sum_eq]
  exact List.Sublist.sum_le_sum (hl.map f) fun _ _ => Nat.zero_le _

structure Affordable (host : Host) (tail : List Char) (roots : List Path) (L : List Path) (e : Path) : Prop where
  reached : ∀ r ∈ roots, ∀ p k, Reach (IsChild host) MAX_DEPTH r p k → p ∈ L
  dirs : L.length < MAX_DIRS
  entries : (L.map (entryCount host)).sum < MAX_ENTRIES
  listable : ∀ p ∈ L, Listable host p
  few : ∀ t, DomainMatch host tail roots t → t = e

theorem search_uncut {L : List Path} {e : Path} (hlate : ∀ n, late n = false) (hL : Affordable host tail roots L e)
    (h : Progress host tail roots extra s vis upper) (hcovered : Covered host roots extra) :
    (search host late tail s).incomplete = false := by
  have hsub : ∀ {s : Search} {vis upper : List (Path × Nat)} {extra : List (Path × Nat)},
      Progress host tail roots extra s vis upper → vis.map Prod.fst ⊆ L := by
    intro s vis upper extra h p hp
    obtain ⟨⟨p, k⟩, hmem, rfl⟩ := List.mem_map.mp hp
    obtain ⟨r, hr, hreach⟩ := h.explored.sound k p hmem
    exact hL.reached r hr p k hreach
  have hsum : ∀ {vis : List (Path × Nat)}, (vis.map fun x => entryCount host x.1) =
      (vis.map Prod.fst).map (entryCount host) := by
    intro vis
    rw [List.map_map]
    rfl
  induction s using search_induction host late tail generalizing vis upper extra with
  | nil s hnil =>
      rw [search_nil hnil]
      exact h.incomplete
  | cut s d depth rest hstack hcut =>
      exfalso
      rcases hcut with hdirs | hentries | hl
      · have hle := (h.explored.nodup.subperm (hsub h)).length_le
        rw [List.length_map, ← h.dirs] at hle
        exact Nat.not_le_of_lt (Nat.lt_of_le_of_lt hle hL.dirs) hdirs
      · have hle := sum_le_of_subset (entryCount host) h.explored.nodup (hsub h)
        rw [← hsum, ← h.entries] at hle
        exact Nat.not_le_of_lt (Nat.lt_of_le_of_lt hle hL.entries) hentries
      · exact Bool.false_ne_true ((hlate _).symm.trans hl)
  | skip s d depth rest hstack hcut hkey ih =>
      rw [search_skip hstack hcut hkey]
      obtain ⟨upper', extra', hnext, hcovered', -⟩ := h.skip hcovered hstack hkey
      exact ih hnext hcovered'
  | unlisted s d depth rest hstack hcut hkey hscan =>
      obtain ⟨upper', rfl, rfl⟩ := h.entered hcovered hstack hkey
      obtain ⟨r, hr, hreach⟩ := h.explored.sound_queued List.mem_cons_self
      obtain ⟨cs, hsome, -⟩ := hL.listable d (hL.reached r hr d depth hreach)
      exact absurd (hscan.symm.trans hsome) (by simp)
  | enter s d depth rest cs hstack hcut hkey hscan ih =>
      rw [search_enter hstack hcut hkey hscan]
      obtain ⟨upper', rfl, rfl⟩ := h.entered hcovered hstack hkey
      have hd := mt (h.known hstack).mpr hkey
      have hcanon : Canonical host d := h.canonical (d, depth) (List.mem_append_right _ (hstack ▸ List.mem_cons_self))
      obtain ⟨r, hr, hreach⟩ := h.explored.sound_queued List.mem_cons_self
      have hdL := hL.reached r hr d depth hreach
      obtain ⟨cs', hsome, hfails⟩ := hL.listable d hdL
      obtain rfl := Option.some.inj (hscan.symm.trans hsome)
      have hle : s.entries + cs.length ≤ MAX_ENTRIES := by
        have hnodup : (d :: vis.map Prod.fst).Nodup := List.nodup_cons.mpr ⟨hd, h.explored.nodup⟩
        have hle := sum_le_of_subset (entryCount host) hnodup (List.cons_subset.mpr ⟨hdL, hsub h⟩)
        have hcount : entryCount host d = cs.length := by rw [entryCount, hscan]; rfl
        rw [List.map_cons, List.sum_cons, ← hsum, ← h.entries, hcount] at hle
        have := hL.entries
        omega
      have hgo := @scan_uncut host late tail d depth hlate cs hfails (canonical_child hcanon hscan)
        (s.enter host d (upper' ++ extra)) h.distinct hle e
        (fun t ht => hL.few t (((h.hits t).mp ht).domain h.explored))
        (fun t ht => hL.few t ⟨r, hr, d, depth, cs, hreach, hscan, ht⟩) h.incomplete
      rw [if_neg (by simp [hgo])]
      obtain ⟨new, hnext⟩ := h.enter hd hscan hgo
      exact ih hgo hnext hcovered

theorem search_bounds (h : Progress host tail roots extra s vis upper) (hcovered : Covered host roots extra)
    (hextra : extra ≠ []) (hgo : (search host late tail s).incomplete = false) :
    (search host late tail s).dirs < MAX_DIRS ∧ (search host late tail s).entries < MAX_ENTRIES := by
  induction s using search_induction host late tail generalizing vis upper extra with
  | nil s hnil => exact absurd (List.append_eq_nil_iff.mp (h.stack.symm.trans hnil)).2 hextra
  | cut s d depth rest hstack hcut =>
      rw [search_cut hstack hcut] at hgo
      cases hgo
  | skip s d depth rest hstack hcut hkey ih =>
      rw [search_skip hstack hcut hkey] at hgo ⊢
      obtain ⟨upper', extra', hnext, hcovered', hleft⟩ := h.skip hcovered hstack hkey
      rcases hleft hextra with hextra' | rfl
      · exact ih hnext hcovered' hextra' hgo
      · rw [search_nil rfl]
        exact ⟨Nat.lt_of_not_le fun hle => hcut (.inl hle), Nat.lt_of_not_le fun hle => hcut (.inr (.inl hle))⟩
  | unlisted s d depth rest hstack hcut hkey hscan =>
      rw [search_none hstack hcut hkey hscan] at hgo
      cases hgo
  | enter s d depth rest cs hstack hcut hkey hscan ih =>
      rw [search_enter hstack hcut hkey hscan] at hgo ⊢
      obtain ⟨upper', rfl, rfl⟩ := h.entered hcovered hstack hkey
      split at hgo
      · rename_i hstop
        exact absurd (hstop.symm.trans hgo) (by decide)
      · rename_i hscanned
        have hscanned := Bool.eq_false_iff.mpr hscanned
        obtain ⟨new, hnext⟩ := h.enter (mt (h.known hstack).mpr hkey) hscan hscanned
        rw [if_neg (by simp [hscanned])]
        exact ih hscanned hnext hcovered hextra hgo

end Search

section Decision

variable (host : Host) (late : Nat → Bool) (raw : List Char) (projectPath projectName : Option (List Char))

def citation : Path := host.expanduser (pathOf (normalize host raw))

def direct : Bool := (citation host raw).absolute || drive (normalize host raw)

def exacts : List Path :=
  if direct host raw then [citation host raw]
  else (candidatesOf host (rootsOf host projectPath projectName) (citation host raw)).1

def OneTarget (t : Path) : Prop :=
  (∃ c ∈ exacts host raw projectPath projectName, host.fs.exist c) ∧
    ∀ c ∈ exacts host raw projectPath projectName, host.fs.exist c → host.fs.resolve c = t

-- There is no exact candidate, and the citation is relative without parent steps.
structure Searched : Prop where
  value : normalize host raw ≠ []
  text : Char.ofNat 0 ∉ normalize host raw
  relative : direct host raw = false
  absent : ∀ c ∈ exacts host raw projectPath projectName, host.fs.exist c = false
  free : (candidatesOf host (rootsOf host projectPath projectName) (citation host raw)).2 = false
  straight : ['.', '.'] ∉ (citation host raw).parts

def domain : List Path := searchRoots host (rootsOf host projectPath projectName)

def tailText : List Char := tailOf host (normalize host raw)

def searching : Search :=
  search host late (tailText host raw) (startSearch (domain host projectPath projectName) [])

def Whole : Prop :=
  ∀ r ∈ domain host projectPath projectName, ∀ p k, Reach (IsChild host) MAX_DEPTH r p k →
    key host p ∈ (searching host late raw projectPath projectName).visited

structure Settled : Prop where
  justified : ∀ t, (resolve host late raw projectPath projectName).resolved = some t → host.fs.exist t ∧
    (OneTarget host raw projectPath projectName t ∨
      Searched host raw projectPath projectName ∧ Whole host late raw projectPath projectName ∧
        ∀ x, DomainMatch host (tailText host raw) (domain host projectPath projectName) x ↔ x = t)
  ambiguous : (resolve host late raw projectPath projectName).ambiguous ↔
    ∃ a ∈ (resolve host late raw projectPath projectName).candidates,
      ∃ b ∈ (resolve host late raw projectPath projectName).candidates, a ≠ b
  found : ∀ t ∈ (resolve host late raw projectPath projectName).candidates,
    (∃ c ∈ exacts host raw projectPath projectName, host.fs.exist c ∧ t = host.fs.resolve c) ∨
      DomainMatch host (tailText host raw) (domain host projectPath projectName) t
  cut : (resolve host late raw projectPath projectName).incomplete →
    (resolve host late raw projectPath projectName).resolved = none

-- The project's root is reached in the search of the artifacts' one, which has the budgets for that and finds one
-- match, while some directory that the project's own search would go into is too deep there.
def Exposed : Prop :=
  Searched host raw projectPath projectName ∧ ∃ A P, domain host projectPath projectName = [A, P] ∧
    (∃ k > 0, Reach (IsChild host) MAX_DEPTH A P k) ∧
    (∃ p k, Reach (IsChild host) MAX_DEPTH P p k ∧ ∀ j, ¬Reach (IsChild host) MAX_DEPTH A p j) ∧
    ∃ L e, Affordable host (tailText host raw) [A] L e ∧ DomainMatch host (tailText host raw) [A] e

end Decision

section Spec

variable {host : Host} {late : Nat → Bool} {raw : List Char} {projectPath projectName : Option (List Char)}

theorem canonical_domain {r : Path} (h : r ∈ domain host projectPath projectName) : Canonical host r := by
  obtain ⟨r', -, heq⟩ := List.mem_filterMap.mp h
  split at heq
  · rename_i hdir
    cases heq
    exact canonical_resolve (Bool.and_eq_true_iff.mp hdir).1
  · cases heq

theorem domain_cases : domain host projectPath projectName = [] ∨ (∃ A, domain host projectPath projectName = [A]) ∨
    ∃ A P, domain host projectPath projectName = [A, P] := by
  have hle : (domain host projectPath projectName).length ≤ 2 := by
    refine (List.length_filterMap_le _ _).trans ((List.length_filterMap_le _ _).trans ?_)
    exact Nat.le_refl _
  match domain host projectPath projectName, hle with
  | [], _ => exact .inl rfl
  | [A], _ => exact .inr (.inl ⟨A, rfl⟩)
  | [A, P], _ => exact .inr (.inr ⟨A, P, rfl⟩)
  | _ :: _ :: _ :: _, hle => exact absurd hle (by simp)

theorem canonical_reach {r p : Path} {k : Nat} (hr : Canonical host r) (h : Reach (IsChild host) MAX_DEPTH r p k) :
    Canonical host p := by
  induction h with
  | root => exact hr
  | step _ _ hchild ih =>
      obtain ⟨cs, hscan, c, hc, hlink, -, rfl⟩ := hchild
      exact canonical_child ih hscan c hc hlink

theorem progress_start {roots later : List Path} (h : domain host projectPath projectName = roots ++ later)
    (tail : List Char) :
    Progress host tail roots (later.map fun r => (r, 0)) (startSearch (domain host projectPath projectName) []) []
      (roots.map fun r => (r, 0)) where
  explored := Explored.start roots
  stack := by simp [startSearch, h]
  visited := rfl
  canonical x hx := by
    obtain ⟨r, hr, rfl⟩ := List.mem_map.mp (show x ∈ _ from hx)
    exact canonical_domain hr
  distinct := ⟨List.nodup_nil, by rintro _ ⟨⟩⟩
  hits t := ⟨by rintro ⟨⟩, by rintro ⟨_, ⟨⟩, _⟩⟩
  listable := by rintro _ ⟨⟩
  dirs := rfl
  entries := rfl
  incomplete := rfl
  first _ _ := .inr ⟨rfl, rfl⟩

theorem covered_nil (roots : List Path) : Covered host roots [] := by rintro _ ⟨⟩

theorem Progress.head {tail : List Char} {roots : List Path} {A : Path} {s : Search} {vis : List (Path × Nat)}
    (h : Progress host tail (A :: roots) [] s vis []) : (A, 0) ∈ vis := by
  rcases h.first A rfl with hmem | ⟨-, hnil⟩
  · exact hmem
  · cases hnil

theorem Progress.through {tail : List Char} {roots : List Path} {A p : Path} {k : Nat} {s : Search}
    {vis : List (Path × Nat)} (h : Progress host tail (A :: roots) [] s vis [])
    (hreach : Reach (IsChild host) MAX_DEPTH A p k) : ∃ j, (p, j) ∈ vis := by
  obtain ⟨j, -, hj⟩ := h.explored.complete isChild_parent h.head hreach
  exact ⟨j, hj⟩

theorem through_domain {tail : List Char} {s : Search} {vis : List (Path × Nat)} {r p : Path} {k : Nat}
    (h : Progress host tail (domain host projectPath projectName) [] s vis [])
    (hapart : ∀ A P, domain host projectPath projectName = [A, P] → ¬∃ k > 0, Reach (IsChild host) MAX_DEPTH A P k)
    (hr : r ∈ domain host projectPath projectName) (hreach : Reach (IsChild host) MAX_DEPTH r p k) :
    ∃ j, (p, j) ∈ vis := by
  rcases @domain_cases host projectPath projectName with hnil | ⟨A, hone⟩ | ⟨A, P, htwo⟩
  · rw [hnil] at hr
    cases hr
  · rw [hone] at hr h
    obtain rfl := List.mem_singleton.mp hr
    exact h.through hreach
  · rw [htwo] at hr h
    rcases List.mem_cons.mp hr with rfl | hr
    · exact h.through hreach
    · obtain rfl := List.mem_singleton.mp hr
      have hvis : r ∈ vis.map Prod.fst :=
        (h.explored.rooted r (List.mem_cons_of_mem _ hr)).resolve_right (by rintro ⟨⟩)
      obtain ⟨⟨r', j⟩, hmem, heq⟩ := List.mem_map.mp hvis
      obtain rfl : r' = r := heq
      have hzero : j = 0 := by
        obtain ⟨root, hroot, hfrom⟩ := h.explored.sound j r' hmem
        by_contra hpos
        rcases List.mem_cons.mp hroot with rfl | hroot
        · exact hapart _ _ htwo ⟨j, Nat.pos_of_ne_zero hpos, hfrom⟩
        · obtain rfl := List.mem_singleton.mp hroot
          have := hfrom.rank _ isChild_rank
          omega
      obtain ⟨j', -, hj'⟩ := h.explored.complete isChild_parent (hzero ▸ hmem) hreach
      exact ⟨j', hj'⟩

theorem mem_visited {tail : List Char} {roots : List Path} {extra upper : List (Path × Nat)} {s : Search}
    {vis : List (Path × Nat)} (h : Progress host tail roots extra s vis upper) {p : Path} (hp : Canonical host p) :
    key host p ∈ s.visited ↔ ∃ j, (p, j) ∈ vis := by
  rw [h.visited]
  constructor
  · intro hkey
    obtain ⟨⟨q, j⟩, hmem, heq⟩ := List.mem_map.mp hkey
    obtain rfl := (key_inj (h.canonical _ (List.mem_append_left _ hmem)) hp).mp heq
    exact ⟨j, hmem⟩
  · rintro ⟨j, hmem⟩
    exact List.mem_map.mpr ⟨(p, j), hmem, rfl⟩

theorem match_iff {tail : List Char} {roots : List Path} {s : Search} {vis : List (Path × Nat)} {roots' : List Path}
    (h : Progress host tail roots' [] s vis []) (hsub : ∀ r ∈ roots', r ∈ roots)
    (hthrough : ∀ r ∈ roots, ∀ p k, Reach (IsChild host) MAX_DEPTH r p k → ∃ j, (p, j) ∈ vis) (t : Path) :
    DomainMatch host tail roots t ↔ t ∈ s.hits := by
  rw [h.hits]
  constructor
  · rintro ⟨r, hr, p, k, cs, hreach, hscan, hmatch⟩
    obtain ⟨j, hj⟩ := hthrough r hr p k hreach
    exact ⟨(p, j), hj, cs, hscan, hmatch⟩
  · intro hfound
    obtain ⟨r, hr, hrest⟩ := hfound.domain h.explored
    exact ⟨r, hsub r hr, hrest⟩

theorem search_first {A P : Path} (htwo : domain host projectPath projectName = [A, P]) {k : Nat}
    (hnested : Reach (IsChild host) MAX_DEPTH A P k)
    (hgo : (searching host late raw projectPath projectName).incomplete = false) :
    (∃ vis, Progress host (tailText host raw) [A] [] (searching host late raw projectPath projectName) vis []) ∧
      (searching host late raw projectPath projectName).dirs < MAX_DIRS ∧
      (searching host late raw projectPath projectName).entries < MAX_ENTRIES := by
  have hstart := @progress_start host projectPath projectName [A] [P] htwo (tailText host raw)
  have hcovered : Covered host [A] ([P].map fun r => (r, 0)) := by
    intro x hx
    obtain rfl := List.mem_singleton.mp hx
    exact ⟨A, rfl, k, hnested⟩
  exact ⟨(search_spec hstart hcovered).2 hgo, search_bounds hstart hcovered (by simp) hgo⟩

theorem whole_of_not_exposed {t : Path} (hs : Searched host raw projectPath projectName)
    (hgo : (searching host late raw projectPath projectName).incomplete = false)
    (hhits : (searching host late raw projectPath projectName).hits = [t])
    (hnot : ¬Exposed host raw projectPath projectName) :
    Whole host late raw projectPath projectName ∧
      ∀ x, DomainMatch host (tailText host raw) (domain host projectPath projectName) x ↔ x = t := by
  by_cases hnested : ∃ A P, domain host projectPath projectName = [A, P] ∧ ∃ k > 0, Reach (IsChild host) MAX_DEPTH A P k
  · obtain ⟨A, P, htwo, k, hk, hreach⟩ := hnested
    obtain ⟨⟨vis, hvis⟩, hdirs, hentries⟩ := search_first htwo hreach hgo
    have hmatch := match_iff hvis (fun _ => id) (fun r hr p k hp => by
      obtain rfl := List.mem_singleton.mp hr
      exact hvis.through hp)
    have hL : Affordable host (tailText host raw) [A] (vis.map Prod.fst) t := by
      refine ⟨?_, ?_, ?_, ?_, ?_⟩
      · intro r hr p k hp
        obtain rfl := List.mem_singleton.mp hr
        obtain ⟨j, hj⟩ := hvis.through hp
        exact List.mem_map.mpr ⟨(p, j), hj, rfl⟩
      · rw [List.length_map, ← hvis.dirs]
        exact hdirs
      · rw [List.map_map]
        exact hvis.entries ▸ hentries
      · intro p hp
        obtain ⟨x, hx, rfl⟩ := List.mem_map.mp hp
        exact hvis.listable x hx
      · intro x hx
        have hmem := (hmatch x).mp hx
        rw [hhits] at hmem
        exact List.mem_singleton.mp hmem
    have ht : DomainMatch host (tailText host raw) [A] t :=
      (hmatch t).mpr (by rw [hhits]; exact List.mem_singleton_self t)
    -- nothing within the project's reach is out of the artifacts' one
    have hreached : ∀ p k, Reach (IsChild host) MAX_DEPTH P p k → ∃ j, Reach (IsChild host) MAX_DEPTH A p j := by
      intro p k hp
      by_contra hno
      exact hnot ⟨hs, A, P, htwo, ⟨_, hk, hreach⟩, ⟨p, k, hp, fun j hj => hno ⟨j, hj⟩⟩, _, t, hL, ht⟩
    have hthrough : ∀ r ∈ domain host projectPath projectName, ∀ p k, Reach (IsChild host) MAX_DEPTH r p k →
        ∃ j, (p, j) ∈ vis := by
      intro r hr p k hp
      rw [htwo] at hr
      rcases List.mem_cons.mp hr with rfl | hr
      · exact hvis.through hp
      · obtain rfl := List.mem_singleton.mp hr
        obtain ⟨j, hj⟩ := hreached p k hp
        exact hvis.through hj
    refine ⟨fun r hr p k hp => ?_, fun x => ?_⟩
    · exact (mem_visited hvis (canonical_reach (canonical_domain hr) hp)).mpr (hthrough r hr p k hp)
    · rw [match_iff hvis (by simp [htwo]) hthrough x, hhits, List.mem_singleton]
  · obtain ⟨vis, hvis⟩ : ∃ vis, Progress host (tailText host raw) (domain host projectPath projectName) []
        (searching host late raw projectPath projectName) vis [] := (search_spec (@progress_start host projectPath projectName (domain host projectPath projectName) []
      (List.append_nil _).symm (tailText host raw)) (covered_nil _)).2 hgo
    have hthrough : ∀ r ∈ domain host projectPath projectName, ∀ p k, Reach (IsChild host) MAX_DEPTH r p k →
        ∃ j, (p, j) ∈ vis := fun r hr p k hp =>
      through_domain hvis (fun A P htwo hreach => hnested ⟨A, P, htwo, hreach⟩) hr hp
    refine ⟨fun r hr p k hp => ?_, fun x => ?_⟩
    · exact (mem_visited hvis (canonical_reach (canonical_domain hr) hp)).mpr (hthrough r hr p k hp)
    · rw [match_iff hvis (fun _ => id) hthrough x, hhits, List.mem_singleton]

theorem partial_of_exposed (hlate : ∀ n, late n = false) (h : Exposed host raw projectPath projectName) :
    (searching host late raw projectPath projectName).incomplete = false ∧
      (∃ t, (searching host late raw projectPath projectName).hits = [t]) ∧
      ¬Whole host late raw projectPath projectName := by
  obtain ⟨-, A, P, htwo, ⟨k, -, hnested⟩, ⟨p, k', hp, hout⟩, L, e, hL, he⟩ := h
  have hgo : (searching host late raw projectPath projectName).incomplete = false :=
    search_uncut hlate hL (@progress_start host projectPath projectName [A] [P] htwo (tailText host raw)) (by
      intro x hx
      obtain rfl := List.mem_singleton.mp hx
      exact ⟨A, rfl, k, hnested⟩)
  obtain ⟨⟨vis, hvis⟩, -, -⟩ := search_first htwo hnested hgo
  have hmatch := match_iff hvis (fun _ => id) (fun r hr p k hp => by
    obtain rfl := List.mem_singleton.mp hr
    exact hvis.through hp)
  refine ⟨hgo, ⟨e, ?_⟩, fun hwhole => ?_⟩
  · have hmem := (hmatch e).mp he
    have hall : ∀ t ∈ (searching host late raw projectPath projectName).hits, t = e := fun t ht =>
      hL.few t ((hmatch t).mpr ht)
    exact List.perm_singleton.mp ((List.perm_ext_iff_of_nodup hvis.distinct.nodup (List.nodup_singleton e)).mpr
      fun t => ⟨fun ht => List.mem_singleton.mpr (hall t ht), fun ht => List.mem_singleton.mp ht ▸ hmem⟩)
  · have hroot : P ∈ domain host projectPath projectName := by simp [htwo]
    have hkey := hwhole P hroot p k' hp
    obtain ⟨j, hj⟩ := (mem_visited hvis (canonical_reach (canonical_domain hroot) hp)).mp hkey
    obtain ⟨r, hr, hfrom⟩ := hvis.explored.sound j p hj
    obtain rfl := List.mem_singleton.mp hr
    exact hout j hfrom

def blank (raw : List Char) (projectPath : Option (List Char)) : Info :=
  ⟨raw, none, false, false, false, [], false, scopeOf projectPath⟩

theorem exactHits_eq_nil : exactHits host (exacts host raw projectPath projectName) = [] ↔
    ∀ c ∈ exacts host raw projectPath projectName, host.fs.exist c = false := by
  have hmem := (@exactHits_spec host (exacts host raw projectPath projectName)).2
  constructor
  · intro hnone c hc
    refine Bool.eq_false_iff.mpr fun hexist => ?_
    have hin := (hmem _).mpr ⟨c, hc, hexist, rfl⟩
    rw [hnone] at hin
    cases hin
  · intro habsent
    refine List.eq_nil_iff_forall_not_mem.mpr fun t ht => ?_
    obtain ⟨c, hc, hexist, -⟩ := (hmem t).mp ht
    rw [habsent c hc] at hexist
    cases hexist

theorem resolve_searched (hs : Searched host raw projectPath projectName)
    (hdomain : domain host projectPath projectName ≠ []) :
    resolve host late raw projectPath projectName =
      finish host (blank raw projectPath) (searching host late raw projectPath projectName).hits
        (searching host late raw projectPath projectName).incomplete := by
  have hnone := exactHits_eq_nil.mpr hs.absent
  have hexacts : exacts host raw projectPath projectName =
      (candidatesOf host (rootsOf host projectPath projectName) (citation host raw)).1 :=
    if_neg (Bool.eq_false_iff.mp hs.relative)
  rw [hexacts] at hnone
  have hvalue : ¬(normalize host raw = [] ∨ Char.ofNat 0 ∈ normalize host raw) := not_or.mpr ⟨hs.value, hs.text⟩
  have hgoes : ¬(exactHits host (candidatesOf host (rootsOf host projectPath projectName) (citation host raw)).1 ≠ [] ∨
      (candidatesOf host (rootsOf host projectPath projectName) (citation host raw)).2 = true ∨
      ['.', '.'] ∈ (citation host raw).parts) := by
    simp only [hnone, hs.free]
    exact not_or.mpr ⟨not_not.mpr rfl, not_or.mpr ⟨Bool.false_ne_true, hs.straight⟩⟩
  have hunfold : resolve host late raw projectPath projectName = _ := if_neg hvalue
  refine hunfold.trans ((if_neg (Bool.eq_false_iff.mp hs.relative)).trans ((if_neg hgoes).trans ((if_neg hdomain).trans ?_)))
  exact congrArg (fun hits => finish host (blank raw projectPath)
    (search host late (tailText host raw) (startSearch (domain host projectPath projectName) hits)).hits
    (search host late (tailText host raw) (startSearch (domain host projectPath projectName) hits)).incomplete) hnone

theorem resolve_cases :
    (resolve host late raw projectPath projectName = blank raw projectPath) ∨
    (∃ hits, resolve host late raw projectPath projectName = finish host (blank raw projectPath) hits false ∧
      hits = exactHits host (exacts host raw projectPath projectName)) ∨
    (Searched host raw projectPath projectName ∧ resolve host late raw projectPath projectName =
      finish host (blank raw projectPath) (searching host late raw projectPath projectName).hits
        (searching host late raw projectPath projectName).incomplete) := by
  by_cases hvalue : normalize host raw = [] ∨ Char.ofNat 0 ∈ normalize host raw
  · exact .inl (if_pos hvalue)
  have hunfold : resolve host late raw projectPath projectName = _ := if_neg hvalue
  by_cases hdirect : direct host raw = true
  · refine .inr (.inl ⟨_, hunfold.trans (if_pos hdirect), ?_⟩)
    show (if host.fs.exist (citation host raw) then [host.fs.resolve (citation host raw)] else []) = _
    simp only [exacts, hdirect, if_true, exactHits, List.foldl_cons, List.foldl_nil]
    split <;> rfl
  replace hunfold := hunfold.trans (if_neg hdirect)
  have hexacts : exacts host raw projectPath projectName =
      (candidatesOf host (rootsOf host projectPath projectName) (citation host raw)).1 := if_neg hdirect
  by_cases hhits : exactHits host (exacts host raw projectPath projectName) ≠ [] ∨
      (candidatesOf host (rootsOf host projectPath projectName) (citation host raw)).2 = true ∨
      ['.', '.'] ∈ (citation host raw).parts
  · exact .inr (.inl ⟨_, hunfold.trans (if_pos (hexacts ▸ hhits)), hexacts ▸ rfl⟩)
  replace hunfold := hunfold.trans (if_neg (hexacts ▸ hhits))
  simp only [not_or, not_not, Bool.not_eq_true] at hhits hvalue
  obtain ⟨hnone, hfree, hstraight⟩ := hhits
  by_cases hdomain : domain host projectPath projectName = []
  · exact .inl (hunfold.trans (if_pos hdomain))
  have hs : Searched host raw projectPath projectName :=
    ⟨hvalue.1, hvalue.2, Bool.eq_false_iff.mpr hdirect, exactHits_eq_nil.mp hnone, hfree, hstraight⟩
  exact .inr (.inr ⟨hs, resolve_searched hs hdomain⟩)

section Finish

variable {info : Info} {hits : List Path} {incomplete : Bool}

theorem finish_resolved {t : Path} (hinfo : info.resolved = none) :
    (finish host info hits incomplete).resolved = some t ↔ hits = [t] ∧ incomplete = false := by
  simp only [finish]
  split
  · rename_i hit
    split
    · rename_i hinc
      simp [hinfo, hinc]
    · rename_i hinc
      simp [hinc]
  · rename_i hne
    constructor
    · intro h
      rw [hinfo] at h
      cases h
    · rintro ⟨rfl, -⟩
      exact absurd rfl (hne t)

theorem finish_candidates : (finish host info hits incomplete).candidates = hits := by
  simp only [finish]
  repeat' split
  all_goals rfl

theorem finish_incomplete : (finish host info hits incomplete).incomplete = incomplete := by
  simp only [finish]
  repeat' split
  all_goals rfl

theorem finish_ambiguous : (finish host info hits incomplete).ambiguous = decide (hits.length > 1) := by
  simp only [finish]
  repeat' split
  all_goals rfl

end Finish

theorem ambiguous_iff {hits : List Path} (h : hits.Nodup) : hits.length > 1 ↔ ∃ a ∈ hits, ∃ b ∈ hits, a ≠ b := by
  match hits, h with
  | [], _ => simp
  | [a], _ => simp
  | a :: b :: rest, h =>
      have hne : a ≠ b := fun heq => (List.nodup_cons.mp h).1 (heq ▸ List.mem_cons_self)
      exact ⟨fun _ => ⟨a, List.mem_cons_self, b, List.mem_cons_of_mem _ List.mem_cons_self, hne⟩, fun _ => by simp⟩

theorem searching_spec : Distinct host (searching host late raw projectPath projectName).hits ∧
    ∀ t ∈ (searching host late raw projectPath projectName).hits,
      DomainMatch host (tailText host raw) (domain host projectPath projectName) t :=
  (search_spec (@progress_start host projectPath projectName (domain host projectPath projectName) []
    (List.append_nil _).symm (tailText host raw)) (covered_nil _)).1

theorem settled_of_not_exposed (hnot : ¬Exposed host raw projectPath projectName) :
    Settled host late raw projectPath projectName := by
  rcases @resolve_cases host late raw projectPath projectName with hblank | ⟨hits, heq, rfl⟩ | ⟨hs, heq⟩
  · refine ⟨?_, ?_, ?_, ?_⟩ <;> rw [hblank] <;> simp [blank]
  · obtain ⟨hdistinct, hmem⟩ := @exactHits_spec host (exacts host raw projectPath projectName)
    refine ⟨fun t ht => ?_, ?_, fun t ht => ?_, fun hinc => ?_⟩
    · rw [heq, finish_resolved rfl] at ht
      have ht := ht.1
      have hin : t ∈ exactHits host (exacts host raw projectPath projectName) := ht ▸ List.mem_singleton_self t
      obtain ⟨c, hc, hexist, -⟩ := (hmem t).mp hin
      refine ⟨(hdistinct.canonical t hin).2, .inl ⟨⟨c, hc, hexist⟩, fun c' hc' hexist' => ?_⟩⟩
      have hother := (hmem _).mpr ⟨c', hc', hexist', rfl⟩
      rw [ht] at hother
      exact List.mem_singleton.mp hother
    · rw [heq, finish_ambiguous, finish_candidates, decide_eq_true_iff]
      exact ambiguous_iff hdistinct.nodup
    · rw [heq, finish_candidates] at ht
      exact .inl ((hmem t).mp ht)
    · rw [heq, finish_incomplete] at hinc
      cases hinc
  · obtain ⟨hdistinct, hmem⟩ := @searching_spec host late raw projectPath projectName
    refine ⟨fun t ht => ?_, ?_, fun t ht => ?_, fun hinc => ?_⟩
    · rw [heq, finish_resolved rfl] at ht
      obtain ⟨hhits, hgo⟩ := ht
      have hin : t ∈ (searching host late raw projectPath projectName).hits := hhits ▸ List.mem_singleton_self t
      exact ⟨(hdistinct.canonical t hin).2, .inr ⟨hs, whole_of_not_exposed hs hgo hhits hnot⟩⟩
    · rw [heq, finish_ambiguous, finish_candidates, decide_eq_true_iff]
      exact ambiguous_iff hdistinct.nodup
    · rw [heq, finish_candidates] at ht
      exact .inr (hmem t ht)
    · rw [heq, finish_incomplete] at hinc
      rw [heq]
      refine Option.eq_none_iff_forall_ne_some.mpr fun t ht => ?_
      rw [finish_resolved rfl] at ht
      exact absurd (hinc.symm.trans ht.2) (by decide)

theorem not_settled_of_exposed (hlate : ∀ n, late n = false) (h : Exposed host raw projectPath projectName) :
    ¬Settled host late raw projectPath projectName := by
  intro hsettled
  obtain ⟨hgo, ⟨t, hhits⟩, hpartial⟩ := partial_of_exposed hlate h
  obtain ⟨hs, A, P, htwo, -⟩ := h
  have heq : resolve host late raw projectPath projectName = _ := resolve_searched hs (by simp [htwo])
  have hresolved : (resolve host late raw projectPath projectName).resolved = some t := by
    rw [heq]
    exact (finish_resolved rfl).mpr ⟨hhits, hgo⟩
  rcases (hsettled.justified t hresolved).2 with ⟨⟨c, hc, hexist⟩, -⟩ | ⟨-, hwhole, -⟩
  · rw [hs.absent c hc] at hexist
    cases hexist
  · exact hpartial hwhole

-- However long it takes, a citation is settled as it should be unless it is exposed.
theorem settled_iff (host : Host) (raw : List Char) (projectPath projectName : Option (List Char)) :
    (∀ late, Settled host late raw projectPath projectName) ↔ ¬Exposed host raw projectPath projectName :=
  ⟨fun h hexposed => not_settled_of_exposed (fun _ => rfl) hexposed (h fun _ => false),
    fun hnot _ => settled_of_not_exposed hnot⟩

end Spec

namespace Nested

-- The project `p` is a directory of its artifacts' root, with `a/x` and `a/b/c/d/x` in it.
def place (names : List String) : Path := ⟨true, (["g", "temp", "project_artifacts", "n"] ++ names).map String.toList⟩

def sub (name : String) : Child := { name := name.toList, dir := true }
def file (name : String) : Child := { name := name.toList }

def tree : List (Path × List Child) :=
  [(place [], [sub "p"]), (place ["p"], [sub "a"]), (place ["p", "a"], [sub "b", file "x"]),
    (place ["p", "a", "b"], [sub "c"]), (place ["p", "a", "b", "c"], [sub "d"]),
    (place ["p", "a", "b", "c", "d"], [file "x"])]

def directories : List Path := tree.map Prod.fst

def nodes : List Path := directories ++ tree.flatMap fun e => e.2.map fun c => e.1.child c.name

def scandir (d : Path) : Option (List Child) := (tree.find? fun e => e.1 = d).map Prod.snd

theorem mem_tree {d : Path} {cs : List Child} (h : scandir d = some cs) : (d, cs) ∈ tree := by
  obtain ⟨⟨d', cs'⟩, hfind, rfl⟩ := Option.map_eq_some_iff.mp h
  have hsame : decide (d' = d) = true := List.find?_some (p := fun e : Path × List Child => decide (e.1 = d)) hfind
  obtain rfl : d' = d := of_decide_eq_true hsame
  exact List.mem_of_find?_eq_some hfind

def fs : FileSystem where
  exist p := p ∈ nodes
  resolve := id
  isDir p := p ∈ directories
  scandir := scandir
  normcase := id
  resolved _ := rfl
  exist_resolve _ h := h
  listed d cs c _ hscan hc _ := by
    refine ⟨decide_eq_true (List.mem_append_right _ ?_), rfl⟩
    exact List.mem_flatMap.mpr ⟨(d, cs), mem_tree hscan, List.mem_map_of_mem hc⟩
  distinct d cs hscan :=
    (by decide : ∀ e ∈ tree, (e.2.map Child.name).Nodup) (d, cs) (mem_tree hscan)
  keyed p q _ _ hp hq htext :=
    List.inj_on_of_nodup_map (by decide : (nodes.dedup.map Path.text).Nodup) (List.mem_dedup.mpr (of_decide_eq_true hp))
      (List.mem_dedup.mpr (of_decide_eq_true hq)) htext

def host : Host where
  fs := fs
  isDigit := Char.isDigit
  lower := List.map Char.toLower
  urlsplit value := some ([], value)
  unquote := id
  expanduser := id
  gaRoot := some ⟨true, ["g".toList]⟩
  adminRoot := ⟨true, ["h".toList]⟩

def cited : List Char := "x".toList
def project : Option (List Char) := some (place ["p"]).text
def artifacts : Option (List Char) := some "n".toList

theorem domain_eq : domain host project artifacts = [place [], place ["p"]] := by decide

theorem searched : Searched host cited project artifacts where
  value := by decide
  text := by decide
  relative := by decide
  absent := by decide
  free := by decide
  straight := by decide

theorem isChild_iff {p q : Path} : IsChild host p q ↔
    ∃ e ∈ tree, p = e.1 ∧ ∃ c ∈ e.2, c.link = false ∧ opens host c ∧ q = e.1.child c.name := by
  constructor
  · rintro ⟨cs, hscan, c, hc, hlink, hopens, rfl⟩
    exact ⟨(p, cs), mem_tree hscan, rfl, c, hc, hlink, hopens, rfl⟩
  · rintro ⟨e, he, rfl, c, hc, hlink, hopens, rfl⟩
    exact ⟨e.2, (by decide : ∀ e ∈ tree, scandir e.1 = some e.2) e he, c, hc, hlink, hopens, rfl⟩

theorem child_directory {p q : Path} (h : IsChild host p q) : q ∈ directories := by
  obtain ⟨e, he, -, c, hc, hlink, hopens, rfl⟩ := isChild_iff.mp h
  exact (by decide : ∀ e ∈ tree, ∀ c ∈ e.2, opens host c → e.1.child c.name ∈ directories) e he c hc hopens

theorem reach_directory {p : Path} {k : Nat} (h : Reach (IsChild host) MAX_DEPTH (place []) p k) :
    p ∈ directories := by
  cases h with
  | root => decide
  | step _ _ hchild => exact child_directory hchild

theorem not_reach_deep (k : Nat) : ¬Reach (IsChild host) MAX_DEPTH (place []) (place ["p", "a", "b", "c", "d"]) k := by
  intro h
  have hrank : 9 = 4 + k := h.rank _ isChild_rank
  have hle : k ≤ 4 := h.le
  omega

theorem affordable : Affordable host (tailText host cited) [place []] directories (place ["p", "a", "x"]) where
  reached r hr p k h := by
    obtain rfl := List.mem_singleton.mp hr
    exact reach_directory h
  dirs := by decide
  entries := by decide
  listable p hp := by
    obtain ⟨e, he, rfl⟩ := List.mem_map.mp hp
    exact ⟨e.2, (by decide : ∀ e ∈ tree, scandir e.1 = some e.2) e he,
      (by decide : ∀ e ∈ tree, ∀ c ∈ e.2, c.link = false → c.fails = false) e he⟩
  few t ht := by
    obtain ⟨r, hr, p, k, cs, hreach, hscan, c, hc, -, hends, rfl⟩ := ht
    obtain rfl := List.mem_singleton.mp hr
    -- the deep one is out of reach, and nothing else ends with the citation
    rcases (by decide : ∀ e ∈ tree, ∀ c ∈ e.2, endsWith host (tailText host cited) (e.1.child c.name) →
        e.1 = place ["p", "a", "b", "c", "d"] ∨ e.1.child c.name = place ["p", "a", "x"]) (p, cs) (mem_tree hscan) c hc
        hends with hdeep | heq
    · obtain rfl : p = _ := hdeep
      exact absurd hreach (not_reach_deep k)
    · exact heq

instance (p q : Path) : Decidable (IsChild host p q) := decidable_of_iff _ isChild_iff.symm

theorem exposed : Exposed host cited project artifacts := by
  have hnested : IsChild host (place []) (place ["p"]) := by decide
  have ha : IsChild host (place ["p"]) (place ["p", "a"]) := by decide
  have hb : IsChild host (place ["p", "a"]) (place ["p", "a", "b"]) := by decide
  have hc : IsChild host (place ["p", "a", "b"]) (place ["p", "a", "b", "c"]) := by decide
  have hd : IsChild host (place ["p", "a", "b", "c"]) (place ["p", "a", "b", "c", "d"]) := by decide
  have hdeep : Reach (IsChild host) MAX_DEPTH (place ["p"]) (place ["p", "a", "b", "c", "d"]) 4 :=
    (((Reach.root.step (by decide) ha).step (by decide) hb).step (by decide) hc).step (by decide) hd
  refine ⟨searched, _, _, domain_eq, ⟨1, by decide, Reach.root.step (by decide) hnested⟩,
    ⟨_, 4, hdeep, not_reach_deep⟩, _, _, affordable, ?_⟩
  exact ⟨_, List.mem_singleton_self _, place ["p", "a"], 2, [sub "b", file "x"],
    (Reach.root.step (by decide) hnested).step (by decide) ha, by decide, file "x", by decide,
    rfl, by decide, by decide⟩

end Nested

-- The search comes to the project through its artifacts' root, and leaves `a/b/c/d/x` out.
theorem nested_project_unsettled :
    ¬∀ (host : Host) (raw : List Char) (projectPath projectName : Option (List Char)) (late : Nat → Bool),
      Settled host late raw projectPath projectName :=
  fun h => not_settled_of_exposed (fun _ => rfl) Nested.exposed (h Nested.host _ _ _ fun _ => false)

end GaHub.Citations
