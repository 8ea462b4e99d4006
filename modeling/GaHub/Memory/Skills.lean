import Mathlib.Data.List.Infix

namespace GaHub.Memory.Skills

abbrev Name := List Char
abbrev Path := List Name
abbrev Bytes := List Nat

structure Entry where
  name : Name
  -- a link to a directory is one too
  isDir : Bool
  isLink : Bool

-- The file system while nothing changes in it. A path is what stands between its slashes, a real path one without
-- links; special files are left out.
structure FileSystem where
  -- `Path(p).resolve()`, `none` where the links go round
  resolve : Path → Option Path
  scandir : Path → List Entry
  isDir : Path → Bool
  isFile : Path → Bool
  bytes : Path → Option Bytes
  stat : Path → Option (Nat × Int)
  -- `open(…, encoding="utf-8-sig", errors="replace")`, read whole or by lines
  decode : Bytes → List Char
  lines : Bytes → List (List Char)
  lower : List Char → List Char
  entry_name : ∀ p, ∀ e ∈ scandir p, e.name ≠ [] ∧ '/' ∉ e.name ∧ Char.ofNat 0 ∉ e.name ∧ e.name ≠ ['.']
  resolve_append : ∀ p r q, resolve p = some r → resolve (p ++ q) = resolve (r ++ q)
  bytes_resolve : ∀ p r, resolve p = some r → bytes p = bytes r
  isFile_of_bytes : ∀ p b, bytes p = some b → isFile p

variable (fs : FileSystem)

-- `os.path.splitext(name)[1]`: what stands from the last dot on, unless only dots stand before it.
def extension (name : Name) : Name :=
  let ext := (name.reverse.takeWhile (· ≠ '.')).reverse
  let stem := name.take (name.length - ext.length - 1)
  if '.' ∈ name ∧ stem.any (· ≠ '.') then '.' :: ext else []

def SKILL_TEXT_EXT : List Name := [".md", ".json", ".py", ".txt", ".yaml", ".yml", ".sh", ""].map String.toList

-- Names are compared character by character.
local instance : LawfulBEq Name := inferInstance

def isSkillText (name : Name) : Bool := fs.lower (extension name) ∈ SKILL_TEXT_EXT

def SNIFF_BYTES : Nat := 8192

def isBinaryBlob (p : Path) : Bool :=
  match fs.bytes p with
  | some b => decide (0 ∈ b.take SNIFF_BYTES)
  | none => true

def escapesSkillRoot (p root : Path) : Bool :=
  match fs.resolve p with
  | some r => !root.isPrefixOf r
  | none => true

variable (skillDir : Path)

-- `_advertised_path` of a file, by its names from the skill directory on.
def advertisedPath (names : Path) : List Char := List.intercalate ['/'] names

-- What the walk over the skill directory passes on: the files below `names`, links followed to a file and not into a
-- directory.
def walk (root : Path) : Nat → Path → List Path
  | 0, _ => []
  | depth + 1, names =>
    let base := skillDir ++ names
    let entries := fs.scandir base
    let files := (entries.filter (!·.isDir)).filterMap fun e =>
      if isSkillText fs e.name && !escapesSkillRoot fs (base ++ [e.name]) root && !isBinaryBlob fs (base ++ [e.name])
      then some (names ++ [e.name]) else none
    let dirs := (entries.filter (·.isDir)).filter fun e => !escapesSkillRoot fs (base ++ [e.name]) root
    files ++ (dirs.filter (!·.isLink)).flatMap fun e => walk root depth (names ++ [e.name])

def skillFiles (depth : Nat) : List Path :=
  if fs.isDir skillDir then
    match fs.resolve skillDir with
    | some root => walk fs skillDir root depth []
    | none => []
  else []

structure SkillItem where
  path : List Char
  name : Name
  size : Nat
  mtime : Int

def skillItem (f : Path) : List (Path × SkillItem) :=
  match fs.stat (skillDir ++ f) with
  | some (size, mtime) => [(f, { path := advertisedPath f, name := f.getLast?.getD [], size, mtime })]
  | none => []

def listLoop (limit : Nat) : List Path → List (Path × SkillItem) → List (Path × SkillItem)
  | [], out => out
  | f :: files, out =>
    let out := out ++ skillItem fs skillDir f
    if limit ≤ out.length then out else listLoop limit files out

-- `_list_skills`, each item with the file it is about.
def listSkills (depth limit : Nat) : List (Path × SkillItem) := listLoop fs skillDir limit (skillFiles fs skillDir depth) []

structure SkillSearchMatch where
  line : Nat
  text : List Char

structure SkillSearchHit where
  path : List Char
  found : List SkillSearchMatch

def MAX_FILE_BYTES : Nat := 512 * 1024
def PER_FILE_HITS : Nat := 5

def stripNewlines (line : List Char) : List Char := (line.reverse.dropWhile (· = '\n')).reverse

def searchFile (needle : List Char) (b : Bytes) : List SkillSearchMatch :=
  (((fs.lines b).zipIdx 1).filterMap fun (line, i) =>
    if needle <:+: fs.lower line then some { line := i, text := (stripNewlines line).take 240 } else none).take
      PER_FILE_HITS

structure Found where
  hits : List (Path × SkillSearchHit) := []
  scanned : Nat := 0
  truncated : Bool := false

def searchLoop (needle : List Char) (limit : Nat) : List Path → Found → Found
  | [], found => found
  | f :: files, found =>
    match fs.bytes (skillDir ++ f) with
    | none => searchLoop needle limit files found
    | some b =>
      if MAX_FILE_BYTES < b.length then searchLoop needle limit files found
      else
        let found := { found with scanned := found.scanned + 1 }
        let lines := searchFile fs needle b
        if lines.isEmpty then searchLoop needle limit files found
        else
          let found := { found with hits := found.hits ++ [(f, { path := advertisedPath f, found := lines })] }
          if limit ≤ found.hits.length then { found with truncated := true }
          else searchLoop needle limit files found

-- `_search_skills`, each hit with the file it is about.
def searchSkills (depth : Nat) (q : List Char) (limit : Nat) : Found :=
  searchLoop fs skillDir (fs.lower q) limit (skillFiles fs skillDir depth) {}

def clientPathForm (raw : List Char) : List Char := raw.map fun c => if c = '\\' then '/' else c

-- `root / path`: an absolute path takes the root's place.
def joinClient (root : Path) (raw : List Char) : Path :=
  let parts := (raw.splitOn '/').filter fun part => part ≠ [] && part ≠ ['.']
  if raw.head? = some '/' then parts else root ++ parts

def safeSkillPath (raw : List Char) : Option Path :=
  if raw = [] ∨ Char.ofNat 0 ∈ raw ∨ ':' ∈ raw then none
  else (fs.resolve skillDir).bind fun root =>
    let candidate := joinClient root (clientPathForm raw)
    if escapesSkillRoot fs candidate root then none else fs.resolve candidate

structure Opened where
  file : Path
  path : List Char
  content : List Char

def readSkill (raw : List Char) : Option Opened :=
  (safeSkillPath fs skillDir raw).bind fun p =>
    if isSkillText fs (p.getLast?.getD []) && fs.isFile p && !isBinaryBlob fs p then
      (fs.bytes p).map fun b => { file := p, path := clientPathForm raw, content := fs.decode b }
    else none

section Walk

def NameOk (n : Name) : Prop := n ≠ [] ∧ '/' ∉ n ∧ Char.ofNat 0 ∉ n ∧ n ≠ ['.']

structure Accepted (root : Path) (f : Path) : Prop where
  names : ∀ n ∈ f, NameOk n
  nonempty : f ≠ []
  inside : ∃ r, fs.resolve (skillDir ++ f) = some r ∧ root <+: r
  text : ∃ b, fs.bytes (skillDir ++ f) = some b ∧ 0 ∉ b.take SNIFF_BYTES

variable {fs skillDir} {root names f : Path}

theorem inside_of_not_escapes {p : Path} (h : escapesSkillRoot fs p root = false) :
    ∃ r, fs.resolve p = some r ∧ root <+: r := by
  unfold escapesSkillRoot at h
  cases hr : fs.resolve p with
  | none => simp [hr] at h
  | some r => exact ⟨r, rfl, by simpa [hr] using h⟩

theorem text_of_not_binary {p : Path} (h : isBinaryBlob fs p = false) :
    ∃ b, fs.bytes p = some b ∧ 0 ∉ b.take SNIFF_BYTES := by
  unfold isBinaryBlob at h
  cases hb : fs.bytes p with
  | none => simp [hb] at h
  | some b => exact ⟨b, rfl, by simpa [hb] using h⟩

theorem walk_accepted {depth : Nat} (hnames : ∀ n ∈ names, NameOk n) (hf : f ∈ walk fs skillDir root depth names) :
    Accepted fs skillDir root f := by
  induction depth generalizing names with
  | zero => cases hf
  | succ depth ih =>
      unfold walk at hf
      dsimp only at hf
      have hgrow : ∀ e ∈ fs.scandir (skillDir ++ names), ∀ n ∈ names ++ [e.name], NameOk n := by
        intro e he n hn
        rcases List.mem_append.mp hn with hn | hn
        · exact hnames n hn
        · rw [List.mem_singleton.mp hn]
          exact fs.entry_name _ e he
      rcases List.mem_append.mp hf with hf | hf
      · obtain ⟨e, he, hkeep⟩ := List.mem_filterMap.mp hf
        obtain ⟨hok, heq⟩ := Option.ite_none_right_eq_some.mp hkeep
        cases heq
        simp only [Bool.and_eq_true, Bool.not_eq_true'] at hok
        refine ⟨hgrow e (List.mem_of_mem_filter he), by simp, ?_, ?_⟩
        · rw [← List.append_assoc]
          exact inside_of_not_escapes hok.1.2
        · rw [← List.append_assoc]
          exact text_of_not_binary hok.2
      · obtain ⟨e, he, hf⟩ := List.mem_flatMap.mp hf
        exact ih (hgrow e (List.mem_of_mem_filter (List.mem_of_mem_filter (List.mem_of_mem_filter he)))) hf

theorem skillFiles_accepted {depth : Nat} (hf : f ∈ skillFiles fs skillDir depth) :
    ∃ root, fs.resolve skillDir = some root ∧ Accepted fs skillDir root f := by
  unfold skillFiles at hf
  split at hf
  · cases hr : fs.resolve skillDir with
    | none => simp [hr] at hf
    | some root =>
        rw [hr] at hf
        exact ⟨root, rfl, walk_accepted (by simp) hf⟩
  · cases hf

theorem skillItem_mem {item : Path × SkillItem} (h : item ∈ skillItem fs skillDir f) :
    item.1 = f ∧ item.2.path = advertisedPath item.1 := by
  unfold skillItem at h
  split at h
  · rw [List.mem_singleton.mp h]
    exact ⟨rfl, rfl⟩
  · cases h

theorem listLoop_mem {limit : Nat} {files : List Path} {out : List (Path × SkillItem)} {item : Path × SkillItem}
    (h : item ∈ listLoop fs skillDir limit files out) :
    item ∈ out ∨ item.1 ∈ files ∧ item.2.path = advertisedPath item.1 := by
  induction files generalizing out with
  | nil => exact .inl h
  | cons f files ih =>
      have hout : item ∈ out ++ skillItem fs skillDir f →
          item ∈ out ∨ item.1 ∈ f :: files ∧ item.2.path = advertisedPath item.1 := by
        intro hmem
        rcases List.mem_append.mp hmem with hmem | hmem
        · exact .inl hmem
        · obtain ⟨hf, hpath⟩ := skillItem_mem hmem
          exact .inr ⟨hf ▸ List.mem_cons_self, hpath⟩
      unfold listLoop at h
      dsimp only at h
      split at h
      · exact hout h
      · rcases ih h with h | ⟨hmem, hpath⟩
        · exact hout h
        · exact .inr ⟨List.mem_cons_of_mem _ hmem, hpath⟩

theorem searchLoop_mem {needle : List Char} {limit : Nat} {files : List Path} {found : Found}
    {hit : Path × SkillSearchHit} (h : hit ∈ (searchLoop fs skillDir needle limit files found).hits) :
    hit ∈ found.hits ∨ hit.1 ∈ files ∧ hit.2.path = advertisedPath hit.1 ∧
      ∃ b, fs.bytes (skillDir ++ hit.1) = some b ∧ hit.2.found = searchFile fs needle b := by
  induction files generalizing found with
  | nil => exact .inl h
  | cons f files ih =>
      have hlater {found' : Found} (hsame : found'.hits = found.hits)
          (h : hit ∈ (searchLoop fs skillDir needle limit files found').hits) :
          hit ∈ found.hits ∨ hit.1 ∈ f :: files ∧ hit.2.path = advertisedPath hit.1 ∧
            ∃ b, fs.bytes (skillDir ++ hit.1) = some b ∧ hit.2.found = searchFile fs needle b := by
        rcases ih h with h | ⟨hmem, hrest⟩
        · exact .inl (hsame ▸ h)
        · exact .inr ⟨List.mem_cons_of_mem _ hmem, hrest⟩
      unfold searchLoop at h
      cases hb : fs.bytes (skillDir ++ f) with
      | none =>
          rw [hb] at h
          exact hlater rfl h
      | some b =>
          rw [hb] at h
          dsimp only at h
          have hhit (hmem : hit ∈ found.hits ++ [(f, { path := advertisedPath f, found := searchFile fs needle b })]) :
              hit ∈ found.hits ∨ hit.1 ∈ f :: files ∧ hit.2.path = advertisedPath hit.1 ∧
                ∃ b, fs.bytes (skillDir ++ hit.1) = some b ∧ hit.2.found = searchFile fs needle b := by
            rcases List.mem_append.mp hmem with hmem | hmem
            · exact .inl hmem
            · rw [List.mem_singleton.mp hmem]
              exact .inr ⟨List.mem_cons_self, rfl, b, hb, rfl⟩
          split at h
          · exact hlater rfl h
          · split at h
            · exact hlater (by rfl) h
            · split at h
              · exact hhit h
              · rcases ih h with h | ⟨hmem, hrest⟩
                · exact hhit h
                · exact .inr ⟨List.mem_cons_of_mem _ hmem, hrest⟩

end Walk

section Served

def Opens (f : Path) : Prop :=
  ∃ o b, readSkill fs skillDir (advertisedPath f) = some o ∧ fs.resolve (skillDir ++ f) = some o.file ∧
    fs.bytes o.file = some b ∧ o.content = fs.decode b

structure Served (depth limit : Nat) (q : List Char) (searchLimit : Nat) : Prop where
  listed : ∀ item ∈ listSkills fs skillDir depth limit, item.2.path = advertisedPath item.1 ∧ Opens fs skillDir item.1
  found : ∀ hit ∈ (searchSkills fs skillDir depth q searchLimit).hits,
    hit.2.path = advertisedPath hit.1 ∧ Opens fs skillDir hit.1
  -- the content that is shown is that of a file below the root, its links resolved
  read_inside : ∀ raw o, readSkill fs skillDir raw = some o → ∃ root p b, fs.resolve skillDir = some root ∧
    fs.resolve p = some o.file ∧ root <+: o.file ∧ fs.bytes o.file = some b ∧ o.content = fs.decode b
  search_inside : ∀ hit ∈ (searchSkills fs skillDir depth q searchLimit).hits, ∃ root r b,
    fs.resolve skillDir = some root ∧ fs.resolve (skillDir ++ hit.1) = some r ∧ root <+: r ∧ fs.bytes r = some b ∧
      hit.2.found = searchFile fs (fs.lower q) b

-- The path has no colon, its backslashes, read as separators, lead to the same file, and the name of that file, its
-- links resolved, is one of a skill.
def Readable (f : Path) : Prop :=
  ':' ∉ advertisedPath f ∧ ∃ root r, fs.resolve skillDir = some root ∧ fs.resolve (skillDir ++ f) = some r ∧
    fs.resolve (joinClient root (clientPathForm (advertisedPath f))) = some r ∧ isSkillText fs (r.getLast?.getD [])

variable {fs skillDir}

theorem readSkill_spec {raw : List Char} {o : Opened} (h : readSkill fs skillDir raw = some o) :
    ':' ∉ raw ∧ ∃ root b, fs.resolve skillDir = some root ∧
      fs.resolve (joinClient root (clientPathForm raw)) = some o.file ∧ root <+: o.file ∧
      isSkillText fs (o.file.getLast?.getD []) ∧ fs.bytes o.file = some b ∧ o.content = fs.decode b := by
  unfold readSkill safeSkillPath at h
  obtain ⟨p, hp, h⟩ := Option.bind_eq_some_iff.mp h
  obtain ⟨hraw, hp⟩ := Option.ite_none_left_eq_some.mp hp
  obtain ⟨root, hroot, hp⟩ := Option.bind_eq_some_iff.mp hp
  obtain ⟨hescapes, hp⟩ := Option.ite_none_left_eq_some.mp hp
  obtain ⟨hok, h⟩ := Option.ite_none_right_eq_some.mp h
  obtain ⟨b, hb, rfl⟩ := Option.map_eq_some_iff.mp h
  obtain ⟨r, hr, hinside⟩ := inside_of_not_escapes (Bool.eq_false_iff.mpr hescapes)
  obtain rfl : r = p := Option.some.inj (hr.symm.trans hp)
  simp only [Bool.and_eq_true] at hok
  exact ⟨fun hcolon => hraw (.inr (.inr hcolon)), root, b, hroot, hp, hinside, hok.1.1, hb, rfl⟩

theorem mem_advertisedPath {f : Path} {c : Char} (h : c ∈ advertisedPath f) : c = '/' ∨ ∃ n ∈ f, c ∈ n := by
  induction f with
  | nil => cases h
  | cons n f ih =>
      cases f with
      | nil => exact .inr ⟨n, List.mem_cons_self, by simpa [advertisedPath, List.intercalate] using h⟩
      | cons m f =>
          have hsplit : advertisedPath (n :: m :: f) = n ++ '/' :: advertisedPath (m :: f) := by
            simp [advertisedPath, List.intercalate]
          rw [hsplit, List.mem_append, List.mem_cons] at h
          rcases h with h | h | h
          · exact .inr ⟨n, List.mem_cons_self, h⟩
          · exact .inl h
          · rcases ih h with h | ⟨k, hk, hc⟩
            · exact .inl h
            · exact .inr ⟨k, List.mem_cons_of_mem _ hk, hc⟩

theorem Accepted.head {root f : Path} (h : Accepted fs skillDir root f) :
    ∃ c, (advertisedPath f).head? = some c ∧ c ≠ '/' := by
  cases f with
  | nil => exact absurd rfl h.nonempty
  | cons n f =>
      obtain ⟨hempty, hslash, -⟩ := h.names n List.mem_cons_self
      cases n with
      | nil => exact absurd rfl hempty
      | cons c n =>
          refine ⟨c, ?_, fun hc => hslash (hc ▸ List.mem_cons_self)⟩
          cases f <;> simp [advertisedPath, List.intercalate]

theorem Accepted.opens_iff {root f : Path} (hroot : fs.resolve skillDir = some root)
    (h : Accepted fs skillDir root f) : Opens fs skillDir f ↔ Readable fs skillDir f := by
  constructor
  · rintro ⟨o, b, hread, hreal, -, -⟩
    obtain ⟨hcolon, root, -, hroot, hp, -, htext, -⟩ := readSkill_spec hread
    exact ⟨hcolon, root, o.file, hroot, hreal, hp, htext⟩
  · rintro ⟨hcolon, root', r, hroot', hreal, hp, htext⟩
    obtain rfl : root = root' := Option.some.inj (hroot.symm.trans hroot')
    obtain ⟨r', hr', hinside⟩ := h.inside
    obtain rfl : r' = r := Option.some.inj (hr'.symm.trans hreal)
    obtain ⟨b, hb, hsniff⟩ := h.text
    rw [fs.bytes_resolve _ _ hreal] at hb
    obtain ⟨c, hc, -⟩ := h.head
    have hempty : advertisedPath f ≠ [] := by
      rintro hnil
      rw [hnil] at hc
      cases hc
    have hnul : Char.ofNat 0 ∉ advertisedPath f := by
      intro hnul
      rcases mem_advertisedPath hnul with hc | ⟨n, hn, hc⟩
      · exact absurd hc (by decide)
      · exact (h.names n hn).2.2.1 hc
    have hescapes : escapesSkillRoot fs (joinClient root (clientPathForm (advertisedPath f))) root = false := by
      simp [escapesSkillRoot, hp, hinside]
    have hbinary : isBinaryBlob fs r' = false := by simpa [isBinaryBlob, hb] using hsniff
    have hsafe : safeSkillPath fs skillDir (advertisedPath f) = some r' := by
      simp [safeSkillPath, hempty, hnul, hcolon, hroot, hescapes, hp]
    refine ⟨{ file := r', path := clientPathForm (advertisedPath f), content := fs.decode b }, b, ?_, hreal, hb, rfl⟩
    simp [readSkill, hsafe, htext, fs.isFile_of_bytes _ _ hb, hbinary, hb]

end Served

def shown (depth limit : Nat) (q : List Char) (searchLimit : Nat) : List Path :=
  (listSkills fs skillDir depth limit).map (·.1) ++ (searchSkills fs skillDir depth q searchLimit).hits.map (·.1)

-- Whatever the tree, nothing leaks, and what is shown can be read exactly when the paths shown are readable.
theorem served_iff (depth limit : Nat) (q : List Char) (searchLimit : Nat) :
    Served fs skillDir depth limit q searchLimit ↔
      ∀ f ∈ shown fs skillDir depth limit q searchLimit, Readable fs skillDir f := by
  have hlist : ∀ item ∈ listSkills fs skillDir depth limit,
      item.1 ∈ skillFiles fs skillDir depth ∧ item.2.path = advertisedPath item.1 := by
    intro item hitem
    rcases listLoop_mem hitem with hmem | hmem
    · cases hmem
    · exact hmem
  have hsearch : ∀ hit ∈ (searchSkills fs skillDir depth q searchLimit).hits,
      hit.1 ∈ skillFiles fs skillDir depth ∧ hit.2.path = advertisedPath hit.1 ∧
        ∃ b, fs.bytes (skillDir ++ hit.1) = some b ∧ hit.2.found = searchFile fs (fs.lower q) b := by
    intro hit hhit
    rcases searchLoop_mem hhit with hmem | hmem
    · cases hmem
    · exact hmem
  have hopens : ∀ f ∈ skillFiles fs skillDir depth, Opens fs skillDir f ↔ Readable fs skillDir f := by
    intro f hf
    obtain ⟨root, hroot, haccepted⟩ := skillFiles_accepted hf
    exact haccepted.opens_iff hroot
  constructor
  · intro h f hf
    rcases List.mem_append.mp hf with hf | hf
    · obtain ⟨item, hitem, rfl⟩ := List.mem_map.mp hf
      exact (hopens _ (hlist item hitem).1).mp (h.listed item hitem).2
    · obtain ⟨hit, hhit, rfl⟩ := List.mem_map.mp hf
      exact (hopens _ (hsearch hit hhit).1).mp (h.found hit hhit).2
  · intro h
    refine ⟨fun item hitem => ⟨(hlist item hitem).2, ?_⟩, fun hit hhit => ⟨(hsearch hit hhit).2.1, ?_⟩, ?_, ?_⟩
    · exact (hopens _ (hlist item hitem).1).mpr (h _ (List.mem_append_left _ (List.mem_map_of_mem hitem)))
    · exact (hopens _ (hsearch hit hhit).1).mpr (h _ (List.mem_append_right _ (List.mem_map_of_mem hhit)))
    · intro raw o hread
      obtain ⟨-, root, b, hroot, hp, hinside, -, hb, hcontent⟩ := readSkill_spec hread
      exact ⟨root, _, b, hroot, hp, hinside, hb, hcontent⟩
    · intro hit hhit
      obtain ⟨hf, -, b, hb, hfound⟩ := hsearch hit hhit
      obtain ⟨root, hroot, haccepted⟩ := skillFiles_accepted hf
      obtain ⟨r, hr, hinside⟩ := haccepted.inside
      exact ⟨root, r, b, hroot, hr, hinside, (fs.bytes_resolve _ _ hr) ▸ hb, hfound⟩

-- A skill named `how:to.md`.
def colonTree : FileSystem where
  resolve := some
  scandir p := if p = ["skills".toList] then [⟨"how:to.md".toList, false, false⟩] else []
  isDir p := p == ["skills".toList]
  isFile p := p == ["skills".toList, "how:to.md".toList]
  bytes p := if p = ["skills".toList, "how:to.md".toList] then some [104, 105] else none
  stat _ := some (2, 0)
  decode b := b.map Char.ofNat
  lines b := [b.map Char.ofNat]
  lower := id
  entry_name p e he := by
    split at he
    · rw [List.mem_singleton.mp he]
      decide
    · cases he
  resolve_append p r q h := by rw [Option.some.inj h]
  bytes_resolve p r h := by rw [Option.some.inj h]
  isFile_of_bytes p b h := by
    obtain ⟨rfl, -⟩ := Option.ite_none_right_eq_some.mp h
    rfl

theorem colon_not_served : ¬∀ (fs : FileSystem) (skillDir : Path) (depth limit : Nat) (q : List Char)
    (searchLimit : Nat), Served fs skillDir depth limit q searchLimit := by
  intro h
  have hserved := h colonTree ["skills".toList] 1 200 [] 60
  have hlisted : ((listSkills colonTree ["skills".toList] 1 200).map (·.1)) = [["how:to.md".toList]] := by decide
  obtain ⟨item, hitem, hfile⟩ := List.mem_map.mp (hlisted ▸ List.mem_singleton.mpr rfl :
    ["how:to.md".toList] ∈ (listSkills colonTree ["skills".toList] 1 200).map (·.1))
  obtain ⟨-, o, b, hread, -⟩ := hserved.listed item hitem
  rw [hfile] at hread
  exact (readSkill_spec hread).1 (by decide)

end GaHub.Memory.Skills
