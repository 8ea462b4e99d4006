import GaHub.Lib.CachedFile
import GaHub.Lib.Machine
import GaHub.Lib.Text
import Mathlib.Data.List.Nodup

namespace GaHub.SessionMetadata

open Lib CachedFile

abbrev SessionId := String

-- A row of `sessions.json`; `Theme` is what a theme task keeps in it.
structure Row (Theme : Type) where
  id : SessionId
  kind : Option String := none
  title : String := ""
  llmKey : Option String := none
  llmIndex : Option Int := none
  status : String := "idle"
  archivePath : Option String := none
  projectName : Option String := none
  projectPath : Option String := none
  themeTask : Option Theme := none
  createdAt : String
  updatedAt : String
  deriving DecidableEq

structure Document (Theme : Type) where
  schemaVersion : Nat := 1
  sessions : List (Row Theme) := []
  deriving DecidableEq

inductive Error where
  | sessionNotFound (session : SessionId)
  | boundElsewhere (session : SessionId)
  deriving DecidableEq

-- The keys of `changes` that are there.
structure Changes (Theme : Type) where
  title : Option String := none
  llmKey : Option (Option String) := none
  llmIndex : Option (Option Int) := none
  themeTask : Option (Option Theme) := none
  projectName : Option (Option String) := none
  projectPath : Option (Option String) := none
  deriving DecidableEq

inductive Operation (Theme : Type) where
  | list
  | get (session : SessionId)
  | create (session : SessionId) (title kind : String) (llmKey : Option String) (llmIndex : Option Int) (now : String)
  | update (session : SessionId) (changes : Changes Theme)
  | touch (session : SessionId) (now : String)
  | bindArchive (session : SessionId) (archivePath now : String)
  | findByArchive (archivePath : String)
  | rotateArchive (session : SessionId) (archivePath now : String)
  | upsertArchive (stableId : SessionId) (archivePath title now : String)
  | deleteByArchive (archivePath : String)
  | delete (session : SessionId)
  deriving DecidableEq

inductive Answer (Theme : Type) where
  | rows (rows : List (Row Theme))
  | row (row : Row Theme)
  -- what `ensure` returns
  | ensured (row : Row Theme) (created : Bool)
  | found (row : Option (Row Theme))
  | deleted (any : Bool)
  | done
  deriving DecidableEq

section Effects

-- `str(Path(path).resolve())`
variable {Theme : Type} (resolve : String → String)

-- `value.strip() if isinstance(value, str) and value.strip() else None`
def cleaned (value : Option String) : Option String := (value.map strip).filter fun text => decide (text ≠ "")

def Row.changed (row : Row Theme) (changes : Changes Theme) : Row Theme :=
  { row with
    title := (changes.title.map strip).getD row.title
    llmKey := (changes.llmKey.map cleaned).getD row.llmKey
    llmIndex := changes.llmIndex.getD row.llmIndex
    themeTask := changes.themeTask.getD row.themeTask
    projectName := (changes.projectName.map cleaned).getD row.projectName
    projectPath := (changes.projectPath.map cleaned).getD row.projectPath }

-- The archive a row is bound to, resolved.
def Row.archive (row : Row Theme) : Option String := (row.archivePath.filter fun path => decide (path ≠ "")).map resolve

variable (doc : Document Theme)

-- `_write` raises the version.
def store (sessions : List (Row Theme)) (answer : Answer Theme) :
    CachedFile.Effect (Document Theme) Error (Answer Theme) :=
  .writes { schemaVersion := 2, sessions } answer

-- The first row for which the test holds is changed where it stands.
def Document.replace (test : Row Theme → Bool) (row : Row Theme) (answer : Answer Theme) :
    CachedFile.Effect (Document Theme) Error (Answer Theme) :=
  store (doc.sessions.modify (doc.sessions.findIdx test) fun _ => row) answer

def Document.row? (session : SessionId) : Option (Row Theme) := doc.sessions.find? fun row => decide (row.id = session)

def Document.replaceRow (session : SessionId) (row : Row Theme) (answer : Answer Theme) :
    CachedFile.Effect (Document Theme) Error (Answer Theme) :=
  doc.replace (fun row => decide (row.id = session)) row answer

def effect (operation : Operation Theme) : CachedFile.Effect (Document Theme) Error (Answer Theme) :=
  match operation with
  | .list => .returns (.rows (doc.sessions.mergeSort fun a b => decide (b.updatedAt ≤ a.updatedAt)))
  | .get session =>
    match doc.row? session with
    | some row => .returns (.row row)
    | none => .raises (.sessionNotFound session)
  | .create session title kind llmKey llmIndex now =>
    let row : Row Theme :=
      { id := session, kind := some kind, title := strip title, llmKey, llmIndex, createdAt := now, updatedAt := now }
    store (doc.sessions ++ [row]) (.row row)
  | .update session changes =>
    match doc.row? session with
    | some row => doc.replaceRow session (row.changed changes) (.row (row.changed changes))
    | none => .raises (.sessionNotFound session)
  | .touch session now =>
    match doc.row? session with
    | some row => doc.replaceRow session { row with updatedAt := now } .done
    | none => .raises (.sessionNotFound session)
  | .bindArchive session archivePath now =>
    match doc.row? session with
    | some row =>
      if row.archive resolve = none ∨ row.archive resolve = some (resolve archivePath) then
        let row := { row with archivePath := some (resolve archivePath), updatedAt := now }
        doc.replaceRow session row (.row row)
      else .raises (.boundElsewhere session)
    | none => .raises (.sessionNotFound session)
  | .findByArchive archivePath =>
    .returns (.found (doc.sessions.find? fun row => decide (row.archive resolve = some (resolve archivePath))))
  | .rotateArchive session archivePath now =>
    match doc.row? session with
    | some row =>
      let row := { row with archivePath := some (resolve archivePath), updatedAt := now }
      doc.replaceRow session row (.row row)
    | none => .raises (.sessionNotFound session)
  | .upsertArchive stableId archivePath title now =>
    match doc.sessions.find? fun row => decide (row.archive resolve = some (resolve archivePath)) with
    | some row =>
      let row := { row with title := strip title }
      doc.replace (fun row => decide (row.archive resolve = some (resolve archivePath))) row (.row row)
    | none =>
      match doc.row? stableId with
      | some row =>
        if row.archive resolve = none ∨ row.archive resolve = some (resolve archivePath) then
          let row := { row with archivePath := some (resolve archivePath), title := strip title }
          doc.replaceRow stableId row (.row row)
        else .raises (.boundElsewhere stableId)
      | none =>
        let row : Row Theme :=
          { id := stableId, title := strip title, archivePath := some (resolve archivePath), createdAt := now
            updatedAt := now }
        store (doc.sessions ++ [row]) (.row row)
  | .deleteByArchive archivePath =>
    let kept := doc.sessions.filter fun row => decide (row.archive resolve ≠ some (resolve archivePath))
    if kept.length = doc.sessions.length then .returns (.deleted false) else store kept (.deleted true)
  | .delete session =>
    let kept := doc.sessions.filter fun row => decide (row.id ≠ session)
    if kept.length = doc.sessions.length then .raises (.sessionNotFound session) else store kept .done

end Effects

abbrev Signature := Nat × Nat

abbrev Outcome (Theme : Type) := Except (Fault ⊕ Error) (Answer Theme)

def ensured {Theme : Type} (created : Bool) : Outcome Theme → Outcome Theme
  | .ok (.row row) => .ok (.ensured row created)
  | outcome => outcome

inductive Action (Theme : Type) where
  | call (operation : Operation Theme) (f : Faults Signature)
  -- `get`, and where the session is not found `create`
  | ensure (session : SessionId) (title kind now : String) (f g : Faults Signature)

-- What the store's instances share, and what their operations returned.
structure State (Theme : Type) where
  store : CachedFile.State Signature (Document Theme) := {}
  outcomes : List (Outcome Theme) := []

-- The same with no cache and no file: whether a call fails is all that is left of the faults.
inductive SpecAction (Theme : Type) where
  | call (operation : Operation Theme) (failed : Bool)
  | ensure (session : SessionId) (title kind now : String) (failed failed' : Bool)

structure Spec (Theme : Type) where
  content : Option (Option (Document Theme)) := none
  outcomes : List (Outcome Theme) := []

section Machines

variable {Theme : Type} [DecidableEq Theme] (resolve : String → String)

abbrev creation (session : SessionId) (title kind now : String) : Operation Theme :=
  .create session title kind none none now

def act (store : CachedFile.State Signature (Document Theme)) (operation : Operation Theme) (f : Faults Signature) :
    CachedFile.State Signature (Document Theme) × Outcome Theme :=
  perform {} f store fun doc => effect resolve doc operation

-- A call holds the lock of the file from its read to its write, so calls take place one after another.
def State.next (s : State Theme) : Action Theme → Option (State Theme)
  | .call operation f =>
    let done := act resolve s.store operation f
    some { store := done.1, outcomes := s.outcomes ++ [done.2] }
  | .ensure session title kind now f g =>
    let got := act resolve s.store (.get session) f
    if got.2 = .error (.inr (.sessionNotFound session)) then
      let done := act resolve got.1 (creation session title kind now) g
      some { store := done.1, outcomes := s.outcomes ++ [ensured true done.2] }
    else some { store := got.1, outcomes := s.outcomes ++ [ensured false got.2] }

def machine (file : Option (File Signature (Document Theme))) : Machine (State Theme) (Action Theme) where
  start := { store := { file } }
  next := State.next resolve

def specAct (content : Option (Option (Document Theme))) (operation : Operation Theme) (failed : Bool) :
    Option (Option (Document Theme)) × Outcome Theme :=
  apply {} (fun doc => effect resolve doc operation) failed content

def Spec.next (s : Spec Theme) : SpecAction Theme → Option (Spec Theme)
  | .call operation failed =>
    let done := specAct resolve s.content operation failed
    some { content := done.1, outcomes := s.outcomes ++ [done.2] }
  | .ensure session title kind now failed failed' =>
    let got := specAct resolve s.content (.get session) failed
    if got.2 = .error (.inr (.sessionNotFound session)) then
      let done := specAct resolve got.1 (creation session title kind now) failed'
      some { content := done.1, outcomes := s.outcomes ++ [ensured true done.2] }
    else some { content := got.1, outcomes := s.outcomes ++ [ensured false got.2] }

def specification (content : Option (Option (Document Theme))) : Machine (Spec Theme) (SpecAction Theme) where
  start := { content }
  next := Spec.next resolve

def State.spec (s : State Theme) : Spec Theme := ⟨s.store.content, s.outcomes⟩

-- The same call, which fails where something is in its way only.
inductive Matches : Action Theme → SpecAction Theme → Prop where
  | call {operation f failed} (h : failed = true → f.fails = true) :
      Matches (.call operation f) (.call operation failed)
  | ensure {session title kind now f g failed failed'} (h : failed = true → f.fails = true)
      (h' : failed' = true → g.fails = true) :
      Matches (.ensure session title kind now f g) (.ensure session title kind now failed failed')

end Machines

section Refinement

variable {Theme : Type} {resolve : String → String} {file : Option (File Signature (Document Theme))}
  {s t : State Theme} {a : Action Theme} {store : CachedFile.State Signature (Document Theme)}
  {operation : Operation Theme}
  {f : Faults Signature}

theorem act_coherent (resolve : String → String) (h : Coherent store) (operation : Operation Theme)
    (f : Faults Signature) :
    Coherent (act resolve store operation f).1 := (perform_spec h).1

theorem act_refines (resolve : String → String) (h : Coherent store) (operation : Operation Theme)
    (f : Faults Signature) :
    ∃ failed, (failed = true → f.fails = true) ∧ specAct resolve store.content operation failed =
      ((act resolve store operation f).1.content, (act resolve store operation f).2) :=
  (perform_spec h).2.imp fun _ h => ⟨h.1, h.2.symm⟩

variable [DecidableEq Theme]

theorem coherent_next (h : Coherent s.store) (hnext : s.next resolve a = some t) : Coherent t.store := by
  cases a with
  | call operation f =>
      cases hnext
      exact act_coherent resolve h operation f
  | ensure session title kind now f g =>
      have hget := act_coherent resolve h (.get session) f
      simp only [State.next] at hnext
      split at hnext <;> cases hnext
      · exact act_coherent resolve hget _ g
      · exact hget

theorem next_refines (h : Coherent s.store) (hnext : s.next resolve a = some t) :
    ∃ b, Matches a b ∧ s.spec.next resolve b = some t.spec := by
  cases a with
  | call operation f =>
      obtain ⟨failed, hfails, hspec⟩ := act_refines resolve h operation f
      cases hnext
      refine ⟨.call operation failed, .call hfails, ?_⟩
      simp only [Spec.next, State.spec, hspec]
  | ensure session title kind now f g =>
      obtain ⟨failed, hfails, hspec⟩ := act_refines resolve h (.get session) f
      obtain ⟨failed', hfails', hspec'⟩ := act_refines resolve (act_coherent resolve h (.get session) f)
        (creation session title kind now) g
      refine ⟨.ensure session title kind now failed failed', .ensure hfails hfails', ?_⟩
      simp only [State.next] at hnext
      simp only [Spec.next, State.spec, hspec]
      split at hnext
      · rename_i hmissing
        cases hnext
        rw [if_pos hmissing, hspec']
      · rename_i hfound
        cases hnext
        rw [if_neg hfound]

theorem run_refines {u : State Theme} {as : List (Action Theme)} (hu : Coherent u.store)
    (h : (machine resolve file).run u as = some s) :
    ∃ bs, List.Forall₂ Matches as bs ∧
      (specification resolve (file.map File.content)).run u.spec bs = some s.spec := by
  induction as generalizing u with
  | nil =>
      cases h
      exact ⟨[], .nil, rfl⟩
  | cons a as ih =>
      obtain ⟨v, hnext, hrest⟩ := Option.bind_eq_some_iff.mp h
      obtain ⟨b, hmatches, hspec⟩ := next_refines hu hnext
      obtain ⟨bs, hall, hrun⟩ := ih (coherent_next hu hnext) hrest
      refine ⟨b :: bs, .cons hmatches hall, ?_⟩
      simp only [Machine.run, specification, hspec, Option.bind_some]
      exact hrun

-- Every run of the store is one without a cache: its calls return the same, and a call that fails changes nothing.
theorem metadata_store_refines {as : List (Action Theme)}
    (h : (machine resolve file).run { store := { file } } as = some s) :
    ∃ bs, List.Forall₂ Matches as bs ∧
      (specification resolve (file.map File.content)).run { content := file.map File.content } bs = some s.spec :=
  run_refines (Coherent.start file) h

-- A channel's session is made and bound. The third call does not get its file written.
def bindings : List (Action Unit) :=
  [.ensure "wechat" "WeChat" "channel" "t1" { sig := (1, 1) } { sig := (1, 200) },
    .call (.bindArchive "wechat" "/log.txt" "t2") { sig := (2, 210) },
    .call (.touch "wechat" "t3") { saveFails := true, sig := (3, 210) },
    .call (.bindArchive "wechat" "/other.txt" "t4") { statFails := true, sig := (4, 220) },
    .call (.delete "gone") { sig := (5, 220) }]

theorem metadata_store_refines_bindings : ∃ s bs, List.Forall₂ Matches bindings bs ∧
    (specification id none).run {} bs = some (State.spec s) := by
  have hrun : ((machine id none).run {} bindings).isSome = true := rfl
  obtain ⟨s, hs⟩ := Option.isSome_iff_exists.mp hrun
  exact ⟨s, metadata_store_refines hs⟩

end Refinement

section Rows

variable {Theme : Type} {resolve : String → String} {rows rows' : List (Row Theme)} {operation : Operation Theme}
  {session : SessionId} {p : String}

-- What a call writes: a row behind the others, a row in the place of one with its id, or the rows without some.
inductive Change (resolve : String → String) (operation : Operation Theme) (rows : List (Row Theme)) :
    List (Row Theme) → Prop
  | created (row : Row Theme) (hnew : row.id ∉ rows.map Row.id ∨
      ∃ title kind llmKey llmIndex now, operation = .create row.id title kind llmKey llmIndex now) :
      Change resolve operation rows (rows ++ [row])
  | replaced {i : Nat} {row : Row Theme} (row' : Row Theme) (hrow : rows[i]? = some row) (hid : row'.id = row.id)
      (harchive : (∀ p, row.archive resolve = some p → row'.archive resolve = some p) ∨
        ∃ archivePath now, operation = .rotateArchive row.id archivePath now) :
      Change resolve operation rows (rows.modify i fun _ => row')
  | removed (keep : Row Theme → Bool) (hkeep : ∀ row, keep row = false → operation = .delete row.id ∨
      ∃ archivePath, operation = .deleteByArchive archivePath ∧ row.archive resolve = some (resolve archivePath)) :
      Change resolve operation rows (rows.filter keep)

theorem replaced_ids {i : Nat} {row row' : Row Theme} (hrow : rows[i]? = some row) (hid : row'.id = row.id) :
    (rows.modify i fun _ => row').map Row.id = rows.map Row.id := by
  refine List.ext_getElem? fun j => ?_
  simp only [List.getElem?_map, List.getElem?_modify]
  split
  · rename_i hij
    subst hij
    rw [hrow]
    exact congrArg some hid
  · simp

theorem row?_iff {doc : Document Theme} {row : Row Theme} (h : doc.row? session = some row) :
    row.id = session ∧ doc.sessions[doc.sessions.findIdx fun row => decide (row.id = session)]? = some row := by
  have h : doc.sessions.find? (fun row => decide (row.id = session)) = some row := h
  exact ⟨of_decide_eq_true (List.find?_some (p := fun row : Row Theme => decide (row.id = session)) h),
    List.find?_eq_getElem?_findIdx ▸ h⟩

theorem row?_none {doc : Document Theme} (h : doc.row? session = none) : session ∉ doc.sessions.map Row.id := by
  intro hmem
  obtain ⟨row, hrow, hid⟩ := List.mem_map.mp hmem
  exact absurd (decide_eq_true hid) (List.find?_eq_none.mp h row hrow)

-- A resolved path is an absolute one, and resolved.
structure Resolves (resolve : String → String) : Prop where
  idempotent : ∀ path, resolve (resolve path) = resolve path
  absolute : ∀ path, resolve path ≠ ""

def absolute (path : String) : String := if path = "" then "/" else path

theorem absolute_resolves : Resolves absolute := by
  constructor <;> intro path <;> by_cases h : path = "" <;> simp [absolute, h]

theorem archive_resolved (hresolve : Resolves resolve) {row : Row Theme} {archivePath : String}
    (hpath : row.archivePath = some (resolve archivePath)) : row.archive resolve = some (resolve archivePath) := by
  simp [Row.archive, hpath, hresolve.absolute, hresolve.idempotent]

theorem rebound (hresolve : Resolves resolve) {row row' : Row Theme} {archivePath : String}
    (h : row.archive resolve = none ∨ row.archive resolve = some (resolve archivePath))
    (hpath : row'.archivePath = some (resolve archivePath)) (hp : row.archive resolve = some p) :
    row'.archive resolve = some p := by
  rcases h with h | h
  · rw [h] at hp
    cases hp
  · rw [archive_resolved hresolve hpath, ← h, hp]

theorem effect_change (hresolve : Resolves resolve) {doc doc' : Document Theme} {answer : Answer Theme}
    (h : effect resolve doc operation = .writes doc' answer) : Change resolve operation doc.sessions doc'.sessions := by
  cases operation with
  | list | findByArchive archivePath => cases h
  | get session =>
      simp only [effect] at h
      split at h <;> cases h
  | create session title kind llmKey llmIndex now =>
      cases h
      exact .created _ (.inr ⟨title, kind, llmKey, llmIndex, now, rfl⟩)
  | update session changes | touch session now =>
      simp only [effect] at h
      split at h
      · rename_i row hrow
        cases h
        exact .replaced _ (row?_iff hrow).2 rfl (.inl fun _ => id)
      · cases h
  | bindArchive session archivePath now =>
      simp only [effect] at h
      split at h
      · rename_i row hrow
        split at h
        · rename_i hfree
          cases h
          exact .replaced _ (row?_iff hrow).2 rfl (.inl fun _ => rebound hresolve hfree rfl)
        · cases h
      · cases h
  | rotateArchive session archivePath now =>
      simp only [effect] at h
      split at h
      · rename_i row hrow
        obtain ⟨rfl, hat⟩ := row?_iff hrow
        cases h
        exact .replaced _ hat rfl (.inr ⟨archivePath, now, rfl⟩)
      · cases h
  | upsertArchive stableId archivePath title now =>
      simp only [effect] at h
      split at h
      · rename_i row hrow
        rw [List.find?_eq_getElem?_findIdx] at hrow
        cases h
        exact .replaced _ hrow rfl (.inl fun _ => id)
      · split at h
        · rename_i row hrow
          split at h
          · rename_i hfree
            cases h
            exact .replaced _ (row?_iff hrow).2 rfl (.inl fun _ => rebound hresolve hfree rfl)
          · cases h
        · rename_i hrow
          cases h
          exact .created _ (.inl (row?_none hrow))
  | deleteByArchive archivePath =>
      simp only [effect] at h
      split at h <;> cases h
      refine .removed _ fun row hrow => .inr ⟨archivePath, rfl, ?_⟩
      simpa using hrow
  | delete session =>
      simp only [effect] at h
      split at h <;> cases h
      refine .removed _ fun row hrow => .inl ?_
      have hid : row.id = session := by simpa using hrow
      rw [hid]

def rowsOf (content : Option (Option (Document Theme))) : List (Row Theme) :=
  ((document {} content).map Document.sessions).getD []

theorem rowsOf_document {content : Option (Option (Document Theme))} {doc : Document Theme}
    (h : document {} content = some doc) : rowsOf content = doc.sessions := by rw [rowsOf, h]; rfl

theorem apply_change (hresolve : Resolves resolve) (content : Option (Option (Document Theme)))
    (operation : Operation Theme) (failed : Bool) :
    rowsOf (specAct resolve content operation failed).1 = rowsOf content ∨
      Change resolve operation (rowsOf content) (rowsOf (specAct resolve content operation failed).1) := by
  unfold specAct apply
  split
  · exact .inl rfl
  · split
    · exact .inl rfl
    · rename_i doc hdoc
      split
      · exact .inl rfl
      · exact .inl rfl
      · rename_i doc' value heffect
        refine .inr ?_
        rw [rowsOf_document hdoc, rowsOf_document (show document {} (some (some doc')) = some doc' from rfl)]
        exact effect_change hresolve heffect

theorem get_content (content : Option (Option (Document Theme))) (failed : Bool) :
    (specAct resolve content (.get session) failed).1 = content := by
  unfold specAct apply
  split
  · rfl
  · split
    · rfl
    · simp only [effect]
      cases Document.row? _ session <;> rfl

theorem get_missing {content : Option (Option (Document Theme))} {failed : Bool}
    (h : (specAct resolve content (.get session) failed).2 = .error (.inr (.sessionNotFound session))) :
    session ∉ (rowsOf content).map Row.id := by
  unfold specAct apply at h
  split at h
  · cases h
  · split at h
    · cases h
    · rename_i doc hdoc
      rw [rowsOf_document hdoc]
      refine row?_none ?_
      cases hrow : doc.row? session with
      | none => rfl
      | some row =>
          simp only [effect, hrow] at h
          cases h

def bound (resolve : String → String) (session : SessionId) (rows : List (Row Theme)) : Option String :=
  (rows.find? fun row => decide (row.id = session)).bind fun row => row.archive resolve

-- A call that may take the binding of the session to the archive away.
def unbinds (resolve : String → String) (session : SessionId) (p : String) : Operation Theme → Bool
  | .rotateArchive session' _ _ | .delete session' => decide (session' = session)
  | .deleteByArchive archivePath => decide (resolve archivePath = p)
  | _ => false

theorem bound_iff : bound resolve session rows = some p ↔
    ∃ row, rows.find? (fun row => decide (row.id = session)) = some row ∧ row.archive resolve = some p :=
  Option.bind_eq_some_iff

theorem bound_change (h : Change resolve operation rows rows') (hkept : unbinds resolve session p operation = false)
    (hbound : bound resolve session rows = some p) : bound resolve session rows' = some p := by
  obtain ⟨row, hrow, hp⟩ := bound_iff.mp hbound
  have hid : row.id = session :=
    of_decide_eq_true (List.find?_some (p := fun row : Row Theme => decide (row.id = session)) hrow)
  refine bound_iff.mpr ?_
  cases h with
  | created row' _ => exact ⟨row, by rw [List.find?_append, hrow]; rfl, hp⟩
  | replaced row' hat hid' harchive =>
      rename_i i old
      -- the ids stand where they stood, and with them the session's first row
      have hfirst : (rows.modify i fun _ => row').findIdx (fun row => decide (row.id = session)) =
          rows.findIdx fun row => decide (row.id = session) := by
        have hmap : ∀ rows : List (Row Theme), rows.findIdx (fun row => decide (row.id = session)) =
            (rows.map Row.id).findIdx fun id => decide (id = session) := fun _ => by rw [List.findIdx_map]; rfl
        rw [hmap, hmap, replaced_ids hat hid']
      rw [List.find?_eq_getElem?_findIdx] at hrow
      rw [List.find?_eq_getElem?_findIdx, hfirst, List.getElem?_modify, hrow]
      split
      · rename_i hi
        cases hat.symm.trans (hi ▸ hrow)
        refine ⟨row', rfl, harchive.elim (fun h => h p hp) ?_⟩
        rintro ⟨archivePath, now, rfl⟩
        simp [unbinds, hid] at hkept
      · exact ⟨row, rfl, hp⟩
  | removed keep hkeep =>
      obtain ⟨hq, before, behind, rfl, hbefore⟩ := List.find?_eq_some_iff_append.mp hrow
      have hstays : keep row = true := by
        cases hk : keep row with
        | true => rfl
        | false =>
            rcases hkeep row hk with rfl | ⟨archivePath, rfl, harchive⟩
            · simp [unbinds, hid] at hkept
            · cases hp.symm.trans harchive
              simp [unbinds] at hkept
      refine ⟨row, List.find?_eq_some_iff_append.mpr ⟨hq, before.filter keep, behind.filter keep, ?_, ?_⟩, hp⟩
      · rw [List.filter_append, List.filter_cons_of_pos hstays]
      · exact fun a ha => hbefore a (List.mem_of_mem_filter ha)

theorem nodup_change (h : Change resolve operation rows rows')
    (hfresh : ∀ session title kind llmKey llmIndex now, operation = .create session title kind llmKey llmIndex now →
      session ∉ rows.map Row.id) (hnodup : (rows.map Row.id).Nodup) : (rows'.map Row.id).Nodup := by
  cases h with
  | created row hnew =>
      have hrow : row.id ∉ rows.map Row.id := by
        rcases hnew with hnew | ⟨title, kind, llmKey, llmIndex, now, hop⟩
        · exact hnew
        · exact hfresh _ _ _ _ _ _ hop
      rw [List.map_append, List.map_singleton]
      exact List.nodup_append.mpr ⟨hnodup, List.nodup_singleton _, by
        rintro id hid _ hlast rfl
        exact hrow (List.mem_singleton.mp hlast ▸ hid)⟩
  | replaced row' hat hid' _ => rwa [replaced_ids hat hid']
  | removed keep _ => exact hnodup.sublist (List.filter_sublist.map Row.id)

end Rows

section Runs

variable {Theme : Type} [DecidableEq Theme] {resolve : String → String}
  {file : Option (File Signature (Document Theme))} {s t : State Theme} {a : Action Theme} {as : List (Action Theme)}
  {store : CachedFile.State Signature (Document Theme)}
  {f : Faults Signature} {session : SessionId} {p : String}

def State.rows (s : State Theme) : List (Row Theme) := rowsOf s.store.content

omit [DecidableEq Theme] in
theorem act_change (hresolve : Resolves resolve) (h : Coherent store) (operation : Operation Theme)
    (f : Faults Signature) :
    rowsOf (act resolve store operation f).1.content = rowsOf store.content ∨
      Change resolve operation (rowsOf store.content) (rowsOf (act resolve store operation f).1.content) := by
  obtain ⟨failed, -, hspec⟩ := act_refines resolve h operation f
  have hchange := apply_change hresolve store.content operation failed
  rwa [hspec] at hchange

-- What every change keeps that a call may make, a step keeps. For the session that is not found, `ensure` makes a row
-- that no other one has the id of.
theorem rows_next {P : List (Row Theme) → Prop} (hresolve : Resolves resolve) (h : Coherent s.store)
    (hnext : s.next resolve a = some t)
    (hcall : ∀ operation f rows, a = .call operation f → Change resolve operation s.rows rows → P s.rows → P rows)
    (hensure : ∀ session title kind now rows, session ∉ s.rows.map Row.id →
      Change resolve (creation session title kind now) s.rows rows → P s.rows → P rows)
    (hP : P s.rows) : P t.rows := by
  cases a with
  | call operation f =>
      cases hnext
      rcases act_change hresolve h operation f with hsame | hchange
      · rwa [State.rows, hsame]
      · exact hcall operation f _ rfl hchange hP
  | ensure session title kind now f g =>
      obtain ⟨failed, -, hspec⟩ := act_refines resolve h (.get session) f
      have hgot : rowsOf (act resolve s.store (.get session) f).1.content = s.rows :=
        congrArg rowsOf ((congrArg Prod.fst hspec).symm.trans (get_content s.store.content failed))
      simp only [State.next] at hnext
      split at hnext
      · rename_i hmissing
        have hnew : session ∉ s.rows.map Row.id := get_missing ((congrArg Prod.snd hspec).trans hmissing)
        cases hnext
        have hgot' : Coherent (act resolve s.store (.get session) f).1 := act_coherent resolve h (.get session) f
        rcases act_change hresolve hgot' (creation session title kind now) g with hsame | hchange
        · rw [hgot] at hsame
          rwa [State.rows, hsame]
        · rw [hgot] at hchange
          exact hensure session title kind now _ hnew hchange hP
      · cases hnext
        rwa [State.rows, hgot]

-- Where a session is given no id, it gets a new one.
def fresh (s : State Theme) : Action Theme → Bool
  | .call (.create session _ _ _ _ _) _ => decide (session ∉ s.rows.map Row.id)
  | _ => true

-- The file has at most one row for an id, whatever the calls and their failures are.
theorem ids_stay_unique (hresolve : Resolves resolve) (hfile : ((rowsOf (file.map File.content)).map Row.id).Nodup)
    (h : ((machine resolve file).restrict fun s a => fresh s a = true).run { store := { file } } as = some s) :
    (s.rows.map Row.id).Nodup := by
  refine (Machine.run_invariant (P := fun s : State Theme => Coherent s.store ∧ (s.rows.map Row.id).Nodup) ?_ as
    (s := { store := { file } }) ⟨Coherent.start file, hfile⟩ h).2
  intro s a t hs hnext
  obtain ⟨hfresh, (hnext : s.next resolve a = some t)⟩ := Machine.restrict_next hnext
  refine ⟨coherent_next hs.1 hnext, rows_next (P := fun rows => (rows.map Row.id).Nodup) hresolve hs.1 hnext ?_ ?_ hs.2⟩
  · rintro operation f rows rfl hchange hnodup
    refine nodup_change hchange ?_ hnodup
    rintro session title kind llmKey llmIndex now rfl
    exact of_decide_eq_true hfresh
  · intro session title kind now rows hnew hchange hnodup
    refine nodup_change hchange ?_ hnodup
    rintro _ _ _ _ _ _ ⟨⟩
    exact hnew

def Action.unbinds (resolve : String → String) (session : SessionId) (p : String) : Action Theme → Bool
  | .call operation _ => SessionMetadata.unbinds resolve session p operation
  | .ensure _ _ _ _ _ _ => false

theorem ids_stay_unique_bindings : ∃ s : State Unit, (s.rows.map Row.id).Nodup ∧ s.rows.length = 1 := by
  have hrun : (((machine absolute none).restrict fun s a => fresh s a = true).run {} bindings).map
      (fun s => s.rows.length) = some 1 := rfl
  obtain ⟨s, hs, hlength⟩ := Option.map_eq_some_iff.mp hrun
  exact ⟨s, ids_stay_unique absolute_resolves (by exact List.nodup_nil) hs, hlength⟩

-- A session stays bound to its archive, whatever other calls are made and whichever of them fail.
theorem binding_kept (hresolve : Resolves resolve) (hs : (machine resolve file).Reachable s)
    (hbound : bound resolve session s.rows = some p)
    (h : ((machine resolve file).restrict fun _ a => a.unbinds resolve session p = false).run s as = some t) :
    bound resolve session t.rows = some p := by
  have hcoherent : Coherent s.store := hs.invariant (Coherent.start file) fun _ _ _ => coherent_next
  refine (Machine.run_invariant (P := fun s : State Theme => Coherent s.store ∧ bound resolve session s.rows = some p)
    ?_ as ⟨hcoherent, hbound⟩ h).2
  intro s a t hs hnext
  obtain ⟨hkept, (hnext : s.next resolve a = some t)⟩ := Machine.restrict_next hnext
  refine ⟨coherent_next hs.1 hnext,
    rows_next (P := fun rows => bound resolve session rows = some p) hresolve hs.1 hnext ?_ ?_ hs.2⟩
  · rintro operation f rows rfl hchange hbound
    exact bound_change hchange hkept hbound
  · intro session title kind now rows _ hchange hbound
    exact bound_change hchange rfl hbound

theorem binding_kept_bindings : ∃ t : State Unit,
    bound absolute "wechat" t.rows = some "/log.txt" ∧ t.outcomes.length = 6 := by
  have hrun : ((machine absolute none).run {} bindings).map (fun s => bound absolute "wechat" s.rows) =
      some (some "/log.txt") := rfl
  obtain ⟨s, hs, hbound⟩ := Option.map_eq_some_iff.mp hrun
  have hlonger : ((((machine absolute none).run {} bindings).bind fun s => ((machine absolute none).restrict fun _ a =>
      a.unbinds absolute "wechat" "/log.txt" = false).run s
        [.call (.upsertArchive "archive-1" "/old.txt" "Old" "t5") { sig := (6, 300) }]).map
          fun t => t.outcomes.length) = some 6 := rfl
  rw [hs, Option.bind_some] at hlonger
  obtain ⟨t, ht, hlength⟩ := Option.map_eq_some_iff.mp hlonger
  exact ⟨t, binding_kept absolute_resolves ⟨bindings, hs⟩ hbound ht, hlength⟩

end Runs

end GaHub.SessionMetadata
