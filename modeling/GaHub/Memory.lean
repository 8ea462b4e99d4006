import Mathlib
import GaHub.Lib.Machine

namespace GaHub.Memory

abbrev EditorId := Nat
abbrev CallId := Nat
abbrev Digest := String

-- A file under the memory path. A replacement always has an inode of its own.
structure MemoryFile where
  ino : Nat
  data : ByteArray
  mtimeNs : String
  mode : Nat
  deriving DecidableEq

structure MemorySnapshot where
  present : Bool
  data : ByteArray
  content : String
  mtimeNs : Option String
  sha256 : Option Digest
  mode : Option Nat
  deriving DecidableEq

abbrev Version := Option String × Option Digest

def MemorySnapshot.version (s : MemorySnapshot) : Version := (s.mtimeNs, s.sha256)

def missing : MemorySnapshot := ⟨false, .empty, "", none, none, none⟩

def bom : ByteArray := ⟨#[0xef, 0xbb, 0xbf]⟩

-- `bytes.decode("utf-8-sig")`: a mark at the start is skipped.
def decode (data : ByteArray) : Option String :=
  (String.fromUTF8? data).map fun text =>
    match text.toList with
    | '\uFEFF' :: rest => .ofList rest
    | _ => text

def normalizeNewlines : List Char → List Char
  | '\r' :: '\n' :: rest => '\n' :: normalizeNewlines rest
  | '\r' :: rest => '\n' :: normalizeNewlines rest
  | c :: rest => c :: normalizeNewlines rest
  | [] => []

def countCrlf : List Char → Nat
  | '\r' :: '\n' :: rest => countCrlf rest + 1
  | _ :: rest => countCrlf rest
  | [] => 0

def withNewline (newline : List Char) (text : List Char) : List Char :=
  text.flatMap fun c => if c = '\n' then newline else [c]

-- `_encode_like`: the newlines and the mark of the file that is replaced.
def encodeLike (snapshot : MemorySnapshot) (content : String) : ByteArray :=
  let normalized := normalizeNewlines content.toList
  let old := snapshot.content.toList
  let crlf := countCrlf old
  let loneLf := old.count '\n' - crlf
  let loneCr := old.count '\r' - crlf
  let text :=
    if snapshot.present then
      if crlf > loneLf ∧ crlf ≥ loneCr then withNewline ['\r', '\n'] normalized
      else if loneCr > loneLf ∧ loneCr > crlf then withNewline ['\r'] normalized
      else normalized
    else normalized
  let encoded := (String.ofList text).toUTF8
  if snapshot.data.data.toList.take 3 = bom.data.toList then bom ++ encoded else encoded

-- Where a `_snapshot` stands: before `open`, or between `fstat` and `stat`.
inductive Reading where
  | opening (attempt : Nat)
  | opened (attempt : Nat) (file : MemoryFile)
  deriving DecidableEq

inductive ReadStep where
  | again (r : Reading)
  | done (s : MemorySnapshot)
  | raised

section Reads

variable (sha256 : ByteArray → Digest)

def snapshotOf (f : MemoryFile) : Option MemorySnapshot :=
  (decode f.data).map fun content =>
    { present := true, data := f.data, content, mtimeNs := some f.mtimeNs, sha256 := some (sha256 f.data), mode := some f.mode }

def sameFile (f g : MemoryFile) : Bool :=
  decide (f.ino = g.ino ∧ f.mtimeNs = g.mtimeNs ∧ f.data.size = g.data.size)

-- `ok` says whether the file operation of the step succeeds.
def Reading.step (file : Option MemoryFile) (ok : Bool) : Reading → ReadStep
  | .opening attempt =>
      if ok then
        match file with
        | none => .done missing
        | some f => .again (.opened attempt f)
      else .raised
  | .opened attempt f =>
      if ok then
        match file with
        | none => .done missing
        | some g =>
            if sameFile f g then
              match snapshotOf sha256 f with
              | some s => .done s
              | none => .raised
            else if attempt + 1 < 3 then .again (.opening (attempt + 1))
            else .raised
      else .raised

end Reads

-- Where a `_write_memory` call stands.
inductive Stage where
  | before (r : Reading)
  | staging (before : MemorySnapshot) (newData : ByteArray)
  | current (before : MemorySnapshot) (newData : ByteArray) (r : Reading)
  | backup (before : MemorySnapshot) (newData : ByteArray)
  | flushing (before : MemorySnapshot) (newData : ByteArray)
  | last (before : MemorySnapshot) (newData : ByteArray) (r : Reading)
  | replaced (newData : ByteArray)
  | written (newData : ByteArray) (r : Reading)

-- What an editor goes by: the version of its latest response and the bytes it stands for.
structure Held where
  version : Version
  data : Option ByteArray
  deriving DecidableEq

-- `editor` is `none` for a client that sends any version it likes.
structure Call where
  editor : Option EditorId
  content : String
  expected : Version
  holds : Option ByteArray
  stage : Stage := .before (.opening 0)

inductive Entry where
  | backup (call : CallId) (data : ByteArray)
  -- the file that was replaced, and what the editor held when it asked for it
  | replaced (call : CallId) (editor : Option EditorId) (holds old : Option ByteArray)
  | returned (call : CallId) (size : Nat) (version : Version)
  | raised (call : CallId)
  deriving DecidableEq

structure State where
  file : Option MemoryFile := none
  nextIno : Nat := 0
  held : EditorId → Option Held := fun _ => none
  gets : List (EditorId × Reading) := []
  -- the call that owns the lock, and the number of calls so far
  call : Option Call := none
  calls : Nat := 0
  log : List Entry := []

inductive Action where
  -- another program replaces or removes the file
  | external (file : Option (ByteArray × String × Nat))
  | get (e : EditorId)
  | getStep (i : Nat) (ok : Bool)
  | save (e : EditorId) (content : String)
  | put (content : String) (expected : Version)
  | step (ok : Bool) (mtimeNs : String)

namespace State

variable (sha256 : ByteArray → Digest) (s : State)

def replaceFile (data : ByteArray) (mtimeNs : String) (mode : Nat) : State :=
  { s with file := some ⟨s.nextIno, data, mtimeNs, mode⟩, nextIno := s.nextIno + 1 }

def hold (e : EditorId) (h : Held) : State := { s with held := Function.update s.held e (some h) }

def begin (editor : Option EditorId) (content : String) (h : Held) : State :=
  { s with call := some { editor, content, expected := h.version, holds := h.data }, calls := s.calls + 1 }

def goOn (c : Call) (stage : Stage) : State := { s with call := some { c with stage } }

def raised : State := { s with call := none, log := s.log ++ [.raised s.calls] }

def returned (c : Call) (version : Version) (size : Nat) (data : ByteArray) : State :=
  { s with
    call := none
    held := match c.editor with
      | none => s.held
      | some e => Function.update s.held e (some ⟨version, some data⟩)
    log := s.log ++ [.returned s.calls size version] }

def replaced (c : Call) (before : MemorySnapshot) (newData : ByteArray) (mtimeNs : String) : State :=
  let old := s.file.map MemoryFile.data
  { s.replaceFile newData mtimeNs (before.mode.getD 0o600) with
    call := some { c with stage := .replaced newData }
    log := s.log ++ [.replaced s.calls c.editor c.holds old] }

-- One file operation of the call. No other program comes between the last look at the file and `os.replace`.
def stepCall (c : Call) (ok : Bool) (mtimeNs : String) : State :=
  match c.stage with
  | .before r =>
      match r.step sha256 s.file ok with
      | .again r => s.goOn c (.before r)
      | .raised => s.raised
      | .done before =>
          if before.version ≠ c.expected then s.raised
          else
            let newData := encodeLike before c.content
            if before.present ∧ newData = before.data then s.returned c before.version before.data.size before.data
            else s.goOn c (.staging before newData)
  | .staging before newData => if ok then s.goOn c (.current before newData (.opening 0)) else s.raised
  | .current before newData r =>
      match r.step sha256 s.file ok with
      | .again r => s.goOn c (.current before newData r)
      | .raised => s.raised
      | .done current =>
          if current.version ≠ before.version then s.raised
          else if before.present ∧ before.sha256.isSome then s.goOn c (.backup before newData)
          else s.goOn c (.last before newData (.opening 0))
  | .backup before newData =>
      if ok then { s.goOn c (.flushing before newData) with log := s.log ++ [.backup s.calls before.data] }
      else s.raised
  | .flushing before newData => if ok then s.goOn c (.last before newData (.opening 0)) else s.raised
  | .last before newData r =>
      match r.step sha256 s.file ok with
      | .again r => s.goOn c (.last before newData r)
      | .raised => s.raised
      | .done current =>
          if current.version ≠ before.version then s.raised else s.replaced c before newData mtimeNs
  | .replaced newData => if ok then s.goOn c (.written newData (.opening 0)) else s.raised
  | .written newData r =>
      match r.step sha256 s.file ok with
      | .again r => s.goOn c (.written newData r)
      | .raised => s.raised
      | .done written => s.returned c written.version written.data.size newData

def stepGet (i : Nat) (e : EditorId) (r : Reading) (ok : Bool) : State :=
  match r.step sha256 s.file ok with
  | .again r => { s with gets := s.gets.set i (e, r) }
  | .raised => { s with gets := s.gets.eraseIdx i }
  | .done snapshot =>
      { s with gets := s.gets.eraseIdx i }.hold e
        ⟨snapshot.version, if snapshot.present then some snapshot.data else none⟩

end State

def next (sha256 : ByteArray → Digest) (s : State) : Action → Option State
  | .external file =>
      match file with
      | none => some { s with file := none }
      | some (data, mtimeNs, mode) => some (s.replaceFile data mtimeNs mode)
  | .get e => some { s with gets := s.gets ++ [(e, .opening 0)] }
  | .getStep i ok => s.gets[i]?.map fun g => s.stepGet sha256 i g.1 g.2 ok
  | .save e content =>
      if s.call.isNone then (s.held e).map (s.begin (some e) content) else none
  | .put content expected => if s.call.isNone then some (s.begin none content ⟨expected, none⟩) else none
  | .step ok mtimeNs => s.call.map fun c => s.stepCall sha256 c ok mtimeNs

def machine (sha256 : ByteArray → Digest) : Lib.Machine State Action where
  start := {}
  next := next sha256

end GaHub.Memory
