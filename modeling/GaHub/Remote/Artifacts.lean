import GaHub.Lib.Dict
import GaHub.Lib.Distinct
import GaHub.Lib.Machine
import GaHub.Lib.Text
import Mathlib.Algebra.Order.Floor.Ring
import Mathlib.Data.Rat.Floor

namespace GaHub.Remote.Artifacts

open Lib

structure Path where
  anchor : String
  parts : List String
  deriving DecidableEq

structure Identity where
  dev : Nat
  ino : Nat
  size : Nat
  mtime : Nat
  deriving DecidableEq

structure Info where
  regular : Bool
  nlink : Nat
  id : Identity
  deriving DecidableEq

-- The file system at one moment. `none` stands for an exception of the call.
structure Host where
  isDir : Path → Bool
  resolve : Path → Option Path
  stat : Path → Option Info

namespace Path

def name (p : Path) : String := p.parts.getLast?.getD ""

-- From the last dot of the name, if that is neither its first nor its last character.
def suffix (p : Path) : String :=
  let name := p.name.toList
  let ext := name.reverse.takeWhile (· ≠ '.')
  if ext = [] ∨ ext.length + 1 ≥ name.length then "" else String.ofList ('.' :: ext.reverse)

end Path

def sep (c : Char) : Bool := c == '.' || c == '_' || c == '-' || isSpace c

-- How a character compares under `re.I` with an ASCII letter.
def foldCase (c : Char) : Char :=
  if c = 'ſ' then 's' else if c = '\u212a' then 'k' else if c = 'İ' ∨ c = 'ı' then 'i' else c.toLower

def dropWord : List Char → List Char → Option (List Char)
  | [], rest => some rest
  | _ :: _, [] => none
  | w :: word, c :: rest => if foldCase c = w then dropWord word rest else none

def sensitiveWords : List String :=
  ["secret", "secrets", "credential", "credentials", "password", "passwords", "passwd", "token", "tokens", "cookie",
    "cookies", "keychain", "private", "session-state", "session_state", "storage-state", "storage_state"]

def wordEnd : List Char → Bool
  | [] => true
  | c :: _ => sep c

-- `SENSITIVE.search`; the flag says that a word may begin here.
def sensitiveFrom : Bool → List Char → Bool
  | _, [] => false
  | start, c :: rest =>
      start && sensitiveWords.any (fun word => (dropWord word.toList (c :: rest)).any wordEnd) ||
        sensitiveFrom (sep c) rest

def sensitive (part : String) : Bool := sensitiveFrom true part.toList

def ttl : ℚ := 1800
def limit : Nat := 1024
def maxFile : Nat := 256 * 1024 * 1024

def forbiddenParts : List String :=
  ["memory", "config", "configuration", "credentials", "id_rsa", "id_ed25519"]

def forbiddenExt : List String :=
  [".pem", ".key", ".pfx", ".p12", ".kdbx", ".db", ".sqlite", ".sqlite3", ".log", ".har"]

section Paths

-- `str.lower`, with which paths are compared too.
variable (lower : String → String)

def same (p q : Path) : Bool := lower p.anchor = lower q.anchor && p.parts.map lower = q.parts.map lower

def isRelativeTo (p root : Path) : Bool :=
  lower p.anchor = lower root.anchor && (root.parts.map lower).isPrefixOf (p.parts.map lower)

def hidden (part : String) : Bool :=
  part.startsWith "." || sensitive part || forbiddenParts.contains (lower part)

variable (roots : List Path)

def safe (host : Host) (original : Path) : Option (Path × Info) :=
  match roots.find? (isRelativeTo lower original) with
  | none => none
  | some root =>
      if ¬host.isDir root then none
      else
        (host.resolve original).bind fun path =>
          if ¬isRelativeTo lower path root then none
          else if (path.parts.drop root.parts.length).any (hidden lower) then none
          else if forbiddenExt.contains (lower path.suffix) then none
          else
            (host.stat path).bind fun info =>
              if ¬info.regular ∨ info.nlink ≠ 1 ∨ info.id.size > maxFile then none else some (path, info)

def parts (raw : List Char) : List String :=
  ((raw.splitOn '/').map String.ofList).filter fun part => part ≠ "" ∧ part ≠ "."

-- `^[A-Za-z]:/`
def driveRest : List Char → Option (Char × List Char)
  | c :: ':' :: '/' :: rest => if c.isAlpha then some (c, rest) else none
  | _ => none

def below (host : Host) (raw : List Char) (root : Path) : Option (Path × Info) :=
  if (root.name.toList ++ ['/']).isPrefixOf raw then
    safe lower roots host ⟨root.anchor, root.parts.dropLast ++ parts raw⟩
  else none

def candidates (host : Host) (raw : List Char) : List (Path × Info) :=
  roots.foldl (fun found root =>
    match below lower roots host raw root with
    | some result => if found.any fun item => same lower item.1 result.1 then found else found ++ [result]
    | none => found) []

-- Parts of a path are compared character by character.
local instance lawfulBEqListChar : LawfulBEq (List Char) := inferInstance

def resolve (host : Host) (raw : String) : Option (Path × Info) :=
  if strip raw = "" ∨ raw.length > 2048 then none
  else
    let raw := (strip raw).toList.map fun c => if c = '\\' then '/' else c
    if ['/', '/'].isPrefixOf raw ∨ raw.any fun c => c.toNat < 32 then none
    else if ['.', '.'] ∈ raw.splitOn '/' ∨ ':' ∈ raw.drop 2 ∨ ':' ∈ raw ∧ driveRest raw = none then none
    else
      match driveRest raw with
      | some (c, rest) => safe lower roots host ⟨String.ofList [c, ':', '\\'], parts rest⟩
      | none =>
          if ['/'].isPrefixOf raw then none
          else
            match candidates lower roots host raw with
            | [result] => some result
            | _ => none

end Paths

-- `REFERENCE.findall`. The flag says how many characters of a match are still to be passed over.
def referencesFrom : Nat → List Char → List String
  | _, [] => []
  | skip + 1, _ :: rest => referencesFrom skip rest
  | 0, c :: rest =>
      match dropWord "[file:".toList (c :: rest) with
      | none => referencesFrom 0 rest
      | some body =>
          let raw := body.takeWhile fun c => c ≠ ']' ∧ c ≠ '\r' ∧ c ≠ '\n'
          if raw ≠ [] ∧ raw.length ≤ 2048 ∧ (body.drop raw.length).head? = some ']' then
            String.ofList raw :: referencesFrom (raw.length + 6) rest
          else referencesFrom 0 rest

def references (prose : String) : List String := distinctOn some [] (referencesFrom 0 prose.toList)

abbrev Owner := String
abbrev SessionId := String

-- `token_urlsafe` draws 32 random bytes: a token is the number of the draw it comes from.
abbrev Token := Nat

structure Key where
  owner : Owner
  sid : SessionId
  path : Path
  id : Identity
  deriving DecidableEq

structure Entry where
  created : ℚ
  key : Key
  path : Path
  id : Identity
  deriving DecidableEq

structure Store where
  entries : Dict Token Entry := .empty
  index : Dict Key Token := .empty
  drawn : Nat := 0
  deriving DecidableEq

structure Link where
  name : String
  size : Nat
  extension : String
  url : SessionId × Token
  expiresIn : Int
  deriving DecidableEq

structure Message where
  role : String
  compact : Bool
  finalBody : String
  artifacts : Option (List Link) := none
  deriving DecidableEq

-- What one turn of the inner loop finds: the file system, and the clock in `_prune`, after it and at the link.
structure Look where
  host : Host
  pruned : ℚ
  created : ℚ
  shown : ℚ

namespace Store

variable (s : Store)

def forget (token : Token) (entry : Entry) : Store :=
  { s with entries := s.entries.erase token, index := s.index.erase entry.key }

-- The oldest entries go, one by one.
def evict (s : Store) : Nat → Store
  | 0 => s
  | n + 1 =>
      match s.entries.entries with
      | [] => s
      | e :: _ => (s.forget e.1 e.2).evict n

def expire (now : ℚ) : Store :=
  s.entries.entries.foldl (fun s e => if now - e.2.created ≥ ttl then s.forget e.1 e.2 else s) s

-- `while len(self.entries) >= LIMIT` takes out one entry at each turn.
def prune (now : ℚ) : Store :=
  let s := s.expire now
  s.evict (s.entries.size + 1 - limit)

def add (now : ℚ) (key : Key) : Store :=
  { entries := s.entries.set s.drawn ⟨now, key, key.path, key.id⟩
    index := s.index.set key s.drawn
    drawn := s.drawn + 1 }

-- The token of the file's entry, which is made if there is none.
def issue (look : Look) (key : Key) : Store × Token :=
  match s.index.get? key with
  | some token => if token ∈ s.entries.keys then (s, token) else ((s.prune look.pruned).add look.created key, s.drawn)
  | none => ((s.prune look.pruned).add look.created key, s.drawn)

end Store

structure Issued where
  token : Token
  time : ℚ
  owner : Owner
  sid : SessionId
  message : Message
  raw : String
  host : Host
  link : Link

-- The loops of `decorate`: the store, the turns taken, and the links put into the messages.
structure Work where
  store : Store
  turn : Nat := 0
  issued : List Issued := []

section Decorate

variable (lower : String → String) (roots : List Path) (looks : Nat → Look) (owner : Owner) (sid : SessionId)

def link (look : Look) (store : Store) (token : Token) (path : Path) (info : Info) : Link where
  name := path.name
  size := info.id.size
  extension := lower path.suffix
  url := (sid, token)
  expiresIn := max 0 ⌊ttl - (look.shown - ((store.entries.get? token).map Entry.created).getD 0)⌋

def cite (message : Message) (found : Work × List Link) (raw : String) : Work × List Link :=
  let work := found.1
  if found.2.length ≥ 8 then found
  else
    let look := looks work.turn
    match resolve lower roots look.host raw with
    | none => ({ work with turn := work.turn + 1 }, found.2)
    | some (path, info) =>
        let issued := work.store.issue look ⟨owner, sid, path, info.id⟩
        let link := link lower sid look issued.1 issued.2 path info
        ({ store := issued.1
           turn := work.turn + 1
           issued := work.issued ++ [⟨issued.2, look.created, owner, sid, message, raw, look.host, link⟩] },
          found.2 ++ [link])

def decorateMessage (work : Work) (message : Message) : Work × Message :=
  let message := { message with artifacts := none }
  if message.role ≠ "assistant" ∨ ¬message.compact then (work, message)
  else
    let found := (references message.finalBody).foldl (cite lower roots looks owner sid message) (work, [])
    (found.1, if found.2 = [] then message else { message with artifacts := some found.2 })

def decorateItems (work : Work) : List Message → Work × List Message
  | [] => (work, [])
  | message :: rest =>
      let first := decorateMessage lower roots looks owner sid work message
      let others := decorateItems first.1 rest
      (others.1, first.2 :: others.2)

def decorate (now : ℚ) (s : Store) (items : List Message) : Work × List Message :=
  decorateItems lower roots looks owner sid { store := s.prune now } items

end Decorate

inductive Download where
  | notFound
  | gone
  | streamed (info : Info)
  deriving DecidableEq

-- The file that was opened, as `fstat` and `GetFinalPathNameByHandle` see it.
structure Opened where
  info : Info
  actual : Option Path
  host : Host

def Store.download (lower : String → String) (roots : List Path) (s : Store) (sid : SessionId) (token : Token) (owner : Owner)
    (now : ℚ) (host : Host) (opened : Option Opened) : Download :=
  match s.entries.get? token with
  | none => .notFound
  | some entry =>
      if entry.key.owner ≠ owner ∨ entry.key.sid ≠ sid ∨ now - entry.created ≥ ttl then .notFound
      else
        match safe lower roots host entry.path, opened with
        | some (_, info), some file =>
            if info.id ≠ entry.id ∨ file.info.id ≠ entry.id ∨ file.info.nlink ≠ 1 then .gone
            else
              match file.actual.bind (safe lower roots file.host) with
              | some (path, _) => if same lower path entry.path then .streamed file.info else .gone
              | none => .gone
        | _, _ => .gone

structure World where
  store : Store := {}
  issued : List Issued := []

inductive Action where
  | decorate (now : ℚ) (looks : Nat → Look) (owner : Owner) (sid : SessionId) (items : List Message)
  | download (sid : SessionId) (token : Token) (owner : Owner) (now : ℚ) (host : Host) (opened : Option Opened)

def artifacts (lower : String → String) (roots : List Path) : Machine World Action where
  start := {}
  next w
    | .decorate now looks owner sid items =>
        let work := (decorate lower roots looks owner sid now w.store items).1
        some { store := work.store, issued := w.issued ++ work.issued }
    | .download .. => some w

end GaHub.Remote.Artifacts
