import Mathlib.Data.List.TakeWhile
import GaHub.Lib.Json
import GaHub.Remote.Creations

namespace GaHub.Remote.Handle

open Lib

inductive Method where
  | get
  | head
  | post
  | put
  | other (name : String)
  deriving DecidableEq

-- `PUBLIC` and the second origin of `origin_ok`
def publicHost : String := "gahub.lunadash.me"
def publicOrigin : String := "https://" ++ publicHost
def edgeOrigin : String := "https://gahub.lunadash.cc.cd"

-- A request as the server parsed it: `path` is the decoded path, `query` the decoded query string and `params` the
-- pairs in it. A cookie that this gateway did not sign counts as none.
structure Request where
  host : String
  method : Method
  path : String
  query : String := ""
  params : List (String × String) := []
  headers : List (String × String) := []
  contentType : String := "application/octet-stream"
  remote : String := "127.0.0.1"
  cookie : Option CookieId := none
  deriving DecidableEq

def lower (s : String) : String := .ofList (s.toList.map Char.toLower)

namespace Request

variable (r : Request)

def header (name : String) : Option String := (r.headers.find? fun h => lower h.1 = lower name).map Prod.snd

def hostName : String := .ofList (r.host.toList.takeWhile (· ≠ ':'))

def originOk : Bool := decide (r.header "Origin" ∈ [none, some publicOrigin, some edgeOrigin])

def websocket : Bool := lower ((r.header "Upgrade").getD "") = "websocket"

-- `rel_url.path_qs`, which is decoded too
def pathQs : String := if r.query = "" then r.path else r.path ++ ("?" ++ r.query)

end Request

def begins (front path : String) : Bool := front.toList.isPrefixOf path.toList

-- `[A-Za-z0-9_-]+`
def isWord (s : String) : Bool := decide (s.toList ≠ []) && s.toList.all wordChar

abbrev Word := { s : String // isWord s = true }

-- A path that continues `front` with a word, and what follows the word.
def wordAfter (front path : String) : Option (Word × String) :=
  if front.toList <+: path.toList then
    let rest := path.toList.drop front.toList.length
    let word := String.ofList (rest.takeWhile wordChar)
    if h : isWord word = true then some (⟨word, h⟩, .ofList (rest.dropWhile wordChar)) else none
  else none

def sessionPath (sid : Word) (back : String) : String := "/api/sessions/" ++ (sid.val ++ back)

def socketPath (sid : Word) : String := "/ws/sessions/" ++ sid.val

-- `/api/sessions/[A-Za-z0-9_-]+` and then `back`
def sessionRoute (back path : String) : Option Word :=
  ((wordAfter "/api/sessions/" path).filter (·.2 = back)).map Prod.fst

def socketRoute (path : String) : Option Word := ((wordAfter "/ws/sessions/" path).filter (·.2 = "")).map Prod.fst

def artifactRoute (path : String) : Option (Word × Word) := do
  let (sid, rest) ← wordAfter "/api/sessions/" path
  let (token, rest) ← wordAfter "/artifacts/" rest
  if token.val.length = 43 ∧ rest = "" then some (sid, token) else none

def safeEnds : List String := ["", "/messages", "/runtime", "/progress", "/live"]

-- `SAFE.fullmatch`
def safe (path : String) : Bool :=
  path = "/api/session-runtimes" || path = "/api/sessions" || safeEnds.any fun back => (sessionRoute back path).isSome

inductive Body where
  | empty
  | json (data : Json)
  | file (name : String) (size : Nat)

-- A request of the gateway to the backend. A WebSocket is opened by a GET.
structure Call where
  method : Method
  base : String
  target : String
  params : List (String × String) := []
  headers : List (String × String) := [("Origin", base)]
  body : Body := .empty

-- The path that the client library sends for a target.
def Call.path (c : Call) : String := .ofList (c.target.toList.takeWhile fun ch => ch ≠ '?' && ch ≠ '#')

def Call.mutates (c : Call) : Bool := decide (c.method ≠ .get ∧ c.method ≠ .head)

-- Run submit, abort, upload, session create with project binding, and model change.
def mutations : List (Method × String) := [(.post, "/runs"), (.post, "/abort"), (.put, "/project"), (.put, "/model")]

def Call.mutation (c : Call) : Bool :=
  decide (c.method = .post ∧ (c.path = "/api/upload" ∨ c.path = "/api/sessions")) ||
    mutations.any fun m => decide (c.method = m.1) && (sessionRoute m.2 c.path).isSome

-- What may be read: `SAFE`, the WebSockets of the sessions, and the two lists with routes of their own.
def allowlisted (path : String) : Bool :=
  safe path || (socketRoute path).isSome || path = "/api/llms" || path = "/api/projects"

def Request.permits (r : Request) (c : Call) : Prop :=
  if c.mutates then c.mutation = true ∧ r.header "Origin" = some publicOrigin else allowlisted c.path = true

section Paths

variable {front back path s : String} {w : Word}

theorem wordAfter_spec {rest : String} (h : wordAfter front path = some (w, rest)) :
    path = front ++ (w.val ++ rest) := by
  unfold wordAfter at h
  split at h
  · rename_i hfront
    simp only [Option.dite_none_right_eq_some] at h
    obtain ⟨hword, heq⟩ := h
    obtain ⟨tail, htail⟩ := hfront
    cases heq
    apply String.toList_injective
    simp only [String.toList_append, String.toList_ofList, List.takeWhile_append_dropWhile]
    rw [← htail, List.drop_left]
  · cases h

theorem sessionRoute_spec (h : sessionRoute back path = some w) : path = sessionPath w back := by
  obtain ⟨⟨w', rest⟩, hfilter, rfl⟩ := Option.map_eq_some_iff.mp h
  obtain ⟨hword, hrest⟩ := Option.filter_eq_some_iff.mp hfilter
  cases of_decide_eq_true hrest
  exact wordAfter_spec hword

theorem socketRoute_spec (h : socketRoute path = some w) : path = socketPath w := by
  obtain ⟨⟨w', rest⟩, hfilter, rfl⟩ := Option.map_eq_some_iff.mp h
  obtain ⟨hword, hrest⟩ := Option.filter_eq_some_iff.mp hfilter
  cases of_decide_eq_true hrest
  rw [wordAfter_spec hword, String.append_empty, socketPath]

theorem word_chars (w : Word) : w.val.toList ≠ [] ∧ ∀ c ∈ w.val.toList, wordChar c = true := by
  have hword := w.property
  simp only [isWord, Bool.and_eq_true, decide_eq_true_eq, List.all_eq_true] at hword
  exact hword

theorem wordAfter_append (w : Word) (hback : (back.toList.head?.any wordChar) = false) :
    wordAfter front (front ++ (w.val ++ back)) = some (w, back) := by
  obtain ⟨hne, hchars⟩ := word_chars w
  have htake : (w.val.toList ++ back.toList).takeWhile wordChar = w.val.toList := by
    rw [List.takeWhile_append_of_pos hchars]
    cases hb : back.toList with
    | nil => simp
    | cons c cs => simp_all
  have hdrop : (w.val.toList ++ back.toList).dropWhile wordChar = back.toList := by
    rw [List.dropWhile_append_of_pos hchars]
    cases hb : back.toList with
    | nil => simp
    | cons c cs => simp_all
  unfold wordAfter
  simp [String.toList_append, htake, hdrop, w.property]

theorem sessionRoute_sessionPath (w : Word) (hback : (back.toList.head?.any wordChar) = false) :
    sessionRoute back (sessionPath w back) = some w := by
  unfold sessionRoute sessionPath
  rw [wordAfter_append w hback]
  simp

theorem socketRoute_socketPath (w : Word) : socketRoute (socketPath w) = some w := by
  have h : wordAfter "/ws/sessions/" ("/ws/sessions/" ++ (w.val ++ "")) = some (w, "") := wordAfter_append w rfl
  rw [String.append_empty] at h
  unfold socketRoute socketPath
  rw [h]
  simp

-- What of a target the client library takes for its path.
def plain (s : String) : Bool := s.toList.all fun c => c ≠ '?' && c ≠ '#'

theorem plain_append : plain (s ++ back) = (plain s && plain back) := by
  simp [plain, String.toList_append, List.all_append]

theorem plain_word (w : Word) : plain w.val = true := by
  refine List.all_eq_true.mpr fun c hc => ?_
  have hword := (word_chars w).2 c hc
  have hquery : c ≠ '?' := by
    rintro rfl
    exact absurd hword (by decide)
  have hfragment : c ≠ '#' := by
    rintro rfl
    exact absurd hword (by decide)
  simp [hquery, hfragment]

theorem plain_sessionPath (hback : plain back = true) : plain (sessionPath w back) = true := by
  rw [sessionPath, plain_append, plain_append, plain_word, hback]
  rfl

theorem plain_socketPath : plain (socketPath w) = true := by
  rw [socketPath, plain_append, plain_word]
  rfl

theorem Call.path_of_plain {c : Call} (h : plain c.target = true) : c.path = c.target := by
  unfold Call.path
  rw [List.takeWhile_eq_self_iff.mpr (List.all_eq_true.mp h), String.ofList_toList]

theorem Call.path_pathQs {c : Call} {r : Request} (htarget : c.target = r.pathQs) (h : plain r.path = true) :
    c.path = r.path := by
  unfold Request.pathQs at htarget
  split at htarget
  · rw [← htarget] at h
    rw [Call.path_of_plain h, htarget]
  · unfold Call.path
    rw [htarget, String.toList_append, List.takeWhile_append_of_pos (List.all_eq_true.mp h)]
    simp

end Paths

end GaHub.Remote.Handle
