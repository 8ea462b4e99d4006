import GaHub.Lib.Dict
import GaHub.Lib.Text
import GaHub.Remote.Cookie

namespace GaHub.Remote

open Lib

abbrev RequestId := String
abbrev UploadId := String
abbrev Path := String

structure Response where
  status : Nat
  body : String
  deriving DecidableEq

-- `[a-zA-Z0-9_-]`
def wordChar (c : Char) : Bool := c.isAlphanum || c == '_' || c == '-'

def validRequestId (rid : RequestId) : Bool :=
  decide (16 ≤ rid.length ∧ rid.length ≤ 80) && rid.toList.all wordChar

-- The body of a run submission, when it is an object with the allowed keys.
structure Submission where
  text : String
  requestId : RequestId
  uploadIds : List UploadId := []
  deriving DecidableEq

def Submission.error (sub : Submission) : Option String :=
  if sub.uploadIds.length > 8 ∨ ¬sub.uploadIds.Nodup then some "Invalid upload_ids"
  else if sub.text.length > 6000 ∨ strip sub.text = "" ∧ sub.uploadIds = [] then
    some "Text or attachment required; maximum 6000 characters"
  else if ¬validRequestId sub.requestId then some "Invalid request_id"
  else none

structure Attachment where
  path : String
  name : String
  size : Nat
  deriving DecidableEq

structure Upload where
  time : ℚ
  owner : CookieId
  ref : Attachment
  deriving DecidableEq

structure SubmitKey where
  cookie : CookieId
  path : Path
  requestId : RequestId
  deriving DecidableEq

structure SubmitEntry (δ : Type) where
  time : ℚ
  fingerprint : δ
  task : Nat
  deriving DecidableEq

structure Payload where
  text : String
  source : String
  attachments : List Attachment
  deriving DecidableEq

-- One call of `forward_submit`, with the request it was made for, when that looked at the cache, and the POST it makes.
structure ForwardTask where
  key : SubmitKey
  time : ℚ
  content : String × List UploadId
  url : String
  payload : Payload
  result : Option Response := none
  deriving DecidableEq

-- Where an authenticated request stands: before its body is there, in `backend`, at the task, or at its end.
inductive SubmitStage where
  | reading
  | locating (now : ℚ) (sub : Submission) (attachments : List Attachment)
  | waiting (sub : Submission) (task : Nat)
  | answered (sub : Submission) (response : Response)
  | refused (response : Response)
  | dropped
  deriving DecidableEq

structure SubmitRequest where
  cookie : CookieId
  path : Path
  stage : SubmitStage := .reading
  deriving DecidableEq

def SubmitRequest.key (r : SubmitRequest) (sub : Submission) : SubmitKey := ⟨r.cookie, r.path, sub.requestId⟩

def Submission.content (sub : Submission) : String × List UploadId := (sub.text, sub.uploadIds)

structure Submits (δ : Type) where
  uploads : Dict UploadId Upload := .empty
  submissions : Dict SubmitKey (SubmitEntry δ) := .empty
  tasks : List ForwardTask := []
  requests : List SubmitRequest := []
  deriving DecidableEq

inductive SubmitAction where
  | post (c : CookieId) (path : Path)
  -- the body has arrived; `none` for one that is no object with the allowed keys
  | body (i : Nat) (sub : Option Submission)
  | located (i : Nat) (base : Option String)
  | complete (j : Nat) (answer : Option Response)
  | deliver (i : Nat)
  | drop (i : Nat)
  | uploadStarted
  | uploaded (c : CookieId) (uid : UploadId) (ref : Attachment)
  deriving DecidableEq

def lifetime : ℚ := 43200

def forwardPayload (text : String) (attachments : List Attachment) : Payload :=
  ⟨if strip text = "" then "请查看附件" else text, "remote-webui", attachments⟩

-- The answer of the backend, or the one for a lost connection or a timeout.
def forwardResult (answer : Option Response) : Response :=
  answer.getD ⟨504,
    "\x7b\"detail\": \"\\u53d1\\u9001\\u7ed3\\u679c\\u4e0d\\u786e\\u5b9a\\uff0c" ++
    "\\u8bf7\\u5148\\u67e5\\u770b\\u4f1a\\u8bdd\\u548c\\u8fd0\\u884c\\u72b6\\u6001\\uff0c" ++
    "\\u4e0d\\u8981\\u91cd\\u590d\\u53d1\\u9001\\u3002\"\x7d"⟩

namespace Submits

variable {δ : Type} (s : Submits δ)

def setStage (i : Nat) (stage : SubmitStage) : Submits δ :=
  { s with requests := s.requests.modify i fun r => { r with stage } }

def refuse (i : Nat) (status : Nat) (text : String) : Submits δ := s.setStage i (.refused ⟨status, text⟩)

def taskDone (j : Nat) : Bool :=
  match s.tasks[j]? with
  | some task => task.result.isSome
  | none => true

def prune (now : ℚ) : Submits δ :=
  { s with submissions := s.submissions.filter fun e => !s.taskDone e.2.task || decide (now - e.2.time < lifetime) }

-- The references of the uploads, or `none` when one has expired or belongs to another login.
def attachments (now : ℚ) (c : CookieId) (ids : List UploadId) : Option (List Attachment) :=
  ids.mapM fun uid =>
    (s.uploads.get? uid).bind fun upload =>
      if now - upload.time < lifetime ∧ upload.owner = c then some upload.ref else none

section Steps

-- `hashlib.sha256(json.dumps([text, ids]))`
variable [DecidableEq δ] (fingerprint : String × List UploadId → δ)

def join (i : Nat) (sub : Submission) (entry : SubmitEntry δ) : Submits δ :=
  if entry.fingerprint ≠ fingerprint sub.content then s.refuse i 409 "request_id reused for different content"
  else s.setStage i (.waiting sub entry.task)

def body (now : ℚ) (i : Nat) (r : SubmitRequest) (sub : Submission) : Submits δ :=
  match sub.error with
  | some text => s.refuse i 400 text
  | none =>
      match s.attachments now r.cookie sub.uploadIds with
      | none => s.refuse i 400 "Attachment expired or not owned by this login; upload again"
      | some attachments =>
          let s := s.prune now
          match s.submissions.get? (r.key sub) with
          | some entry => s.join fingerprint i sub entry
          | none =>
              if s.submissions.size ≥ 1024 then s.refuse i 429 "Submission cache full"
              else s.setStage i (.locating now sub attachments)

-- The second look at the cache, and the call when there is still no entry.
def located (i : Nat) (r : SubmitRequest) (now : ℚ) (sub : Submission) (attachments : List Attachment) (base : String) :
    Submits δ :=
  match s.submissions.get? (r.key sub) with
  | some entry => s.join fingerprint i sub entry
  | none =>
      { s.setStage i (.waiting sub s.tasks.length) with
        tasks := s.tasks ++ [⟨r.key sub, now, sub.content, base ++ r.path, forwardPayload sub.text attachments, none⟩]
        submissions := s.submissions.set (r.key sub) ⟨now, fingerprint sub.content, s.tasks.length⟩ }

def next (k : Clock) : SubmitAction → Option (Submits δ)
  | .post c path =>
      if k.authenticated c then some { s with requests := s.requests ++ [{ cookie := c, path }] } else none
  | .body i sub =>
      s.requests[i]?.bind fun r =>
        match r.stage, sub with
        | .reading, none => some (s.refuse i 400 "Only text, request_id and upload_ids allowed")
        | .reading, some sub => some (s.body fingerprint k.now i r sub)
        | _, _ => none
  | .located i base =>
      s.requests[i]?.bind fun r =>
        match r.stage, base with
        | .locating .., none => some (s.refuse i 503 "Open GA-Hub on the host computer, then retry.")
        | .locating now sub attachments, some base => some (s.located fingerprint i r now sub attachments base)
        | _, _ => none
  | .complete j answer =>
      s.tasks[j]?.bind fun task =>
        match task.result with
        | none =>
            some { s with tasks := s.tasks.modify j fun task => { task with result := some (forwardResult answer) } }
        | some _ => none
  | .deliver i =>
      s.requests[i]?.bind fun r =>
        match r.stage with
        | .waiting sub j =>
            (s.tasks[j]?.bind ForwardTask.result).map fun response => s.setStage i (.answered sub response)
        | _ => none
  -- the client goes away; the call of `forward_submit` is shielded
  | .drop i =>
      s.requests[i]?.bind fun r =>
        match r.stage with
        | .reading | .locating .. | .waiting .. => some (s.setStage i .dropped)
        | _ => none
  | .uploadStarted =>
      some { s with uploads := s.uploads.filter fun e => decide (k.now - e.2.time < lifetime) }
  | .uploaded c uid ref => some { s with uploads := s.uploads.set uid ⟨k.now, c, ref⟩ }

end Steps

end Submits

end GaHub.Remote
