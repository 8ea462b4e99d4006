import GaHub.Remote.Submissions

namespace GaHub.Remote

open Lib

abbrev SessionId := String

-- The body of a session creation, when it is an object with the allowed keys.
structure Creation where
  requestId : RequestId
  projectId : Option String
  deriving DecidableEq

def validProjectId (pid : String) : Bool :=
  decide (pid.length = 64) && pid.toList.all fun c => c.isDigit || decide ('a' ≤ c ∧ c ≤ 'f')

def Creation.error (data : Creation) : Option String :=
  if ¬validRequestId data.requestId then some "Invalid request_id"
  else if data.projectId.any fun pid => !validProjectId pid then some "Invalid project_id"
  else none

abbrev CreateKey := CookieId × RequestId

structure Project where
  name : String
  path : String
  deriving DecidableEq

-- An entry is one object; the requests that found it keep it when the cache forgets it. `owner` holds its lock.
structure CreateEntry where
  key : CreateKey
  time : ℚ
  projectId : Option String
  owner : Option Nat := none
  session : Option SessionId := none
  attempted : Bool := false
  done : Bool := false
  deriving DecidableEq

inductive PostOutcome where
  | created
  | rejected (status : Nat)
  | unknown
  deriving DecidableEq

structure CreatePost where
  entry : Nat
  url : String
  outcome : Option PostOutcome := none
  deriving DecidableEq

-- Where a `perform` stands; it is shielded from its request. Between `locating` and `returned` it has the lock.
inductive PerformStage where
  | waiting
  | locating
  | listing (base : String)
  | posting (base : String) (project : Option Project) (post : Nat)
  | decoding (base : String) (project : Option Project)
  | binding (project : Project)
  | returned (response : Response)
  deriving DecidableEq

structure Perform where
  entry : Nat
  stage : PerformStage := .waiting
  deriving DecidableEq

inductive CreateStage where
  | reading
  | performing (p : Nat)
  | refused (response : Response)
  deriving DecidableEq

structure CreateRequest where
  cookie : CookieId
  stage : CreateStage := .reading
  deriving DecidableEq

structure Creates where
  creations : Dict CreateKey Nat := .empty
  entries : List CreateEntry := []
  performs : List Perform := []
  posts : List CreatePost := []
  requests : List CreateRequest := []
  deriving DecidableEq

inductive CreateAction where
  | post (c : CookieId)
  | body (i : Nat) (data : Option Creation)
  | acquire (p : Nat)
  | located (p : Nat) (base : Option String)
  -- the project list: unreadable, or what it says about the project
  | listed (p : Nat) (project : Option (Option Project))
  | posted (p : Nat) (outcome : PostOutcome)
  -- the id in the answer, when it is one
  | decoded (p : Nat) (session : Option SessionId)
  | bound (p : Nat) (answer : Option (Nat × Option SessionId))
  deriving DecidableEq

namespace Creates

variable (s : Creates)

def refuse (i : Nat) (status : Nat) (text : String) : Creates :=
  { s with requests := s.requests.modify i fun r => { r with stage := .refused ⟨status, text⟩ } }

def modifyEntry (e : Nat) (f : CreateEntry → CreateEntry) : Creates := { s with entries := s.entries.modify e f }

def setPerform (p : Nat) (stage : PerformStage) : Creates :=
  { s with performs := s.performs.modify p fun x => { x with stage } }

def locked (e : Nat) : Bool := (s.entries[e]?.bind CreateEntry.owner).isSome

def fresh (now : ℚ) (e : Nat) : Bool := s.entries[e]?.any fun entry => decide (now - entry.time < lifetime)

def prune (now : ℚ) : Creates :=
  { s with creations := s.creations.filter fun x => s.fresh now x.2 || s.locked x.2 }

def perform (i e : Nat) : Creates :=
  { s with
    performs := s.performs ++ [{ entry := e }]
    requests := s.requests.modify i fun r => { r with stage := .performing s.performs.length } }

def add (now : ℚ) (key : CreateKey) (projectId : Option String) : Creates :=
  { s with
    entries := s.entries ++ [{ key, time := now, projectId }]
    creations := s.creations.set key s.entries.length }

def body (now : ℚ) (i : Nat) (c : CookieId) (data : Creation) : Creates :=
  match data.error with
  | some text => s.refuse i 400 text
  | none =>
      let s := s.prune now
      match s.creations.get? (c, data.requestId) with
      | some e =>
          if (s.entries[e]?.any fun entry => decide (entry.projectId ≠ data.projectId)) = true then
            s.refuse i 409 "request_id already used with a different project"
          else s.perform i e
      | none =>
          if s.creations.size ≥ 256 then s.refuse i 429 "Create cache full"
          else (s.add now (c, data.requestId) data.projectId).perform i s.entries.length

-- The perform leaves the lock with its response; what it raises is answered by the handler.
def finish (p e : Nat) (response : Response) : Creates :=
  (s.modifyEntry e fun entry => { entry with owner := none }).setPerform p (.returned response)

def uncertain : Response := ⟨502, "创建或绑定结果未确认，请重试；若仍失败，请刷新列表检查已有会话。"⟩

def created (session : SessionId) : Response := ⟨201, session⟩

def bind (p e : Nat) (session : SessionId) : Option Project → Creates
  | some project => s.setPerform p (.binding project)
  | none => (s.modifyEntry e fun entry => { entry with done := true }).finish p e (created session)

-- From the project on: the session is created unless that was done or tried before.
def create (p e : Nat) (entry : CreateEntry) (base : String) (project : Option Project) : Creates :=
  match entry.session with
  | some session => s.bind p e session project
  | none =>
      if entry.attempted then
        s.finish p e ⟨409, "创建结果未确认，请刷新列表检查后再新建，勿重复提交"⟩
      else
        { (s.modifyEntry e fun entry => { entry with attempted := true }).setPerform p
            (.posting base project s.posts.length) with
          posts := s.posts ++ [⟨e, base ++ "/api/sessions", none⟩] }

def setOutcome (k : Nat) (outcome : PostOutcome) : Creates :=
  { s with posts := s.posts.modify k fun x => { x with outcome := some outcome } }

def posted (p e : Nat) (base : String) (project : Option Project) (k : Nat) (outcome : PostOutcome) : Creates :=
  let s := s.setOutcome k outcome
  match outcome with
  | .created => s.setPerform p (.decoding base project)
  | .rejected status =>
      (s.modifyEntry e fun entry => { entry with attempted := false }).finish p e ⟨status, "GA-Hub 拒绝创建会话"⟩
  | .unknown => s.finish p e uncertain

def bound (p e : Nat) (session : SessionId) : Option (Nat × Option SessionId) → Creates
  | none => s.finish p e uncertain
  | some (status, body) =>
      if status ≠ 200 then
        s.finish p e ⟨status, "会话 " ++ session ++ " 已创建，但项目绑定失败；点击重试继续绑定，不会重复创建。"⟩
      else
        match body with
        | none => s.finish p e uncertain
        | some session' =>
            (s.modifyEntry e fun entry => { entry with session := some session', done := true }).finish p e (created session')

def stepPerform (p : Nat) (x : Perform) (entry : CreateEntry) : CreateAction → Option Creates
  | .acquire _ =>
      match x.stage, entry.owner with
      | .waiting, none =>
          let s := s.modifyEntry x.entry fun entry => { entry with owner := some p }
          if entry.done then some (s.finish p x.entry (created (entry.session.getD "")))
          else some (s.setPerform p .locating)
      | _, _ => none
  | .located _ base =>
      match x.stage, base with
      | .locating, none => some (s.finish p x.entry ⟨503, "Open GA-Hub on the host computer, then retry."⟩)
      | .locating, some base =>
          if entry.projectId.isSome then some (s.setPerform p (.listing base))
          else some (s.create p x.entry entry base none)
      | _, _ => none
  | .listed _ project =>
      match x.stage, project with
      | .listing _, none => some (s.finish p x.entry uncertain)
      | .listing _, some none => some (s.finish p x.entry ⟨409, "项目已不可用，请重新选择"⟩)
      | .listing base, some (some project) => some (s.create p x.entry entry base (some project))
      | _, _ => none
  | .posted _ outcome =>
      match x.stage with
      | .posting base project k => some (s.posted p x.entry base project k outcome)
      | _ => none
  | .decoded _ session =>
      match x.stage, session with
      | .decoding .., none => some (s.finish p x.entry uncertain)
      | .decoding _ project, some session =>
          some ((s.modifyEntry x.entry fun entry => { entry with session := some session }).bind p x.entry session project)
      | _, _ => none
  | .bound _ answer =>
      match x.stage with
      | .binding _ => some (s.bound p x.entry (entry.session.getD "") answer)
      | _ => none
  | .post _ | .body .. => none

def next (k : Clock) (s : Creates) (a : CreateAction) : Option Creates :=
  match a with
  | .post c => if k.authenticated c then some { s with requests := s.requests ++ [{ cookie := c }] } else none
  | .body i data =>
      s.requests[i]?.bind fun r =>
        match r.stage, data with
        | .reading, none => some (s.refuse i 400 "Only request_id and project_id allowed")
        | .reading, some data => some (s.body k.now i r.cookie data)
        | _, _ => none
  | .acquire p | .located p _ | .listed p _ | .posted p _ | .decoded p _ | .bound p _ =>
      s.performs[p]?.bind fun x => s.entries[x.entry]?.bind fun entry => s.stepPerform p x entry a

end Creates

end GaHub.Remote
