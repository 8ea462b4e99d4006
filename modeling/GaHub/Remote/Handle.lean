import GaHub.Lib.Program
import GaHub.Remote.Routes

namespace GaHub.Remote.Handle

open Lib

inductive Error where
  | http (status : Nat) (text : String)
  | client
  | timeout
  | value
  | key
  | runtime
  | assertion
  | other
  deriving DecidableEq

-- What the backend answers; reading its body is an await of its own.
structure Reply where
  status : Nat
  read : Except Error String
  json : Except Error Json

inductive Outcome where
  | response (out : Response)
  | json (status : Nat) (data : Json)
  | redirect (location : String) (cookie : Option CookieId)
  -- the WebSocket, at its end
  | upgraded

structure Part where
  name : String
  filename : Option String
  chunks : List Nat

inductive Found where
  | absent (full : Bool)
  | present (same : Bool)
  deriving DecidableEq

-- An entry of `creations` under its lock. An id is checked before it is stored.
inductive Creating where
  | done (session : Json)
  | underway (session : Option (Word × Json)) (attempted : Bool)

inductive Socket where
  | live (sid : Word)
  | proxied (sid : Word)
  deriving DecidableEq

-- What runs as a task of its own and outlives the request that made it.
inductive Job where
  | forward (base path text : String) (attachments : List Attachment)
  | perform (cookie : Option CookieId) (data : Creation)
  | channel (base : String) (sid : Word)

-- What a handler awaits or looks up. The caches, the files and the compact worker are the environment's here.
inductive Effect where
  | authenticated
  | issue
  | failures (address : String)
  | credentials
  | json
  | read
  | part
  | uploadsFull
  | upload (uid : UploadId)
  | token
  | target
  | ports
  | call (c : Call)
  | submission (path : String) (sub : Submission)
  | creation (data : Creation)
  | entry (cookie : Option CookieId) (requestId : RequestId)
  | start (job : Job)
  | forwarded
  | performed
  | hub (base : String) (sid : Word)
  | latest (base : String) (sid : Word)
  | compact (data : Json)
  | decorate (data : Json) (sid : String)
  | file (name : String)
  | artifact (sid token : Word)
  | serve (socket : Socket)

@[reducible] def Effect.Answer : Effect → Type
  | .authenticated | .credentials | .uploadsFull => Bool
  | .issue => CookieId
  | .failures _ => Nat
  | .json => Except Error Json
  | .read => Except Error String
  | .part => Except Error (Option Part)
  | .upload _ => Option Attachment
  | .token | .file _ => String
  | .target => Option String
  | .ports => List Nat
  | .call _ => Except Error Reply
  | .submission _ _ | .creation _ => Found
  | .entry _ _ => Creating
  | .start _ | .serve _ => Unit
  | .forwarded => Response
  | .performed => Except Error Outcome
  -- whether the channel is made by this call
  | .hub _ _ => Except Error Bool
  | .latest _ _ | .compact _ => Except Error Json
  | .decorate _ _ => Json
  | .artifact _ _ => Except Error Response

abbrev Handler (α : Type) := Program Effect Effect.Answer Error α

open Program

def await (e : Effect) : Handler e.Answer := query e

def lift {α : Type} : Except Error α → Handler α
  | .ok a => .ret a
  | .error e => .raise e

-- What `.get` is called on has to be an object.
def object : Json → Handler Json
  | .obj members => .ret (.obj members)
  | _ => .raise .other

-- `try … except kinds: raise out`
def guarded {α : Type} (kinds : List Error) (out : Error) (x : Handler α) : Handler α :=
  tryCatch x fun e => throw (if e ∈ kinds then out else e)

def respond (status : Nat) (body : String) : Handler Outcome := .ret (.response ⟨status, body⟩)

def call (c : Call) : Handler Reply := do lift (← await (.call c))

def port (n : Nat) : String := "http://127.0.0.1:" ++ toString n

-- The loop of `backend` over the ports that `discover` found.
def discover : List Nat → Handler String
  | [] => throw (.http 503 "Open GA-Hub on the host computer, then retry.")
  | n :: rest => do
      let found ← tryCatch (do
          let up ← call { method := .get, base := port n, target := "/api/sessions", headers := [] }
          if up.status = 200 then return (← lift up.json).has "items" else return false)
        fun _ => return false
      if found then return port n else discover rest

def backend : Handler String := do
  match ← await .target with
  | some base => return base
  | none => discover (← await .ports)

-- The rows of `data['llms']` that have a key.
def modelRows : List Json → Except Error (List (Json × Json))
  | [] => .ok []
  | .obj members :: rows => do
      let rest ← modelRows rows
      match (Json.obj members).truthy? "key" with
      | some key => return (key, ((Json.obj members).truthy? "name").getD key) :: rest
      | none => return rest
  | _ :: _ => .error .other

def models (data : Json) : Except Error (List (Json × Json)) :=
  match data.get? "llms" with
  | some (.arr rows) => modelRows rows
  | some _ => .error .other
  | none => .error .key

def modelCatalog : Handler (List (Json × Json)) := do
  let base ← backend
  guarded [.client, .timeout, .value, .key, .runtime] (.http 502 "Model list unavailable") do
    let up ← call { method := .get, base, target := "/api/llms" }
    refuse (up.status ≠ 200) (.http 502 "Model list unavailable")
    let data ← lift up.json
    lift (models data)

-- `await r.json()` of a handler that answers what is no JSON with a 400
def jsonBody : Handler Json := do
  guarded [.value] (.http 400 "Invalid JSON") do lift (← await .json)

def originRequired (r : Request) : Handler Unit :=
  refuse (r.header "Origin" ≠ some publicOrigin) (.http 403 "Origin required")

def changeModel (r : Request) (sid : Word) : Handler Outcome := do
  originRequired r
  refuse (r.query ≠ "" ∨ r.contentType ≠ "application/json") (.http 400 "JSON without query required")
  let data ← jsonBody
  match data with
  | .obj [("llm_key", data)] => do
      match data with
      | .str key => do
          refuse (key = "" ∨ key.length > 256) (.http 400 "Invalid model key")
          let catalog ← modelCatalog
          refuse (catalog.all fun row => !row.1.isStr key) (.http 409 "Model unavailable; refresh the model list")
          let base ← backend
          guarded [.client, .timeout] (.http 502 "Model update uncertain; refresh the session") do
            let up ← call { method := .get, base, target := sessionPath sid "/runtime" }
            if up.status ≠ 200 then return .response ⟨up.status, ← lift up.read⟩
            else
              let runtime ← object (← lift up.json)
              refuse (runtime.text? "status" ≠ some "idle" ∧ runtime.text? "status" ≠ some "error")
                (.http 409 "Wait for the current run to finish")
              let up ← call { method := .put, base, target := r.path, body := .json (.obj [("llm_key", .str key)]) }
              return .response ⟨up.status, ← lift up.read⟩
      | _ => throw (.http 400 "Invalid model key")
  | _ => throw (.http 400 "Only llm_key allowed")

def abort (r : Request) : Handler Outcome := do
  originRequired r
  refuse (r.query ≠ "") (.http 400 "Empty body without query required")
  let body ← lift (← await .read)
  refuse (body ≠ "") (.http 400 "Empty body without query required")
  let base ← backend
  guarded [.client, .timeout] (.http 502 "Stop result uncertain; refresh runtime before retrying") do
    let up ← call { method := .post, base, target := r.path }
    return .response ⟨up.status, ← lift up.read⟩

def uploadLimit : Nat := 20 * 1024 * 1024

-- The name after the last separator, cut to what a file name may have.
def baseName (filename : String) : String :=
  .ofList (((filename.toList.reverse.takeWhile fun c => c ≠ '/' && c ≠ '\\').reverse).take 255)

def member (data : Json) (key : String) : Handler Json :=
  match data.get? key with
  | some v => .ret v
  | none => .raise .key

def upload (r : Request) : Handler Outcome := do
  originRequired r
  refuse (r.query ≠ "" ∨ r.contentType ≠ "multipart/form-data") (.http 400 "Multipart file required")
  let full ← await .uploadsFull
  refuse (full = true) (.http 429 "Upload cache full")
  guarded [.client, .timeout] (.http 502 "Upload failed; retry before sending") do
    guarded [.value, .key, .assertion] (.http 400 "Invalid upload") do
      match ← lift (← await .part) with
      | none => throw (.http 400 "One file required")
      | some part =>
          refuse (part.name ≠ "file" ∨ part.filename.getD "" = "") (.http 400 "One file required")
          refuse (part.chunks.sum > uploadLimit) (.http 413 "")
          let more ← lift (← await .part)
          refuse (more.isSome = true) (.http 400 "One file per upload required")
          let base ← backend
          let body := Body.file (baseName (part.filename.getD "")) part.chunks.sum
          let up ← call { method := .post, base, target := "/api/upload", body }
          if up.status ≠ 200 then respond up.status "Upload rejected by GA-Hub"
          else
            let data ← lift up.json
            let _ ← member data "path"
            let name ← member data "name"
            let size ← member data "size"
            let uid ← await .token
            return .json 200 (.obj [("upload_id", .str uid), ("name", name), ("size", size)])

-- A listed project that can be bound, with its opaque id and its label.
def projectRow (sign : Project → String) (item : Json) : Option (String × Project × Json) := do
  if (item.truthy? "dangling").isSome then none
  else
    let name ← item.text? "name"
    let path ← item.text? "path"
    if name = "" ∨ path = "" then none
    else some (sign ⟨name, path⟩, ⟨name, path⟩, (item.truthy? "display_name").getD (.str name))

def projectCatalog (sign : Project → String) : Handler (List (String × Project × Json)) := do
  let base ← backend
  let up ← call { method := .get, base, target := "/api/projects" }
  refuse (up.status ≠ 200) (.http 502 "项目列表读取失败，请重试")
  let data ← object (← lift up.json)
  match data.get? "items" with
  | none => return []
  | some (.arr items) => return items.filterMap (projectRow sign)
  | some _ => throw .other

def creationOf : Json → Except Error Creation
  | .obj members =>
      if !Json.hasKeys members ["request_id", "project_id"] then
        .error (.http 400 "Only request_id and project_id allowed")
      else match members.lookup "request_id", members.lookup "project_id" with
        | some (.str requestId), some .null => checked ⟨requestId, none⟩
        | some (.str requestId), some (.str pid) => checked ⟨requestId, some pid⟩
        | some (.str requestId), _ =>
            if validRequestId requestId then .error (.http 400 "Invalid project_id")
            else .error (.http 400 "Invalid request_id")
        | _, _ => .error (.http 400 "Invalid request_id")
  | _ => .error (.http 400 "Only request_id and project_id allowed")
where
  checked (data : Creation) : Except Error Creation :=
    match data.error with
    | some text => .error (.http 400 text)
    | none => .ok data

-- The binding of the project, and the end of a `perform`.
def bindProject (base : String) (sid : Word) (session : Json) : Option Project → Handler Outcome
  | none => .ret (.json 201 session)
  | some project => do
      let body := Body.json (.obj [("name", .str project.name), ("path", .str project.path)])
      let up ← call { method := .put, base, target := sessionPath sid "/project", body }
      if up.status ≠ 200 then
        respond up.status ("会话 " ++ sid.val ++ " 已创建，但项目绑定失败；点击重试继续绑定，不会重复创建。")
      else return .json 201 (← lift up.json)

def sessionId (session : Json) : Handler Word :=
  match session.text? "id" with
  | some id => if h : isWord id = true then .ret ⟨id, h⟩ else .raise .value
  | none => .raise .value

def findProject (sign : Project → String) : Option String → Handler (Option Project)
  | none => .ret none
  | some pid => do
      match (← projectCatalog sign).lookup pid with
      | some (project, _) => return some project
      | none => throw (.http 409 "项目已不可用，请重新选择")

def perform (sign : Project → String) (cookie : Option CookieId) (data : Creation) : Handler Outcome := do
  match ← await (.entry cookie data.requestId) with
  | .done session => return .json 201 session
  | .underway session attempted => do
      let base ← backend
      let project ← findProject sign data.projectId
      match session with
      | some (sid, session) => bindProject base sid session project
      | none => do
          refuse (attempted = true) (.http 409 "创建结果未确认，请刷新列表检查后再新建，勿重复提交")
          let body := Body.json (.obj [("title", .str "")])
          let up ← call { method := .post, base, target := "/api/sessions", body }
          if up.status ≠ 201 then respond up.status "GA-Hub 拒绝创建会话"
          else
            let session ← object (← lift up.json)
            let sid ← sessionId session
            bindProject base sid session project

def uncertain : Error := .http 502 "创建或绑定结果未确认，请重试；若仍失败，请刷新列表检查已有会话。"

def createSession (r : Request) : Handler Outcome := do
  originRequired r
  refuse (r.query ≠ "" ∨ r.contentType ≠ "application/json") (.http 400 "JSON without query required")
  let data ← lift (creationOf (← jsonBody))
  match ← await (.creation data) with
  | .present false => throw (.http 409 "request_id already used with a different project")
  | .absent true => throw (.http 429 "Create cache full")
  | .present true | .absent false => do
      await (.start (.perform r.cookie data))
      guarded [.client, .timeout, .value, .key, .runtime] uncertain do lift (← await .performed)

def submissionOf : Json → Except Error Submission
  | .obj members =>
      if !(Json.hasKeys members ["text", "request_id"] || Json.hasKeys members ["text", "request_id", "upload_ids"]) then
        .error (.http 400 "Only text, request_id and upload_ids allowed")
      else
        match ids (members.lookup "upload_ids"), members.lookup "text", members.lookup "request_id" with
        | none, _, _ => .error (.http 400 "Invalid upload_ids")
        | some ids, some (.str text), some (.str requestId) => checked ⟨text, requestId, ids⟩
        | some ids, some (.str text), _ => checked ⟨text, "", ids⟩
        | some ids, _, _ => .error (.http 400 (if ids.length > 8 ∨ ¬ids.Nodup then "Invalid upload_ids"
            else "Text or attachment required; maximum 6000 characters"))
  | _ => .error (.http 400 "Only text, request_id and upload_ids allowed")
where
  ids : Option Json → Option (List String)
    | none => some []
    | some (.arr xs) => Json.strings? xs
    | some _ => none
  checked (sub : Submission) : Except Error Submission :=
    match sub.error with
    | some text => .error (.http 400 text)
    | none => .ok sub

def attachments : List UploadId → Handler (List Attachment)
  | [] => .ret []
  | uid :: ids => do
      match ← await (.upload uid) with
      | none => throw (.http 400 "Attachment expired or not owned by this login; upload again")
      | some attachment => return attachment :: (← attachments ids)

def submit (r : Request) : Handler Outcome := do
  originRequired r
  refuse (r.query ≠ "" ∨ r.contentType ≠ "application/json") (.http 400 "JSON without query required")
  let sub ← lift (submissionOf (← jsonBody))
  let attachments ← attachments sub.uploadIds
  match ← await (.submission r.path sub) with
  | .absent true => throw (.http 429 "Submission cache full")
  | .present false => throw (.http 409 "request_id reused for different content")
  | .present true => return .response (← await .forwarded)
  | .absent false => do
      let base ← backend
      match ← await (.submission r.path sub) with
      | .present false => throw (.http 409 "request_id reused for different content")
      | .present true => return .response (← await .forwarded)
      | .absent _ => do
          await (.start (.forward base r.path sub.text attachments))
          return .response (← await .forwarded)

def attachmentJson (a : Attachment) : Json :=
  .obj [("path", .str a.path), ("name", .str a.name), ("size", .num a.size), ("source", .str "managed_upload")]

def forwardSubmit (base path text : String) (attachments : List Attachment) : Handler Outcome := do
  let text := if strip text = "" then "请查看附件" else text
  let payload := [("text", .str text), ("source", .str "remote-webui")] ++
    if attachments = [] then [] else [("attachments", Json.arr (attachments.map attachmentJson))]
  tryCatch (do
    let up ← call { method := .post, base, target := path, body := .json (.obj payload) }
    return .response ⟨up.status, ← lift up.read⟩)
    fun e => if e ∈ [.client, .timeout] then respond 504 "发送结果不确定，请先查看会话和运行状态，不要重复发送。" else throw e

-- `base.replace('http:','ws:')`
def socketBase (base : String) : String := base.replace "http:" "ws:"

-- The upstream connection of a `ProgressChannel`.
def channel (base : String) (sid : Word) : Handler Outcome := do
  let _ ← call { method := .get, base := socketBase base, target := socketPath sid, headers := [("Origin", base)] }
  return .upgraded

def runJob (sign : Project → String) : Job → Handler Outcome
  | .forward base path text attachments => forwardSubmit base path text attachments
  | .perform cookie data => perform sign cookie data
  | .channel base sid => channel base sid

-- `ProgressHub.get`: its channel, once that has something to show.
def progressGet (base : String) (sid : Word) : Handler Json := do
  let made ← lift (← await (.hub base sid))
  if made then await (.start (.channel base sid))
  lift (← await (.latest base sid))

def projects (sign : Project → String) (r : Request) : Handler Outcome := do
  refuse (r.originOk = false) (.http 403 "")
  refuse (r.query ≠ "") (.http 400 "Query not allowed")
  let catalog ← guarded [.client, .timeout, .value] (.http 502 "项目列表读取失败，请重试") do projectCatalog sign
  return .json 200 (.obj [("items", .arr (catalog.map fun p => .obj [("id", .str p.1), ("name", p.2.2)]))])

def llms (r : Request) : Handler Outcome := do
  refuse (r.originOk = false) (.http 403 "")
  refuse (r.query ≠ "") (.http 400 "Query not allowed")
  let catalog ← modelCatalog
  return .json 200 (.obj [("llms", .arr (catalog.map fun row => .obj [("key", row.1), ("name", row.2)]))])

def login (r : Request) : Handler Outcome := do
  if r.method = .get then return .response ⟨200, ← await (.file "LOGIN")⟩
  else
    refuse (r.method ≠ .post ∨ r.originOk = false) (.http 403 "")
    let failures ← await (.failures ((r.header "CF-Connecting-IP").getD r.remote))
    refuse (failures ≥ 6) (.http 429 "Retry in 10 minutes.")
    let ok ← await .credentials
    refuse (ok = false) (.http 401 "Invalid username or password")
    return .redirect "/chat" (some (← await .issue))

def logout (r : Request) : Handler Outcome := do
  refuse (r.method ≠ .post ∨ r.originOk = false) (.http 403 "")
  return .redirect "/_gateway/login" none

def pages : List (String × String) :=
  [("/", "remote.html"), ("/chat", "remote.html"), ("/sessions", "remote.html"), ("/remote.js", "remote.js"),
    ("/remote.css", "remote.css")]

def live (r : Request) (sid : Word) : Handler Outcome := do
  refuse (r.method ≠ .get ∨ r.query ≠ "") (.http 400 "")
  let _ ← guarded [.client, .timeout, .value, .runtime] (.http 502 "Progress temporarily unavailable") do
    progressGet (← backend) sid
  await (.serve (.live sid))
  return .upgraded

def progress (r : Request) (sid : Word) : Handler Outcome := do
  refuse (r.method ≠ .get) (.http 403 "")
  let data ← guarded [.client, .timeout, .value, .key, .runtime] (.http 502 "实时进度读取失败，请稍后重试。") do
    progressGet (← backend) sid
  return .json 200 (← await (.decorate data sid.val))

-- `GET …/messages?view=compact`
def compact (r : Request) (base : String) : Handler Outcome := do
  guarded [.client, .timeout] (.http 502 "Backend disconnected. Retry shortly.") do
    let up ← call { method := .get, base, target := r.path, params := r.params.filter (·.1 ≠ "view") }
    if up.status ≠ 200 then return .response ⟨up.status, ← lift up.read⟩
    else
      let projected ← lift (← await (.compact (← lift up.json)))
      return .json 200 (← await (.decorate projected ((r.path.splitOn "/").getD 3 "")))

def webSocket (r : Request) (base : String) : Handler Outcome := do
  match socketRoute r.path with
  | none => throw (.http 403 "")
  | some sid => do
      let _ ← tryCatch
        (call { method := .get, base := socketBase base, target := r.pathQs, headers := [("Origin", base)] })
        fun _ => throw (.http 502 "Backend websocket unavailable")
      await (.serve (.proxied sid))
      return .upgraded

def hop : List String :=
  ["connection", "keep-alive", "proxy-authenticate", "proxy-authorization", "te", "trailer", "transfer-encoding",
    "upgrade", "content-length", "content-encoding", "set-cookie", "access-control-allow-origin",
    "access-control-allow-credentials"]

def withheld : List String :=
  hop ++ ["host", "cookie", "authorization", "origin", "x-forwarded-host", "x-forwarded-proto"]

def proxied (r : Request) (base : String) : Handler Outcome := do
  let headers := r.headers.filter (fun h => lower h.1 ∉ withheld) ++ [("Origin", base)]
  guarded [.client, .timeout] (.http 502 "Backend disconnected. Retry shortly.") do
    let up ← call { method := r.method, base, target := r.pathQs, headers }
    return .response ⟨up.status, ← lift up.read⟩

-- The part of `handle` for reads.
def reads (r : Request) : Handler Outcome := do
  refuse (r.method ≠ .get ∧ r.method ≠ .head) (.http 403 "API not available remotely.")
  refuse (r.originOk = false) (.http 403 "")
  match artifactRoute r.path with
  | some (sid, token) => do
      refuse (r.query ≠ "") (.http 400 "Query not allowed")
      return .response (← lift (← await (.artifact sid token)))
  | none => do
      refuse (begins "/api/" r.path = true ∧ safe r.path = false) (.http 403 "API not available remotely.")
      match pages.lookup r.path with
      | some page => return .response ⟨200, ← await (.file page)⟩
      | none =>
          match sessionRoute "/live" r.path, sessionRoute "/progress" r.path with
          | some sid, _ => live r sid
          | none, some sid => progress r sid
          | none, none => do
              refuse (safe r.path = false ∧ socketRoute r.path = none) (.http 404 "")
              let base ← backend
              if "/messages".toList <:+ r.path.toList ∧ r.params.lookup "view" = some "compact" then compact r base
              else if r.websocket then webSocket r base
              else proxied r base

-- The part of `handle` behind the cookie, in the order of its branches.
def dispatch (sign : Project → String) (r : Request) : Handler Outcome :=
  if r.path = "/_gateway/logout" then logout r
  else if begins "/_" r.path then throw (.http 404 "")
  else if r.method = .post ∧ (sessionRoute "/runs" r.path).isSome then submit r
  else if r.method = .post ∧ (sessionRoute "/abort" r.path).isSome then abort r
  else if r.method = .post ∧ r.path = "/api/upload" then upload r
  else if r.method = .post ∧ r.path = "/api/sessions" then createSession r
  else if r.path = "/api/projects" ∧ r.method = .get then projects sign r
  else
    match (sessionRoute "/model" r.path).filter fun _ => r.method = .put with
    | some sid => changeModel r sid
    | none => if r.path = "/api/llms" ∧ r.method = .get then llms r else reads r

def hosts : List String := [publicHost, "127.0.0.1", "localhost"]

def handle (sign : Project → String) (r : Request) : Handler Outcome := do
  refuse (r.hostName ∉ hosts) (.http 421 "")
  if r.path = "/_gateway/login" then login r
  else
    let ok ← await .authenticated
    refuse (ok = false) (if begins "/api/" r.path ∨ begins "/ws/" r.path ∨ r.websocket then
      .http 401 "Login required" else .http 303 "/_gateway/login")
    dispatch sign r

end GaHub.Remote.Handle
