import GaHub.Conductor

namespace GaHub.Conductor

open Lib

abbrev OperationId := String

inductive CommandState where
  | pending
  | sending
  | succeeded
  | rejected
  | unknown
  deriving DecidableEq

-- A member of an intent. Lists and objects are passed through as text.
inductive Value where
  | null
  | bool (b : Bool)
  | int (n : Int)
  | str (s : String)
  | json (text : String)
  deriving DecidableEq

-- `True == 1` holds in the source's language.
def Value.key : Value → Value
  | .bool true => .int 1
  | .bool false => .int 0
  | v => v

-- The arguments of a command as its caller gave them.
abbrev Intent := Dict String Value

namespace Intent

variable (i j : Intent)

-- `==` of two dicts: the order of the members does not count.
def equal : Bool :=
  decide (∀ k ∈ i.keys ++ j.keys, (i.get? k).map Value.key = (j.get? k).map Value.key)

def text (k : String) : Option String :=
  match i.get? k with
  | some (.str s) => some s
  | _ => none

-- `intent["kind"] == "chat" and intent.get("role") == "user"`
def isUserChat : Bool := decide (i.text "kind" = some "chat" ∧ i.text "role" = some "user")

-- `intent.get("request_id")`, where it is truthy.
def hint : Option RequestId := (i.text "request_id").filter fun r => decide (r ≠ "")

end Intent

structure CommandPayload where
  intent : Intent
  bootId : Option String := none
  requestId : Option RequestId := none
  auto : Bool := false
  suspended : Bool := false
  prepared : Option Intent := none
  expectedGeneration : Option Int := none
  expectedCommandRevision : Option Int := none
  modelPolicy : Option String := none
  deriving DecidableEq

-- The members of an error object the command layer reads or adds.
structure Detail where
  error : Option String := none
  enqueued : Bool := false
  operationId : Option OperationId := none
  operationState : Option CommandState := none
  rest : String := ""
  deriving DecidableEq

-- `exc.detail`: an object, or anything else the engine or the transport gave.
inductive ErrorDetail where
  | text (message : String)
  | object (detail : Detail)
  deriving DecidableEq

-- `detail if isinstance(detail, dict) else {"message": ...}`
def ErrorDetail.detail : ErrorDetail → Detail
  | .text message => { rest := message }
  | .object detail => detail

-- What `result_json` holds.
inductive CommandResult where
  | reply (body : String)
  | failure (statusCode : Option Nat) (detail : ErrorDetail)
  | note (error : String)
  deriving DecidableEq

structure ChatItem where
  id : Option String
  role : Option String := none
  final : Bool := false
  requestId : Option RequestId := none
  msg : String := ""
  ts : Option Time := none
  kind : Option String := none
  deriving DecidableEq

end GaHub.Conductor
