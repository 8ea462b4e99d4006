import Mathlib.Data.Rat.Defs
import Mathlib.Data.List.Infix

namespace Lib

-- What a JSON text is read as. The keys of an object are distinct there.
inductive Json where
  | null
  | bool (b : Bool)
  | num (q : ℚ)
  | str (s : String)
  | arr (xs : List Json)
  | obj (members : List (String × Json))

namespace Json

def get? : Json → String → Option Json
  | obj members, key => members.lookup key
  | _, _ => none

def isStr : Json → String → Bool
  | str s, t => s == t
  | _, _ => false

-- Python's truth value, and its `key in value` where that is defined.
def truthy : Json → Bool
  | null => false
  | bool b => b
  | num q => q ≠ 0
  | str s => s ≠ ""
  | arr xs => !xs.isEmpty
  | obj members => !members.isEmpty

def has : Json → String → Bool
  | str s, key => decide (key.toList <:+: s.toList)
  | arr xs, key => xs.any (isStr · key)
  | obj members, key => members.any (·.1 == key)
  | _, _ => false

-- `value.get(key) or …`
def truthy? (v : Json) (key : String) : Option Json := (v.get? key).filter truthy

def text? (v : Json) (key : String) : Option String :=
  match v.get? key with
  | some (str s) => some s
  | _ => none

def strings? : List Json → Option (List String)
  | [] => some []
  | str s :: xs => (strings? xs).map (s :: ·)
  | _ :: _ => none

def hasKeys (members : List (String × Json)) (keys : List String) : Bool :=
  members.all (fun m => m.1 ∈ keys) && keys.all (fun key => members.any (·.1 == key))

end Json

end Lib
