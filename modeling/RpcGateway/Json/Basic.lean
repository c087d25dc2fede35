import RpcGateway.Number.Binary

/-!
JSON values. Integers are kept apart from other numbers. The members of an object are in ascending
order of their names, and an object holds each name once.
-/
namespace RpcGateway
open Number

inductive Json where
  | null
  | bool (b : Bool)
  | int (i : Int)
  | double (x : Double)
  | str (s : String)
  | arr (items : List Json)
  | obj (members : List (String × Json))
  deriving Repr, BEq, Inhabited

namespace Json

/-- Members with `value` under `name`, in order; an earlier value of that name is replaced. -/
def putMember (name : String) (value : Json) : List (String × Json) → List (String × Json)
  | [] => [(name, value)]
  | (k, v) :: rest =>
    if name = k then (name, value) :: rest
    else if name < k then (name, value) :: (k, v) :: rest
    else (k, v) :: putMember name value rest

/-- The object with these members; of equal names the last counts. -/
def ofMembers (members : List (String × Json)) : Json :=
  .obj (members.foldl (fun ms (k, v) => putMember k v ms) [])

/-- The value of a member. -/
def member? (name : String) : Json → Option Json
  | .obj members => members.lookup name
  | _ => none

/-- A value that is absent when it is `null`. -/
def nonNull? : Json → Option Json
  | .null => none
  | v => some v

def ofOption : Option Json → Json
  | none => .null
  | some v => v

end Json

end RpcGateway
