import RpcGateway.Json.Basic
import RpcGateway.Proto.Value

/-!
JSON values as messages: a value has one of several kinds, an object is a map from names to values,
and a list is a list of values. Numbers are floating-point numbers.
-/
namespace RpcGateway.Proto
open Number

/-! ## Reading -/

mutual

/-- The fields of the message for a value. -/
def fieldsOfValue : Json → Fields
  | .null => [(1, .int 0)]
  | .int i => [(2, .double (.ofInt i))]
  | .double x => [(2, .double x)]
  | .str s => [(3, .text s)]
  | .bool b => [(4, .bool b)]
  | .obj members => [(5, .message [(1, .map (entriesOfMembers members))])]
  | .arr items => [(6, .message [(1, .list (messagesOfItems items))])]

def entriesOfMembers : List (String × Json) → List (Value × Value)
  | [] => []
  | (name, j) :: rest => (.text name, .message (fieldsOfValue j)) :: entriesOfMembers rest

def messagesOfItems : List Json → List Value
  | [] => []
  | j :: rest => .message (fieldsOfValue j) :: messagesOfItems rest

end

/-- The fields of the message for an object. -/
def fieldsOfObject (members : List (String × Json)) : Fields :=
  [(1, .map (entriesOfMembers members))]

/-- The fields of the message for a list. -/
def fieldsOfList (items : List Json) : Fields := [(1, .list (messagesOfItems items))]

/-! ## Writing -/

mutual

/-- The value of a message, `null` if no kind is set, and nothing for numbers that JSON lacks. -/
def valueOfFields : List (Nat × Value) → Option Json
  | [] => some .null
  | (2, .double x) :: _ => if x.isFinite then some (.double x) else none
  | (3, .text s) :: _ => some (.str s)
  | (4, .bool b) :: _ => some (.bool b)
  | (5, .message fields) :: _ => objectOfFields fields
  | (6, .message fields) :: _ => listOfFields fields
  | _ :: _ => some .null

def objectOfFields : List (Nat × Value) → Option Json
  | (1, .map entries) :: _ => (membersOfEntries entries).map Json.ofMembers
  | _ => some (.obj [])

def listOfFields : List (Nat × Value) → Option Json
  | (1, .list items) :: _ => (itemsOfMessages items).map Json.arr
  | _ => some (.arr [])

def membersOfEntries : List (Value × Value) → Option (List (String × Json))
  | [] => some []
  | (.text name, .message fields) :: rest =>
    match valueOfFields fields, membersOfEntries rest with
    | some j, some members => some ((name, j) :: members)
    | _, _ => none
  | _ :: rest => membersOfEntries rest

def itemsOfMessages : List Value → Option (List Json)
  | [] => some []
  | .message fields :: rest =>
    match valueOfFields fields, itemsOfMessages rest with
    | some j, some items => some (j :: items)
    | _, _ => none
  | _ :: rest => itemsOfMessages rest

end

end RpcGateway.Proto
