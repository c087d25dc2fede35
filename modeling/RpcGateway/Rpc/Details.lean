import RpcGateway.Proto.Reader
import RpcGateway.Proto.ToJson
import RpcGateway.Rpc.Status
import RpcGateway.Text.Pieces

/-!
Details of a status: messages of any type, each with the address of its type. In JSON a detail is an
object with its address, and with all its members where its type is known.
-/
namespace RpcGateway.Rpc
open Proto

/-- A message of some type, encoded. -/
structure Detail where
  typeUrl : String
  value : Bytes
  deriving DecidableEq, Repr, Inhabited

namespace Detail

def implicitSlot (s : Scalar) : Content := .single ⟨.scalar s, false⟩

def anyType : MessageType where
  fullName := "google.protobuf.Any"
  fields :=
    [⟨"type_url", "typeUrl", 1, none, implicitSlot .string⟩,
      ⟨"value", "value", 2, none, implicitSlot .bytes⟩]

/-- The type of the details of a status: its code, its message and the details themselves. -/
def statusType : MessageType where
  fullName := "google.rpc.Status"
  fields :=
    [⟨"code", "code", 1, none, implicitSlot .int32⟩,
      ⟨"message", "message", 2, none, implicitSlot .string⟩,
      ⟨"details", "details", 3, none, .list (.message anyType.fullName) false false⟩]

/-- The two types. -/
def pool : Pool where
  messages := (Table.empty.insert anyType.fullName anyType).insert statusType.fullName statusType
  keepsUnknown := false

def ofValue : Value → Detail
  | .message fields =>
    { typeUrl := match Fields.get? fields 1 with
        | some (.text url) => url
        | _ => ""
      value := match Fields.get? fields 2 with
        | some (.bytes b) => b
        | _ => [] }
  | _ => ⟨"", []⟩

def toValue (d : Detail) : Value := .message [(1, .text d.typeUrl), (2, .bytes d.value)]

/-- The details that bytes hold, unless they are no status. -/
def decode? (b : Bytes) : Option (List Detail) :=
  match Message.ofBytes pool statusType b with
  | .error _ => none
  | .ok m =>
    match Fields.get? m.fields 3 with
    | some (.list items) => some (items.map ofValue)
    | _ => some []

/-- The bytes of a status with a message and details. -/
def encode (message : String) (details : List Detail) : Bytes :=
  Message.toBytes pool ⟨statusType, [(2, .text message), (3, .list (details.map toValue))]⟩

/-- The type that the address of a detail names: what follows its last slash. -/
def typeName (d : Detail) : String := Text.lastPiece '/' d.typeUrl

/-- The members of a detail, if its type is known, its value decodes and has an object as its JSON
form. -/
def members? (pool : Pool) (d : Detail) : Option (List (String × Json)) :=
  match pool.message? d.typeName with
  | none => none
  | some type =>
    match Message.ofBytes pool type d.value with
    | .error _ => none
    | .ok m =>
      match m.toJson pool false with
      | .ok (.obj members) => some members
      | _ => none

def toJson (pool : Option Pool) (d : Detail) : Json :=
  .obj (Json.putMember typeMember (.str d.typeUrl) ((pool.bind d.members?).getD []))

end Detail

/-- The JSON form of a status's details, if there are any. -/
def Status.detailsJson (pool : Option Pool) (s : Status) : Option Json :=
  if s.details.isEmpty then none
  else
    match Detail.decode? s.details with
    | none => none
    | some [] => none
    | some details => some (.arr (details.map (Detail.toJson pool)))

end RpcGateway.Rpc
