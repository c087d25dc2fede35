import RpcGateway.Table

/-!
Message types with all names resolved, and the pool that holds them. A pool finds messages, enums
and services by their full names.
-/
namespace RpcGateway.Proto

/-- Types of single values that need no declaration. -/
inductive Scalar
  | double | float | int32 | int64 | uint32 | uint64 | sint32 | sint64 | fixed32 | fixed64
  | sfixed32 | sfixed64 | bool | string | bytes
  deriving DecidableEq, Repr, Inhabited

/-- The type of one value. Declared types are given by their full names. -/
inductive FieldType
  | scalar (s : Scalar)
  | enum (name : String)
  | message (name : String)
  | group (name : String)
  deriving DecidableEq, Repr, Inhabited

/-- Whether lists of a type may be written without a key per element. -/
def FieldType.isPackable : FieldType → Bool
  | .scalar .string => false
  | .scalar .bytes => false
  | .scalar _ => true
  | .enum _ => true
  | .message _ => false
  | .group _ => false

def FieldType.isMessage : FieldType → Bool
  | .message _ => true
  | .group _ => true
  | _ => false

/-- A single value. With presence, being set to the default differs from not being set. -/
structure Slot where
  type : FieldType
  presence : Bool
  deriving DecidableEq, Repr, Inhabited

/-- What a field holds. Lists and maps have presence where they are declared so. -/
inductive Content
  | single (slot : Slot)
  | list (type : FieldType) (packed presence : Bool)
  | map (key value : Slot) (presence : Bool)
  deriving DecidableEq, Repr, Inhabited

def Content.hasPresence : Content → Bool
  | single slot => slot.presence
  | list _ _ presence => presence
  | map _ _ presence => presence

/-- A field of a message type. -/
structure FieldDef where
  name : String
  jsonName : String
  number : Nat
  /-- Position of the oneof that the field belongs to. -/
  oneof : Option Nat
  content : Content
  deriving DecidableEq, Repr, Inhabited

structure MessageType where
  fullName : String
  fields : List FieldDef
  deriving DecidableEq, Repr, Inhabited

namespace MessageType

/-- A type without fields. -/
def bare (fullName : String) : MessageType := ⟨fullName, []⟩

def field? (t : MessageType) (number : Nat) : Option FieldDef :=
  t.fields.find? (·.number == number)

/-- The field of a JSON name, or else of a declared name. -/
def fieldOfMember? (t : MessageType) (name : String) : Option FieldDef :=
  (t.fields.find? (·.jsonName == name)).or (t.fields.find? (·.name == name))

def fieldOfName? (t : MessageType) (name : String) : Option FieldDef :=
  t.fields.find? (·.name == name)

/-- The type without the field of a member. -/
def withoutMember (t : MessageType) (name : String) : MessageType :=
  { t with fields := t.fields.filter fun f => f.jsonName != name && f.name != name }

end MessageType

structure EnumType where
  fullName : String
  /-- Names and numbers in the order of their declaration. -/
  values : List (String × Int)
  deriving DecidableEq, Repr, Inhabited

namespace EnumType

def number? (t : EnumType) (name : String) : Option Int := t.values.lookup name

/-- The first name of a number. -/
def name? (t : EnumType) (number : Int) : Option String :=
  (t.values.find? (·.2 == number)).map Prod.fst

/-- The number of the first value. -/
def default (t : EnumType) : Int := (t.values.head?.map Prod.snd).getD 0

end EnumType

structure MethodType where
  name : String
  service : String
  input : String
  output : String
  deriving DecidableEq, Repr, Inhabited

/-- The path of a call: the full name of the service, then the method. -/
def MethodType.path (m : MethodType) : String := "/" ++ m.service ++ "/" ++ m.name

structure ServiceType where
  fullName : String
  methods : List MethodType
  deriving DecidableEq, Repr, Inhabited

def ServiceType.method? (s : ServiceType) (name : String) : Option MethodType :=
  s.methods.find? (·.name == name)

structure Pool where
  messages : Table MessageType := .empty
  enums : Table EnumType := .empty
  services : Table ServiceType := .empty
  /-- Whether messages keep fields that their type does not have. Where they do not, such fields and
  the entries of maps count among what is nested. -/
  keepsUnknown : Bool := true
  deriving Inhabited

namespace Pool

/-- A name without one leading dot. -/
def withoutDot (name : String) : String :=
  match name.toList with
  | '.' :: cs => String.ofList cs
  | _ => name

def message? (p : Pool) (name : String) : Option MessageType := p.messages.get? (withoutDot name)
def service? (p : Pool) (name : String) : Option ServiceType := p.services.get? (withoutDot name)

/-- The type of a name that fields refer to. -/
def messageType (p : Pool) (name : String) : MessageType :=
  (p.messages.get? name).getD (.bare name)

def enumType (p : Pool) (name : String) : EnumType := (p.enums.get? name).getD ⟨name, []⟩

/-- The message type that a field type refers to. -/
def referred? (p : Pool) : FieldType → Option MessageType
  | .message name => some (p.messageType name)
  | .group name => some (p.messageType name)
  | _ => none

/-- The request type of a method. -/
def inputType (p : Pool) (m : MethodType) : MessageType := p.messageType m.input

/-- The response type of a method. -/
def outputType (p : Pool) (m : MethodType) : MessageType := p.messageType m.output

/-- The method of a service by their names. -/
def method? (p : Pool) (service name : String) : Option MethodType :=
  (p.service? service).bind (·.method? name)

end Pool

end RpcGateway.Proto
