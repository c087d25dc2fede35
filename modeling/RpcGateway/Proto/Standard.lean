import RpcGateway.Proto.Type

/-!
Message types with a JSON form of their own, which is not that of their fields. They are known by
their names. A pool may declare such a name with other fields than the standard type has; on the way
to and from JSON, a message is one of the standard type.
-/
namespace RpcGateway.Proto

/-- What a message of a standard type is in JSON. -/
inductive Form
  /-- The value of the one field. -/
  | wrapper (s : Scalar)
  /-- A point in time as text. -/
  | timestamp
  /-- A length of time as text. -/
  | duration
  /-- A list of paths as text. -/
  | fieldMask
  /-- An object without members. -/
  | empty
  /-- An object with any members. -/
  | struct
  /-- Any JSON value. -/
  | value
  /-- A list of any JSON values. -/
  | list
  /-- A message of some type with the address of the type. -/
  | any
  deriving DecidableEq, Repr, Inhabited

namespace Standard

def nameOf (name : String) : String := "google.protobuf." ++ name

/-- A field with at most one value. -/
def one (number : Nat) (name : String) (type : FieldType) (presence : Bool) : FieldDef :=
  ⟨name, name, number, none, .single ⟨type, presence⟩⟩

def many (number : Nat) (name : String) (type : FieldType) : FieldDef :=
  ⟨name, name, number, none, .list type false false⟩

def text : FieldType := .scalar .string

def part (name : String) : FieldType := .message (nameOf name)

/-- A wrapper type. Its field goes without a name. -/
def wrapper (name : String) (s : Scalar) : String × Form × MessageType :=
  (nameOf name, .wrapper s, ⟨nameOf name, [one 1 "" (.scalar s) false]⟩)

def standard (name : String) (form : Form) (fields : List FieldDef) :
    String × Form × MessageType :=
  (nameOf name, form, ⟨nameOf name, fields⟩)

/-- Seconds and nanoseconds. -/
def timeFields : List FieldDef :=
  [one 1 "seconds" (.scalar .int64) false, one 2 "nanos" (.scalar .int32) false]

/-- The field of JSON objects: a map from names to values. -/
def structFields : List FieldDef :=
  [⟨"fields", "fields", 1, none, .map ⟨text, false⟩ ⟨part "Value", true⟩ false⟩]

/-- One of the kinds of JSON values. -/
def kind (number : Nat) (type : FieldType) : FieldDef :=
  { one number "kind" type true with oneof := some 0 }

def valueFields : List FieldDef :=
  [kind 1 (.enum (nameOf "NullValue")), kind 2 (.scalar .double), kind 3 text,
    kind 4 (.scalar .bool), kind 5 (part "Struct"), kind 6 (part "ListValue")]

/-- Names, forms and fields of the standard types. -/
def types : List (String × Form × MessageType) :=
  [wrapper "DoubleValue" .double, wrapper "FloatValue" .float, wrapper "Int64Value" .int64,
    wrapper "UInt64Value" .uint64, wrapper "Int32Value" .int32, wrapper "UInt32Value" .uint32,
    wrapper "BoolValue" .bool, wrapper "StringValue" .string, wrapper "BytesValue" .bytes,
    standard "Timestamp" .timestamp timeFields, standard "Duration" .duration timeFields,
    standard "FieldMask" .fieldMask [many 1 "paths" text], standard "Empty" .empty [],
    standard "Struct" .struct structFields, standard "Value" .value valueFields,
    standard "ListValue" .list [many 1 "values" (part "Value")],
    standard "Any" .any [one 1 "type_url" text false, one 2 "value" (.scalar .bytes) false]]

/-- The standard types as they are. -/
def pool : Pool where
  messages := .ofList MessageType.fullName (types.map fun t => t.2.2)
  enums := .ofList EnumType.fullName [⟨nameOf "NullValue", [("NULL_VALUE", 0)]⟩]
  keepsUnknown := false

/-- The form of a type and its standard fields, by the type's name. -/
def find? (t : MessageType) : Option (Form × MessageType) := types.lookup t.fullName

/-- The enum whose value is `null` in JSON. -/
def nullEnum : String := nameOf "NullValue"

/-- The type of any JSON value. -/
def valueType : String := nameOf "Value"

end Standard

/-- Whether the JSON form of a type is not that of its fields. -/
def MessageType.isStandard (t : MessageType) : Bool := (Standard.find? t).isSome

end RpcGateway.Proto
