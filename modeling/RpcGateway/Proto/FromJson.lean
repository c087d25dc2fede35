import RpcGateway.Proto.FieldMask
import RpcGateway.Proto.Range
import RpcGateway.Proto.Reader
import RpcGateway.Proto.Standard
import RpcGateway.Proto.Structured
import RpcGateway.Text.Base64
import RpcGateway.Time.Instant
import RpcGateway.Time.Span

/-!
Messages from their JSON form. Members are fields by JSON name or declared name, unknown ones are
ignored at any depth, and `null` leaves a field unset. Unknown names of enum values are dropped.
Standard types have forms of their own.
-/
namespace RpcGateway.Proto
open Number

/-- The greatest integer of a type as a floating-point number, which of 64 bits is one more. -/
def Scalar.greatestDouble (s : Scalar) : Int := ((Double.ofInt s.range.2).toInt?).getD s.range.2

/-- An integer given as a floating-point number. The one nearest to the greatest integer stands for
it. -/
def Scalar.integerOfDouble? (s : Scalar) (x : Double) : Option Value :=
  match x.toInt? with
  | none => none
  | some i => if i ≤ s.greatestDouble then s.integer? (min i s.range.2) else none

/-- The greatest finite single-precision number. -/
def maxSingle : Double := Single.toDouble ⟨0x7F7FFFFF⟩

/-- Whether a double-precision number lies between the finite single-precision ones. -/
def fitsSingle (x : Double) : Bool := x.magnitude ≤ maxSingle.magnitude

/-- A scalar from its JSON form. -/
def Scalar.ofJson? (s : Scalar) (j : Json) : Option Value :=
  match s, j with
  | .bool, .bool b => some (.bool b)
  | .bool, _ => none
  | .string, .str t => some (.text t)
  | .string, _ => none
  | .bytes, .str t => (Text.Base64.decode (utf8 t)).map .bytes
  | .bytes, _ => none
  | .double, .int i => some (.double (.ofInt i))
  | .double, .double x => some (.double x)
  | .double, .str t => (Double.ofText? (utf8 t)).map .double
  | .double, _ => none
  | .float, .int i => some (.single (.ofInt i))
  | .float, .double x => if fitsSingle x then some (.single (.ofDouble x)) else none
  | .float, .str t => (Single.ofText? (utf8 t)).map .single
  | .float, _ => none
  | s, .int i => s.integer? i
  | s, .double x => s.integerOfDouble? x
  | s, .str t => s.integerOfText? t
  | _, _ => none

/-- What the form of a value in JSON amounts to: a value, or nothing where an enum has no such name.
-/
abbrev JsonReading := Option (Option Value)

/-- An enum value by its name or by a number of 32 bits, which may be unknown. The enum for `null`
has that for its number. -/
def EnumType.ofJson? (t : EnumType) (j : Json) : JsonReading :=
  match j with
  | .str name =>
    if t.fullName = Standard.nullEnum then
      if name = "NULL_VALUE" then some (some (.int 0)) else none
    else some ((t.number? name).map .int)
  | .int i =>
    if t.fullName ≠ Standard.nullEnum ∧ -half32 ≤ i ∧ i < half32 then some (some (.int i)) else none
  | .null => if t.fullName = Standard.nullEnum then some (some (.int 0)) else none
  | _ => none

/-- A map key from the name of a member. -/
def mapKey? (type : FieldType) (name : String) : Option Value :=
  match type with
  | .scalar .bool =>
    if name = "true" then some (.bool true) else if name = "false" then some (.bool false) else none
  | .scalar .string => some (.text name)
  | .scalar s => s.integerOfText? name
  | _ => none

/-- A value that is no message. -/
def plainOfJson? (pool : Pool) (type : FieldType) (j : Json) : JsonReading :=
  match type with
  | .scalar s => (s.ofJson? j).map some
  | .enum name => (pool.enumType name).ofJson? j
  | _ => none

/-! ## Standard types -/

/-- The member of a message of any type that holds the address of the type. -/
def typeMember : String := "@type"

/-- The member that holds such a message, if its JSON form is no object of its fields. -/
def valueMember : String := "value"

/-- The name of the type that an address ends with, behind a slash. -/
def typeNameOf? (address : String) : Option String :=
  if address.toList.contains '/' then some (Text.lastPiece '/' address) else none

/-- The fields of a standard type from its form, messages of any type aside. -/
def Form.ofJson? (form : Form) (j : Json) : Option Fields :=
  match form, j with
  | .wrapper s, j => (s.ofJson? j).map fun v => [(1, v)]
  | .timestamp, .str t => (Time.Instant.parse? (utf8 t)).map timeFields
  | .duration, .str t =>
    (Time.Span.parse? (utf8 t)).map fun d => [(1, .int d.seconds), (2, .int d.nanos)]
  | .fieldMask, .str t => (FieldMask.parse? t).map fun ps => [(1, .list (ps.map .text))]
  | .empty, .obj [] => some []
  | .struct, .obj members => some (fieldsOfObject members)
  | .value, j => some (fieldsOfValue j)
  | .list, .arr items => some (fieldsOfList items)
  | _, _ => none
where
  timeFields (t : Time.Instant) : Fields := [(1, .int t.seconds), (2, .int t.nanos)]

/-- The fields of a declared type for those of its standard type. -/
def declaredFields (pool : Pool) (type standard : MessageType) (fields : Fields) : Option Fields :=
  (Message.recast ⟨standard, fields⟩ Standard.pool pool type).toOption

/-- What `null` sets a single value to: nothing, but for the types that have a value for it. -/
def readNull (pool : Pool) (type : FieldType) : JsonReading :=
  match type with
  | .enum name => if name = Standard.nullEnum then some (some (.int 0)) else some none
  | _ =>
    match pool.referred? type with
    | some t =>
      if t.fullName = Standard.valueType then
        match Standard.find? t with
        | some (_, standard) =>
          (declaredFields pool t standard (fieldsOfValue .null)).map fun fs => some (.message fs)
        | none => some none
      else some none
    | none => some none

/-- A value from its JSON form, given how messages are read. -/
def readValue (pool : Pool) (type : FieldType) (j : Json) (read : MessageType → Option Fields) :
    JsonReading :=
  match pool.referred? type with
  | some t => (read t).map fun fields => some (.message fields)
  | none => plainOfJson? pool type j

/-- The type whose address members hold. -/
def typeOfMembers? (pool : Pool) (members : List (String × Json)) : Option (String × MessageType) :=
  match members.lookup typeMember with
  | some (.str address) =>
    match (typeNameOf? address).bind pool.message? with
    | some t => some (address, t)
    | none => none
  | _ => none

/-- The fields of a message of any type for one of a type with these fields. -/
def anyFields (pool : Pool) (type : MessageType) (address : String) (fields : Fields) : Fields :=
  [(1, .text address), (2, .bytes (Message.toBytes pool ⟨type, fields⟩))]

/-! ## Messages -/

mutual

/-- The fields of a message of a type from its JSON form. -/
def fieldsOfJson (pool : Pool) (type : MessageType) : Json → Option Fields
  | .obj members =>
    match Standard.find? type with
    | none => membersOfJson pool type [] members
    | some (.any, standard) =>
      match typeOfMembers? pool members with
      | none => none
      | some (address, t) =>
        let fields :=
          if t.isStandard then payloadOfJson pool t members
          else membersOfJson pool (t.withoutMember typeMember) [] members
        fields.bind fun fs => declaredFields pool type standard (anyFields pool t address fs)
    | some (form, standard) =>
      (form.ofJson? (.obj members)).bind (declaredFields pool type standard)
  | j =>
    match Standard.find? type with
    | none => none
    | some (form, standard) => (form.ofJson? j).bind (declaredFields pool type standard)

/-- The fields of a message of a standard type that is held by a message of any type. -/
def payloadOfJson (pool : Pool) (type : MessageType) : List (String × Json) → Option Fields
  | [] => none
  | (name, j) :: rest =>
    if name = valueMember then fieldsOfJson pool type j else payloadOfJson pool type rest

/-- Fields that members set, one after the other, over those before them. -/
def membersOfJson (pool : Pool) (type : MessageType) (before : Fields) :
    List (String × Json) → Option Fields
  | [] => some before
  | (name, j) :: rest =>
    match type.fieldOfMember? name with
    | none => membersOfJson pool type before rest
    | some f =>
      match contentOfJson pool f.content (fun t => fieldsOfJson pool t j) j with
      | none => none
      | some none => membersOfJson pool type before rest
      | some (some v) =>
        if Fields.hasOneof type f before then none
        else membersOfJson pool type (Fields.put type f v before) rest

/-- What a field is set to by a member, given how a message is read from it. -/
def contentOfJson (pool : Pool) (c : Content) (read : MessageType → Option Fields) :
    Json → JsonReading
  | .null =>
    match c with
    | .single slot => readNull pool slot.type
    | _ => some none
  | .arr items =>
    match c with
    | .single slot => readValue pool slot.type (.arr items) read
    | .list type _ _ => (itemsOfJson pool type items).map fun vs => some (.list vs)
    | .map _ _ _ => none
  | .obj members =>
    match c with
    | .single slot => readValue pool slot.type (.obj members) read
    | .list _ _ _ => none
    | .map key value _ =>
      (entriesOfJson pool key.type value.type [] members).map fun es => some (.map es)
  | j =>
    match c with
    | .single slot => readValue pool slot.type j read
    | _ => none

/-- The elements of a list; those that are nothing are left out. -/
def itemsOfJson (pool : Pool) (type : FieldType) : List Json → Option (List Value)
  | [] => some []
  | j :: rest =>
    match readValue pool type j (fun t => fieldsOfJson pool t j), itemsOfJson pool type rest with
    | some v, some vs => some (v.toList ++ vs)
    | _, _ => none

/-- Entries that members add to a map, one after the other. -/
def entriesOfJson (pool : Pool) (key value : FieldType) (before : List (Value × Value)) :
    List (String × Json) → Option (List (Value × Value))
  | [] => some before
  | (name, j) :: rest =>
    match mapKey? key name, readValue pool value j (fun t => fieldsOfJson pool t j) with
    | some k, some (some v) => entriesOfJson pool key value (putEntry k v before) rest
    | some _, some none => entriesOfJson pool key value before rest
    | _, _ => none

end

/-- The message of a type that a JSON value denotes. -/
def Message.ofJson? (pool : Pool) (type : MessageType) (j : Json) : Option Message :=
  (fieldsOfJson pool type j).map fun fields => ⟨type, fields⟩

end RpcGateway.Proto
