import RpcGateway.Json.Printer
import RpcGateway.Proto.FromJson

/-!
The JSON form of messages. Integers of 64 bits are texts, as are numbers that are not finite; bytes
are base 64, and enum values go by name. Fields that do not show are left out or written with their
default. Standard types have forms of their own, which not all of their messages have.
-/
namespace RpcGateway.Proto
open Number

/-- Why a message has no JSON form. -/
inductive FormFault
  | timestampRange
  | durationRange
  | durationSigns
  | notFinite
  | mixedPath
  | noAddress (address : String)
  | unknownType (name : String)
  | undecodable (fault : WireFault)
  deriving DecidableEq, Repr

def FormFault.message : FormFault → String
  | timestampRange => "timestamp is out of range"
  | durationRange => "duration is out of range"
  | durationSigns => "duration has inconsistent signs"
  | notFinite => "cannot serialize non-finite double in google.protobuf.Value"
  | mixedPath => "cannot roundtrip field name through camel case"
  | noAddress address =>
    s!"unsupported type url '{address}': missing at least one '/' character"
  | unknownType name => s!"message '{name}' not found"
  | undecodable fault => "error decoding: " ++ fault.message

/-- Text of bytes that are ASCII. -/
def asciiText (b : Bytes) : String := String.ofList (b.map fun x => Char.ofNat x.toNat)

/-- A floating-point number, by its name where it is not finite. -/
def jsonOfDouble (x : Double) : Json :=
  if x.isNan then .str "NaN"
  else if x.isInfinite then .str (if x.isNegative then "-Infinity" else "Infinity")
  else .double x

def integerText (i : Int) : String := asciiText (Json.printInt i)

/-- Whether integers of a type are written as texts. -/
def Scalar.isTextual : Scalar → Bool
  | .int64 => true | .uint64 => true | .sint64 => true | .fixed64 => true | .sfixed64 => true
  | _ => false

/-- The JSON form of a value that is no message. -/
def jsonOfPlain (pool : Pool) (type : FieldType) (v : Value) : Json :=
  match v with
  | .bool b => .bool b
  | .int i =>
    match type with
    | .scalar s => if s.isTextual then .str (integerText i) else .int i
    | .enum name =>
      if name = Standard.nullEnum then .null else ((pool.enumType name).name? i).elim (.int i) .str
    | _ => .int i
  | .single x => jsonOfDouble x.toDouble
  | .double x => jsonOfDouble x
  | .text s => .str s
  | .bytes b => .str (asciiText (Text.Base64.encode b))
  | _ => .null

/-- The name of a member for a map key. -/
def memberOfKey (v : Value) : String :=
  match v with
  | .bool b => if b then "true" else "false"
  | .int i => integerText i
  | .text s => s
  | _ => ""

/-- The JSON form of a field that is not set: its default. -/
def defaultJson (pool : Pool) (c : Content) : Json :=
  match c with
  | .single slot => jsonOfPlain pool slot.type (pool.defaultOf slot.type)
  | .list _ _ _ => .arr []
  | .map _ _ _ => .obj []

/-- Defaults of the fields that have no presence and are not set. -/
def defaultMembers (pool : Pool) (type : MessageType) (set : List Nat) : List (String × Json) :=
  (type.fields.filter fun f => !f.content.hasPresence && !set.contains f.number).map fun f =>
    (f.jsonName, defaultJson pool f.content)

/-- Elements with a content that has them as single values. -/
def single (type : FieldType) : Content := .single ⟨type, true⟩

/-- The JSON form of a message with these members, to which `full` adds the defaults. -/
def jsonOfMembers (pool : Pool) (full : Bool) (type : MessageType) (fields : Fields)
    (members : List (String × Json)) : Json :=
  let defaults := if full then defaultMembers pool type (fields.map Prod.fst) else []
  .ofMembers (members ++ defaults)

/-! ## Standard types -/

/-- The JSON form of a wrapped value. What is not finite has none and becomes `null`. -/
def jsonOfWrapped (s : Scalar) (v : Value) : Json :=
  match v with
  | .single x => if x.toDouble.isFinite then .double x.toDouble else .null
  | .double x => if x.isFinite then .double x else .null
  | v => jsonOfPlain {} (.scalar s) v

/-- An integer field, zero if it is not set. -/
def wholeAt (fields : Fields) (number : Nat) : Int :=
  match Fields.get? fields number with
  | some (.int i) => i
  | _ => 0

/-- A text field, empty if it is not set. -/
def textAt (fields : Fields) (number : Nat) : String :=
  match Fields.get? fields number with
  | some (.text s) => s
  | _ => ""

def bytesAt (fields : Fields) (number : Nat) : Bytes :=
  match Fields.get? fields number with
  | some (.bytes b) => b
  | _ => []

/-- The texts of a list. -/
def textsAt (fields : Fields) (number : Nat) : List String :=
  match Fields.get? fields number with
  | some (.list items) => items.filterMap fun
    | .text s => some s
    | _ => none
  | _ => []

def jsonOfTimestamp (fields : Fields) : Except FormFault Json :=
  let t : Time.Instant := ⟨wholeAt fields 1, wholeAt fields 2⟩
  if t.inRange then .ok (.str (asciiText t.print)) else .error .timestampRange

def jsonOfDuration (fields : Fields) : Except FormFault Json :=
  let t : Time.Span := ⟨wholeAt fields 1, wholeAt fields 2⟩
  if !t.inRange then .error .durationRange
  else if !t.hasOneSign then .error .durationSigns
  else .ok (.str (asciiText t.print))

/-- A JSON value that a message may not have. -/
def finite (j : Option Json) : Except FormFault Json := j.elim (.error .notFinite) .ok

/-- How the JSON form of a message is made. -/
abbrev MessagePrinter := MessageType → Fields → Except FormFault Json

/-- The JSON form of a message of any type: its own with the address of its type. -/
def jsonOfAny (pool : Pool) (payload : MessagePrinter) (fields : Fields) :
    Except FormFault Json := do
  let address := textAt fields 1
  let some name := typeNameOf? address | throw (.noAddress address)
  let some type := pool.message? name | throw (.unknownType name)
  let m ← (Message.ofBytes pool type (bytesAt fields 2)).mapError .undecodable
  let entry : String × Json := (typeMember, .str address)
  match type.isStandard, ← payload type m.fields with
  | false, .obj members => return .ofMembers (entry :: members)
  | _, j => return .ofMembers [entry, (valueMember, j)]

/-- The JSON form of a message of a standard type by its fields there. -/
def Form.toJson (form : Form) (pool : Pool) (payload : MessagePrinter) (fields : Fields) :
    Except FormFault Json :=
  match form with
  | .wrapper s => .ok (jsonOfWrapped s ((Fields.get? fields 1).getD s.default))
  | .timestamp => jsonOfTimestamp fields
  | .duration => jsonOfDuration fields
  | .fieldMask => ((FieldMask.print? (textsAt fields 1)).map Json.str).elim (.error .mixedPath) .ok
  | .empty => .ok (.obj [])
  | .struct => finite (objectOfFields fields)
  | .value => finite (valueOfFields fields)
  | .list => finite (listOfFields fields)
  | .any => jsonOfAny pool payload fields

/-- The JSON form of a message by that of its members, or its own. -/
def jsonOfType (pool : Pool) (full : Bool) (payload : MessagePrinter) (type : MessageType)
    (fields : Fields) (members : Unit → Except FormFault (List (String × Json))) :
    Except FormFault Json :=
  match Standard.find? type with
  | none => (members ()).map (jsonOfMembers pool full type fields)
  | some (form, standard) => do
    let fs ← (Message.recast ⟨type, fields⟩ pool Standard.pool standard).mapError .undecodable
    form.toJson pool payload fs

/-! ## Messages -/

mutual

/-- The JSON form of what a field holds. With `full`, defaults within are written too; `payload`
makes the form of messages of any type. -/
def jsonOfContent (pool : Pool) (full : Bool) (payload : MessagePrinter) (c : Content) :
    Value → Except FormFault Json
  | .list items =>
    match c with
    | .list type _ _ => (jsonOfItems pool full payload type items).map .arr
    | _ => .ok .null
  | .map entries =>
    match c with
    | .map _ value _ => (jsonOfEntries pool full payload value.type entries).map .ofMembers
    | _ => .ok .null
  | .message fields =>
    match c with
    | .single slot =>
      match pool.referred? slot.type with
      | some t =>
        jsonOfType pool full payload t fields fun _ => membersOfFields pool full payload t fields
      | none => .ok .null
    | _ => .ok .null
  | v =>
    match c with
    | .single slot => .ok (jsonOfPlain pool slot.type v)
    | _ => .ok .null

/-- The members of the fields that show, or of all that are set if `full`. -/
def membersOfFields (pool : Pool) (full : Bool) (payload : MessagePrinter) (type : MessageType) :
    List (Nat × Value) → Except FormFault (List (String × Json))
  | [] => .ok []
  | (n, v) :: rest =>
    match type.field? n with
    | none => membersOfFields pool full payload type rest
    | some f =>
      if full || pool.shows f.content v then do
        let j ← jsonOfContent pool full payload f.content v
        return (f.jsonName, j) :: (← membersOfFields pool full payload type rest)
      else membersOfFields pool full payload type rest

def jsonOfItems (pool : Pool) (full : Bool) (payload : MessagePrinter) (type : FieldType) :
    List Value → Except FormFault (List Json)
  | [] => .ok []
  | v :: vs => do
    let j ← jsonOfContent pool full payload (single type) v
    return j :: (← jsonOfItems pool full payload type vs)

def jsonOfEntries (pool : Pool) (full : Bool) (payload : MessagePrinter) (type : FieldType) :
    List (Value × Value) → Except FormFault (List (String × Json))
  | [] => .ok []
  | (k, v) :: es => do
    let j ← jsonOfContent pool full payload (single type) v
    return (memberOfKey k, j) :: (← jsonOfEntries pool full payload type es)

end

/-- The JSON form of a message with at most `depth` messages of any type within one another. -/
def jsonWithin (pool : Pool) (full : Bool) : Nat → MessagePrinter
  | 0, _, _ => .error (.undecodable .tooDeep)
  | depth + 1, type, fields =>
    let payload : MessagePrinter := jsonWithin pool full depth
    jsonOfType pool full payload type fields fun _ =>
      membersOfFields pool full payload type fields

/-- The JSON form of a message. With `full`, fields without presence are written also where they
hold their default. Messages of any type within one another are each shorter than the one around
them. -/
def Message.toJson (pool : Pool) (full : Bool) (m : Message) : Except FormFault Json :=
  jsonWithin pool full ((m.toBytes pool).length + 1) m.type m.fields

end RpcGateway.Proto
