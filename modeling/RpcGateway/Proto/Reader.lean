import RpcGateway.Proto.Writer
import RpcGateway.Text.Pieces

/-!
Messages from bytes. Fields may come in any order: of a repeated single field the last counts,
messages of one field are merged, and lists grow. Unknown fields are kept as they are, or skipped
where the pool does not keep them. Messages nest to a fixed depth.
-/
namespace RpcGateway.Proto
open Number

/-- Why bytes are no message. -/
inductive WireFault
  | truncated
  | badVarint
  | badKey
  | wrongWireType (actual expected : WireType)
  | invalidText
  | unmatchedGroup
  | tooDeep
  /-- A fault in a field of a message. -/
  | within (message field : String) (cause : WireFault)
  deriving DecidableEq, Repr

namespace WireFault

/-- The names of wire types. -/
def nameOf : WireType → String
  | .varint => "Varint" | .fixed64 => "SixtyFourBit" | .delimited => "LengthDelimited"
  | .groupStart => "StartGroup" | .groupEnd => "EndGroup" | .fixed32 => "ThirtyTwoBit"

/-- What is wrong, wherever it is. -/
def description : WireFault → String
  | truncated => "buffer underflow"
  | badVarint => "invalid varint"
  | badKey => "invalid key value"
  | wrongWireType actual expected =>
    "invalid wire type: " ++ nameOf actual ++ " (expected " ++ nameOf expected ++ ")"
  | invalidText => "invalid string value: data is not UTF-8 encoded"
  | unmatchedGroup => "unexpected end group tag"
  | tooDeep => "recursion limit reached"
  | within _ _ cause => cause.description

/-- The fields that a fault is in, the innermost first. -/
def path : WireFault → String
  | within message field cause => cause.path ++ message ++ "." ++ field ++ ": "
  | _ => ""

def message (f : WireFault) : String :=
  "failed to decode Protobuf message: " ++ f.path ++ f.description

end WireFault

/-- How many messages and groups may be open within the outermost. -/
def maxNesting : Nat := 100

def nextVarint (s : Bytes) : Except WireFault (Nat × Bytes) :=
  match readVarint s with
  | some r => .ok r
  | none => .error .badVarint

def nextBytes (n : Nat) (s : Bytes) : Except WireFault (Bytes × Bytes) :=
  match take? n s with
  | some r => .ok r
  | none => .error .truncated

/-- Bytes behind their length. -/
def nextDelimited (s : Bytes) : Except WireFault (Bytes × Bytes) :=
  match nextVarint s with
  | .error e => .error e
  | .ok (n, s) => nextBytes n s

/-- A field number, which is not zero, and a wire type. -/
def nextKey (s : Bytes) : Except WireFault (Nat × WireType × Bytes) :=
  match nextVarint s with
  | .error e => .error e
  | .ok (n, s) =>
    match WireType.ofNumber? (n % 8) with
    | none => .error .badKey
    | some wire => if n < 8 ∨ words32 ≤ n then .error .badKey else .ok (n / 8, wire, s)

/-- The value of a varint for a type. Numbers of 32 bits drop the bits above. -/
def ofVarint (s : Scalar) (n : Nat) : Value :=
  match s with
  | .int32 => .int (ofUnsigned words32 n)
  | .int64 => .int (ofUnsigned words64 n)
  | .uint32 => .int (n % words32 : Nat)
  | .uint64 => .int n
  | .sint32 => .int (ofZigzag (n % words32))
  | .sint64 => .int (ofZigzag n)
  | _ => .bool (n != 0)

/-- The value of a word of four or eight bytes for a type. -/
def ofWord (s : Scalar) (b : Bytes) : Value :=
  let n := ofLittleEndian b
  match s with
  | .double => .double ⟨n.toUInt64⟩
  | .float => .single ⟨n.toUInt32⟩
  | .sfixed32 => .int (ofUnsigned words32 n)
  | .sfixed64 => .int (ofUnsigned words64 n)
  | _ => .int n

/-- A scalar in its own wire form. -/
def nextScalar (s : Scalar) (input : Bytes) : Except WireFault (Value × Bytes) :=
  match s.wireType with
  | .varint => (nextVarint input).map fun (n, r) => (ofVarint s n, r)
  | .fixed32 => (nextBytes 4 input).map fun (b, r) => (ofWord s b, r)
  | .fixed64 => (nextBytes 8 input).map fun (b, r) => (ofWord s b, r)
  | _ =>
    match nextDelimited input with
    | .error e => .error e
    | .ok (b, r) =>
      match s, ofUtf8? b with
      | .string, some t => .ok (.text t, r)
      | .string, none => .error .invalidText
      | _, _ => .ok (.bytes b, r)

/-- A number of a packable type. -/
def nextNumber (type : FieldType) (input : Bytes) : Except WireFault (Value × Bytes) :=
  match type with
  | .scalar s => nextScalar s input
  | _ => (nextVarint input).map fun (n, r) => (.int (ofUnsigned words32 n), r)

/-- All numbers of a packed list. Each takes at least one byte of the input. -/
def packedNumbers (type : FieldType) : Nat → Bytes → Except WireFault (List Value)
  | _, [] => .ok []
  | 0, _ :: _ => .error .truncated
  | bound + 1, b :: s => do
    let (v, rest) ← nextNumber type (b :: s)
    return v :: (← packedNumbers type bound rest)

/-- Reads the fields of a message up to the end of the input, or of the group `ending`. -/
abbrev FieldsReader := MessageType → Fields → Option Nat → Bytes → Except WireFault (Fields × Bytes)

mutual

/-- Skips the value of an unknown field, which may have `depth` groups in it. If `counted`, a field
of any kind takes a level of its own. -/
def skipField (counted : Bool) (field : Nat) (wire : WireType) :
    Nat → Nat → Bytes → Except WireFault Bytes
  | depth, bound, s =>
    if counted ∧ depth = 0 then .error .tooDeep
    else
      match wire with
      | .varint => (nextVarint s).map Prod.snd
      | .fixed64 => (nextBytes 8 s).map Prod.snd
      | .fixed32 => (nextBytes 4 s).map Prod.snd
      | .delimited => (nextDelimited s).map Prod.snd
      | .groupEnd => .error .unmatchedGroup
      | .groupStart =>
        match depth with
        | 0 => .error .tooDeep
        | depth + 1 => skipGroup counted field depth bound s
  termination_by depth bound => (depth, bound, 1)

/-- Skips fields up to the end of a group. -/
def skipGroup (counted : Bool) (field : Nat) : Nat → Nat → Bytes → Except WireFault Bytes
  | _, 0, _ => .error .truncated
  | depth, bound + 1, s =>
    match nextKey s with
    | .error e => .error e
    | .ok (n, .groupEnd, s) => if n = field then .ok s else .error .unmatchedGroup
    | .ok (n, wire, s) =>
      match skipField counted n wire depth bound s with
      | .error e => .error e
      | .ok s => skipGroup counted field depth bound s
  termination_by depth bound => (depth, bound, 0)

end

/-- The input in which a single value of a type stands in another wire form is refused. -/
def checkWire (expected actual : WireType) : Except WireFault Unit :=
  if expected = actual then .ok () else .error (.wrongWireType actual expected)

/-- A message of its own input. -/
def wholeMessage (nested : FieldsReader) (type : MessageType) (fields : Fields) (b : Bytes) :
    Except WireFault Fields :=
  (nested type fields none b).map Prod.fst

/-- Reads a single value over the one that the field has. Messages are merged into it. -/
def nextSingle (pool : Pool) (nested : FieldsReader) (field : Nat) (type : FieldType)
    (wire : WireType) (before : Value) (s : Bytes) : Except WireFault (Value × Bytes) := do
  checkWire type.wireType wire
  let fields : Fields := match before with
    | .message fields => fields
    | _ => []
  match type with
  | .message name =>
    let (b, rest) ← nextDelimited s
    return (.message (← wholeMessage nested (pool.messageType name) fields b), rest)
  | .group name =>
    let (fields, rest) ← nested (pool.messageType name) fields (some field) s
    return (.message fields, rest)
  | _ => nextNumber type s

/-- Reads the key and the value of a map entry; either may be missing or stand several times. -/
def entryFields (pool : Pool) (nested : FieldsReader) (depth : Nat) (key value : Slot) :
    Nat → Value × Value → Bytes → Except WireFault (Value × Value)
  | _, entry, [] => .ok entry
  | 0, _, _ :: _ => .error .truncated
  | bound + 1, (k, v), b :: s => do
    let (n, wire, rest) ← nextKey (b :: s)
    if n = 1 then
      let (k, rest) ← nextSingle pool nested n key.type wire k rest
      entryFields pool nested depth key value bound (k, v) rest
    else if n = 2 then
      let (v, rest) ← nextSingle pool nested n value.type wire v rest
      entryFields pool nested depth key value bound (k, v) rest
    else
      let rest ← skipField true n wire depth bound rest
      entryFields pool nested depth key value bound (k, v) rest

/-- How deep messages may be nested, and how they are read. -/
structure Nesting where
  depth : Nat
  fields : FieldsReader

/-- Reads one field's value over what the field holds. `outer` is for messages that the field holds
itself, `entries` for those in the entries of maps. -/
def nextContent (pool : Pool) (outer entries : Nesting) (f : FieldDef) (wire : WireType)
    (before : Option Value) (s : Bytes) : Except WireFault (Value × Bytes) := do
  match f.content with
  | .single slot =>
    nextSingle pool outer.fields f.number slot.type wire (before.getD (.message [])) s
  | .list type _ _ =>
    let items := match before with
      | some (.list items) => items
      | _ => []
    if type.isPackable && wire == .delimited then
      let (b, rest) ← nextDelimited s
      return (.list (items ++ (← packedNumbers type b.length b)), rest)
    else
      let (v, rest) ← nextSingle pool outer.fields f.number type wire (.message []) s
      return (.list (items ++ [v]), rest)
  | .map key value _ =>
    let old := match before with
      | some (.map es) => es
      | _ => []
    checkWire .delimited wire
    let (b, rest) ← nextDelimited s
    if !pool.keepsUnknown ∧ outer.depth = 0 then throw .tooDeep
    let (k, v) ← entryFields pool entries.fields entries.depth key value b.length
      (pool.defaultOf key.type, pool.defaultOf value.type) b
    return (.map (putEntry k v old), rest)

/-- Names the field that a fault is in, in pools that do not keep unknown fields. -/
def locate {α : Type} (pool : Pool) (type : MessageType) (f : FieldDef) (r : Except WireFault α) :
    Except WireFault α :=
  if pool.keepsUnknown ∨ f.name.isEmpty then r
  else r.mapError (.within (Text.lastPiece '.' type.fullName) f.name)

/-- The fields of a message with those bytes of an unknown one. -/
def keepRaw (pool : Pool) (number : Nat) (b : Bytes) (fields : Fields) : Fields :=
  if pool.keepsUnknown then
    let before := match Fields.get? fields number with
      | some (.raw b) => b
      | _ => []
    fields.set number (.raw (before ++ b))
  else fields

/-- Reads fields one after the other. -/
def fieldsWith (pool : Pool) (outer entries : Nesting) : Nat → FieldsReader
  | _, _, fields, none, [] => .ok (fields, [])
  | _, _, _, some _, [] => .error .truncated
  | 0, _, _, _, _ :: _ => .error .truncated
  | bound + 1, type, fields, ending, b :: s => do
    let (n, wire, rest) ← nextKey (b :: s)
    if wire = .groupEnd then
      if ending = some n then return (fields, rest) else throw .unmatchedGroup
    match type.field? n with
    | none =>
      let rest ← skipField (!pool.keepsUnknown) n wire outer.depth bound rest
      let b := (b :: s).take (s.length + 1 - rest.length)
      fieldsWith pool outer entries bound type (keepRaw pool n b fields) ending rest
    | some f =>
      let (v, rest) ← locate pool type f
        (nextContent pool outer entries f wire (Fields.get? fields n) rest)
      fieldsWith pool outer entries bound type (Fields.put type f v fields) ending rest

/-- Reads the fields of a message that is the innermost of `levels` which may be open. -/
def nestedFields (pool : Pool) (bound : Nat) : Nat → MessageType → Fields → Option Nat → Bytes →
    Except WireFault (Fields × Bytes)
  | 0, _, _, _, _ => .error .tooDeep
  | 1, type, fields, ending, s =>
    let none : Nesting := ⟨0, fun _ _ _ _ => .error .tooDeep⟩
    fieldsWith pool none none bound type fields ending s
  | levels + 2, type, fields, ending, s =>
    let outer : Nesting := ⟨levels + 1, nestedFields pool bound (levels + 1)⟩
    let entries : Nesting :=
      if pool.keepsUnknown then outer else ⟨levels, nestedFields pool bound levels⟩
    fieldsWith pool outer entries bound type fields ending s

/-- The message that bytes denote. -/
def Message.ofBytes (pool : Pool) (type : MessageType) (b : Bytes) : Except WireFault Message :=
  (nestedFields pool b.length (maxNesting + 1) type [] none b).map fun (fields, _) =>
    ⟨type, fields⟩

/-- The fields that a message has as one of another type in another pool: what its bytes are there.
-/
def Message.recast (m : Message) (source target : Pool) (type : MessageType) :
    Except WireFault Fields :=
  (Message.ofBytes target type (m.toBytes source)).map Message.fields

end RpcGateway.Proto
