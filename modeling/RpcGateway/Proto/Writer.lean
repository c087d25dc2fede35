import RpcGateway.Proto.Value
import RpcGateway.Proto.Varint

/-!
Messages as bytes. Each field that shows is written behind a key, which gives its number and the
form of what follows. Lists of numbers may share one key.
-/
namespace RpcGateway.Proto
open Number

/-- The forms of fields on the wire. -/
inductive WireType
  | varint | fixed64 | delimited | groupStart | groupEnd | fixed32
  deriving DecidableEq, Repr, Inhabited

namespace WireType

def number : WireType → Nat
  | varint => 0 | fixed64 => 1 | delimited => 2 | groupStart => 3 | groupEnd => 4 | fixed32 => 5

def ofNumber? : Nat → Option WireType
  | 0 => some varint | 1 => some fixed64 | 2 => some delimited | 3 => some groupStart
  | 4 => some groupEnd | 5 => some fixed32 | _ => none

end WireType

def Scalar.wireType : Scalar → WireType
  | .double => .fixed64 | .fixed64 => .fixed64 | .sfixed64 => .fixed64
  | .float => .fixed32 | .fixed32 => .fixed32 | .sfixed32 => .fixed32
  | .string => .delimited | .bytes => .delimited
  | _ => .varint

def FieldType.wireType : FieldType → WireType
  | .scalar s => s.wireType
  | .enum _ => .varint
  | .message _ => .delimited
  | .group _ => .groupStart

def writeKey (number : Nat) (wire : WireType) : Bytes := varint (number * 8 + wire.number)

/-- Bytes behind their length. -/
def delimited (b : Bytes) : Bytes := varint b.length ++ b

/-- A scalar without its key. A value of another type writes nothing. -/
def writeScalar : Scalar → Value → Bytes
  | .double, .double x => littleEndian 8 x.bits.toNat
  | .float, .single x => littleEndian 4 x.bits.toNat
  | .int32, .int i => varint (toUnsigned words64 i)
  | .int64, .int i => varint (toUnsigned words64 i)
  | .uint32, .int i => varint i.toNat
  | .uint64, .int i => varint i.toNat
  | .sint32, .int i => varint (zigzag i)
  | .sint64, .int i => varint (zigzag i)
  | .fixed32, .int i => littleEndian 4 (toUnsigned words32 i)
  | .sfixed32, .int i => littleEndian 4 (toUnsigned words32 i)
  | .fixed64, .int i => littleEndian 8 (toUnsigned words64 i)
  | .sfixed64, .int i => littleEndian 8 (toUnsigned words64 i)
  | .bool, .bool b => varint b.toNat
  | .string, .text s => delimited (utf8 s)
  | .bytes, .bytes b => delimited b
  | _, _ => []

/-- A number of any type without its key. -/
def writeNumber (type : FieldType) (v : Value) : Bytes :=
  match type, v with
  | .scalar s, v => writeScalar s v
  | .enum _, .int i => varint (toUnsigned words64 i)
  | _, _ => []

mutual

/-- A field with its keys, nothing where it does not show. -/
def writeContent (pool : Pool) (number : Nat) : Content → Value → Bytes
  | .single slot, .message fields =>
    match slot.type with
    | .message name =>
      writeKey number .delimited ++ delimited (writeFields pool (pool.messageType name) fields)
    | .group name =>
      writeKey number .groupStart ++ writeFields pool (pool.messageType name) fields ++
        writeKey number .groupEnd
    | _ => []
  | .single slot, v =>
    if pool.shows (.single slot) v then
      writeKey number slot.type.wireType ++ writeNumber slot.type v
    else []
  | .list type packed presence, .list items =>
    if items.isEmpty && !presence then []
    else if packed then
      writeKey number .delimited ++ delimited (items.flatMap (writeNumber type))
    else writeItems pool number type items
  | .map key value _, .map entries => writeEntries pool number key value entries
  | _, _ => []

/-- The elements of a list, each with a key. -/
def writeItems (pool : Pool) (number : Nat) (type : FieldType) : List Value → Bytes
  | [] => []
  | v :: vs => writeContent pool number (.single ⟨type, true⟩) v ++ writeItems pool number type vs

/-- The entries of a map, each as a message of a key and a value. -/
def writeEntries (pool : Pool) (number : Nat) (key value : Slot) : List (Value × Value) → Bytes
  | [] => []
  | (k, v) :: es =>
    writeKey number .delimited ++
        delimited (writeContent pool 1 (.single key) k ++ writeContent pool 2 (.single value) v) ++
      writeEntries pool number key value es

/-- The fields of a message in ascending order of their numbers. Those that the type does not have
are written as they were read. -/
def writeFields (pool : Pool) (type : MessageType) : List (Nat × Value) → Bytes
  | [] => []
  | (_, .raw b) :: rest => b ++ writeFields pool type rest
  | (n, v) :: rest =>
    (match type.field? n with
      | none => []
      | some f => writeContent pool n f.content v) ++ writeFields pool type rest

end

/-- The bytes of a message. -/
def Message.toBytes (pool : Pool) (m : Message) : Bytes := writeFields pool m.type m.fields

end RpcGateway.Proto
