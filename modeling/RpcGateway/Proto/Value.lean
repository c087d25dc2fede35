import RpcGateway.Bytes
import RpcGateway.Number.Binary
import RpcGateway.Proto.Type

/-!
Message values. A message holds the values of its fields that are set, in ascending order of field
numbers. Of the fields of a oneof only one is set.
-/
namespace RpcGateway.Proto
open Number

/-- A value of a field. Integers of all widths and enum numbers are `int`. -/
inductive Value where
  | bool (b : Bool)
  | int (i : Int)
  | single (x : Single)
  | double (x : Double)
  | text (s : String)
  | bytes (b : Bytes)
  | list (items : List Value)
  | map (entries : List (Value × Value))
  | message (fields : List (Nat × Value))
  /-- The bytes of fields that the type does not have, keys included. -/
  | raw (b : Bytes)
  deriving Repr, Inhabited

/-! ## Equality -/

mutual

/-- Values are equal if they are built alike from equal parts. Floating-point numbers are compared by
their bits. -/
def Value.beq : Value → Value → Bool
  | .bool a, .bool b => a == b
  | .int i, .int j => i == j
  | .single x, .single y => x == y
  | .double x, .double y => x == y
  | .text s, .text t => s == t
  | .bytes a, .bytes b => a == b
  | .list vs, .list ws => beqItems vs ws
  | .map es, .map fs => beqEntries es fs
  | .message fs, .message gs => beqFields fs gs
  | .raw a, .raw b => a == b
  | _, _ => false
  termination_by structural v => v

def beqItems : List Value → List Value → Bool
  | [], [] => true
  | v :: vs, w :: ws => v.beq w && beqItems vs ws
  | _, _ => false
  termination_by structural vs => vs

def beqEntries : List (Value × Value) → List (Value × Value) → Bool
  | [], [] => true
  | (k, v) :: es, (l, w) :: fs => k.beq l && v.beq w && beqEntries es fs
  | _, _ => false
  termination_by structural es => es

def beqFields : List (Nat × Value) → List (Nat × Value) → Bool
  | [], [] => true
  | (m, v) :: fs, (n, w) :: gs => m == n && v.beq w && beqFields fs gs
  | _, _ => false
  termination_by structural fs => fs

end

instance : BEq Value := ⟨Value.beq⟩

/-- The fields of a message that are set, by number. -/
abbrev Fields := List (Nat × Value)

/-- A message with its type. -/
structure Message where
  type : MessageType
  fields : Fields
  deriving Repr, Inhabited

/-- The message of a type in which nothing is set. -/
def Message.empty (type : MessageType) : Message := ⟨type, []⟩

namespace Scalar

/-- What a scalar is where it is not set. -/
def default : Scalar → Value
  | .double => .double .zero
  | .float => .single .zero
  | .bool => .bool false
  | .string => .text ""
  | .bytes => .bytes []
  | _ => .int 0

end Scalar

/-- What a single value is where it is not set. -/
def Pool.defaultOf (pool : Pool) : FieldType → Value
  | .scalar s => s.default
  | .enum name => .int (pool.enumType name).default
  | .message _ => .message []
  | .group _ => .message []

namespace Value

/-- Whether a value is that of a field which is not set. Zero counts as such with either sign. -/
def isDefault : Value → Bool
  | bool b => !b
  | int i => i == 0
  | single x => x.isZero
  | double x => x.isZero
  | text s => s.isEmpty
  | bytes b => b.isEmpty
  | list items => items.isEmpty
  | map entries => entries.isEmpty
  | message fields => fields.isEmpty
  | raw b => b.isEmpty

end Value

/-- Whether a field with this value is there for readers: it has presence, or is not at its default.
-/
def Pool.shows (pool : Pool) (c : Content) (v : Value) : Bool :=
  c.hasPresence ||
    match c with
    | .single ⟨.enum name, _⟩ => v != .int (pool.enumType name).default
    | _ => !v.isDefault

namespace Fields

def get? (fs : Fields) (number : Nat) : Option Value := List.lookup number fs

/-- Fields with a value under a number, in order. -/
def set (fs : Fields) (number : Nat) (v : Value) : Fields :=
  match fs with
  | [] => [(number, v)]
  | (n, w) :: rest =>
    if number = n then (number, v) :: rest
    else if number < n then (number, v) :: (n, w) :: rest
    else (n, w) :: set rest number v

/-- Fields without those of a oneof other than the one of a number. -/
def clearOthers (type : MessageType) (field : FieldDef) (fs : Fields) : Fields :=
  match field.oneof with
  | none => fs
  | some i => fs.filter fun (n, _) =>
      n == field.number || ((type.field? n).bind FieldDef.oneof) != some i

/-- Sets a field and clears the others of its oneof. -/
def put (type : MessageType) (field : FieldDef) (v : Value) (fs : Fields) : Fields :=
  (clearOthers type field fs).set field.number v

/-- Whether a field of the same oneof is set. -/
def hasOneof (type : MessageType) (field : FieldDef) (fs : Fields) : Bool :=
  match field.oneof with
  | none => false
  | some i => fs.any fun (n, _) => ((type.field? n).bind FieldDef.oneof) == some i

end Fields

/-- Adds an entry to a map; an earlier one of the same key is replaced. -/
def putEntry (key value : Value) : List (Value × Value) → List (Value × Value)
  | [] => [(key, value)]
  | (k, v) :: rest => if k == key then (key, value) :: rest else (k, v) :: putEntry key value rest

end RpcGateway.Proto
