import RpcGateway.Number.Decimal
import RpcGateway.Proto.Range
import RpcGateway.Text.Percent

/-!
Defaults that fields declare as text. A default is a value of the field's type as it is written in
schema files; byte strings are written with escapes.
-/
namespace RpcGateway.Proto
open Number

/-- What stands for one character after a backslash. -/
def simpleEscapes : Bytes := utf8 "abfnrtv\\?'\""

def isOctalDigit (b : UInt8) : Bool := ascii '0' ≤ b && b ≤ ascii '7'

def isHexDigit (b : UInt8) : Bool := (Text.Percent.hexValue? b).isSome

/-- Whether each backslash begins an escape: a simple one, two hexadecimal digits after an `x`, or
octal digits, at most three of which count. -/
def hasSoundEscapes : Bytes → Bool
  | [] => true
  | 0x5C :: 0x78 :: a :: b :: rest => isHexDigit a && isHexDigit b && hasSoundEscapes rest
  | 0x5C :: 0x58 :: a :: b :: rest => isHexDigit a && isHexDigit b && hasSoundEscapes rest
  | 0x5C :: e :: rest => (simpleEscapes.contains e || isOctalDigit e) && hasSoundEscapes rest
  | [0x5C] => false
  | _ :: rest => hasSoundEscapes rest

/-- Whether a text is a default for a scalar type. -/
def Scalar.acceptsDefault (s : Scalar) (t : String) : Bool :=
  match s with
  | .double => (Double.ofText? (utf8 t)).isSome
  | .float => (Single.ofText? (utf8 t)).isSome
  | .bool => t == "true" || t == "false"
  | .string => true
  | .bytes => hasSoundEscapes (utf8 t)
  | s => (s.integerOfText? t).isSome

/-- Whether a text is a default for a type. Messages have none. -/
def Pool.acceptsDefault (pool : Pool) (type : FieldType) (t : String) : Bool :=
  match type with
  | .scalar s => s.acceptsDefault t
  | .enum name => ((pool.enumType name).number? t).isSome
  | .message _ => false
  | .group _ => false

end RpcGateway.Proto
