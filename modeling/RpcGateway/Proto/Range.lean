import RpcGateway.Number.Decimal
import RpcGateway.Proto.Value

/-!
The integers that each type holds, and integers written in decimal.
-/
namespace RpcGateway.Proto
open Number

/-- The least and the greatest integer of a type. -/
def Scalar.range : Scalar → Int × Int
  | .int32 => (-half32, half32 - 1)
  | .sint32 => (-half32, half32 - 1)
  | .sfixed32 => (-half32, half32 - 1)
  | .uint32 => (0, words32 - 1)
  | .fixed32 => (0, words32 - 1)
  | .uint64 => (0, words64 - 1)
  | .fixed64 => (0, words64 - 1)
  | _ => (-half64, half64 - 1)

def Scalar.isUnsigned (s : Scalar) : Bool := s.range.1 == 0

/-- An integer of a type, if it is in range. -/
def Scalar.integer? (s : Scalar) (i : Int) : Option Value :=
  if s.range.1 ≤ i ∧ i ≤ s.range.2 then some (.int i) else none

/-- An integer written in decimal. -/
def Scalar.integerOfText? (s : Scalar) (t : String) : Option Value :=
  if s.isUnsigned then (natural? (utf8 t)).bind fun n => s.integer? n
  else (Number.integer? (utf8 t)).bind s.integer?

end RpcGateway.Proto
