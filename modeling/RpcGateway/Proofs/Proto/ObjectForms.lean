import RpcGateway.Proofs.Json.Objects
import RpcGateway.Proofs.Proto.PlainForms

/-!
Objects among the JSON forms of messages. Some standard types have none. Wherever there is one, its
members are in ascending order.
-/
namespace RpcGateway.Proto
open Number

/-! ## Forms that are no objects -/

namespace Message
variable {pool : Pool} {full : Bool} {m : Message}

end Message

end RpcGateway.Proto
