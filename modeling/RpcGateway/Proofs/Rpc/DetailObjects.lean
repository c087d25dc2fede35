import RpcGateway.Proofs.Echo.Requests
import RpcGateway.Proofs.Proto.ObjectForms
import RpcGateway.Proofs.Proto.SameContents
import RpcGateway.Proofs.Rpc.StatusDetails

/-!
What the object of a detail tells of its message. All members of the message's form are there, and
so messages of an ordinary type are told apart by what their fields show. Of a message whose form is
no object there is nothing but the address of its type.
-/
namespace RpcGateway.Rpc
open Proto

namespace Detail
variable {pool : Pool} {d d' : Detail} {type : MessageType} {m m' : Message}

/-- A detail whose address names a type of the pool, and whose value is a message of that type. -/
structure Holds (pool : Pool) (d : Detail) (type : MessageType) (m : Message) : Prop where
  known : pool.message? d.typeName = some type
  decoded : Message.ofBytes pool type d.value = .ok m

theorem Holds.message_type (h : d.Holds pool type m) : m.type = type :=
  (fitFields_of_ofBytes h.decoded).1

theorem Holds.form (h : d.Holds pool type m) {j : Json} (hform : m.toJson pool false = .ok j) :
    formOf pool (jsonWithin pool false (m.toBytes pool).length) type m.fields = .ok j := by
  rw [← h.message_type]
  exact hform

end Detail

end RpcGateway.Rpc
