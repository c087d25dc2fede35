import RpcGateway.Json.Basic

/-!
JSON-RPC 2.0 envelopes. A response repeats the `id` and the `method` of its request.
-/
namespace RpcGateway

/-- The `error` member of a failed response. -/
structure RpcError where
  code : Int32
  message : String
  data : Option Json := none
  deriving Repr, BEq, Inhabited

/-- Requests carry `params`, responses either `result` or `error`. -/
structure Envelope where
  version : String := ""
  id : Option Json := none
  method : String := ""
  params : Option Json := none
  result : Option Json := none
  error : Option RpcError := none
  deriving Repr, BEq, Inhabited

namespace Envelope

/-- The protocol version of every envelope that is written. -/
def protocolVersion : String := "2.0"

def request (id : Json) (method : String) (params : Json) : Envelope where
  version := protocolVersion
  id := some id
  method := method
  params := some params

/-- The answer with a result. -/
def success (request : Envelope) (result : Json) : Envelope where
  version := protocolVersion
  id := request.id
  method := request.method
  result := some result

/-- The answer with an error. -/
def failure (request : Envelope) (error : RpcError) : Envelope where
  version := protocolVersion
  id := request.id
  method := request.method
  error := some error

end Envelope

end RpcGateway
