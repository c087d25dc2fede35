import RpcGateway.Rpc.Duration
import RpcGateway.Rpc.Status

/-!
Servers that calls are forwarded to. A call sends one message to a path; the reply has headers, any
number of messages and trailers, and its status is in the headers or in the trailers.
-/
namespace RpcGateway
open Http Rpc

namespace Backend

structure Request where
  path : Bytes
  metadata : Metadata
  message : Bytes
  deriving Repr, Inhabited

structure Reply where
  delay : Duration := .zero
  headers : Headers := .empty
  messages : List Bytes := []
  trailers : Headers := .empty
  deriving Repr, Inhabited

/-- A reply that consists of a status alone. -/
def Reply.ofStatus (s : Status) : Reply := { headers := s.toHeaders }

end Backend

structure Backend where
  /-- Why the server takes no calls, if it takes none. -/
  notReady : Option String := none
  /-- The reply to a call, or the reason why none came. -/
  call : Backend.Request → Except String Backend.Reply

/-- A server that no connection reaches. -/
def Backend.unreachable (why : String) : Backend where
  call := fun _ => .ok (.ofStatus ⟨.unavailable, why, [], .empty⟩)

instance : Inhabited Backend := ⟨⟨none, fun _ => .error ""⟩⟩

end RpcGateway
