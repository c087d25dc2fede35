import RpcGateway.Http.Headers
import RpcGateway.Http.Uri

/-!
HTTP requests and responses. A request body arrives in chunks and may break off with a read error.
-/
namespace RpcGateway.Http

/-- A body as it arrives: data chunks, then a read error if `fault` gives one. -/
structure Body where
  chunks : List Bytes
  fault : Option String := none
  deriving Repr, Inhabited

/-- All bytes of a body. -/
def Body.bytes (b : Body) : Bytes := b.chunks.flatten

def Body.ofBytes (bytes : Bytes) : Body := ⟨[bytes], none⟩

structure Request where
  method : String
  uri : Uri
  headers : Headers
  body : Body
  deriving Repr, Inhabited

structure Response where
  status : Nat
  headers : Headers
  body : Bytes
  deriving DecidableEq, Repr, Inhabited

/-- A plain text answer that browsers do not take for anything else. -/
def Response.plain (status : Nat) (message : String) : Response where
  status := status
  headers := ⟨[("content-type", utf8 "text/plain; charset=utf-8"),
    ("x-content-type-options", utf8 "nosniff")]⟩
  body := utf8 (message ++ "\n")

end RpcGateway.Http
