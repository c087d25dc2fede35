import RpcGateway.Backend.Client
import RpcGateway.Mux.Dispatch
import RpcGateway.Proto.FromJson
import RpcGateway.Schema.Services

/-!
Handlers that forward calls to a backend. Each unary method of loaded services is routed under its
service and its own name; methods that stream are left out.
-/
namespace RpcGateway.Backend
open Http Rpc Proto

/-- A loaded method that the pool does not have. -/
inductive ProxyError
  | methodNotInPool (path : String)
  deriving DecidableEq, Repr

def ProxyError.message : ProxyError → String
  | methodNotInPool path => s!"method '{path}' not found in the descriptor pool"

def invalidParams : String := "the parameters do not match the request type"

/-- The request message that parameters denote; without parameters nothing in it is set. -/
def decodeParams (pool : Pool) (m : MethodType) (params : Json) : Except Status Proto.Message :=
  match params with
  | .null => .ok (.empty (pool.inputType m))
  | params =>
    match Message.ofJson? pool (pool.inputType m) params with
    | some message => .ok message
    | none => .error ⟨.invalidArgument, invalidParams, [], .empty⟩

/-- The status of a call that is not sent. -/
def ClientError.status (e : ClientError) : Status :=
  match e with
  | .notReady _ => ⟨.unavailable, e.message, [], .empty⟩
  | _ => ⟨.invalidArgument, e.message, [], .empty⟩

/-- What comes of a finished call for the client. -/
def outcomeOf (result : Except Status (Json × Metadata)) : Mux.Outcome :=
  match result with
  | .ok (json, metadata) => .ok ⟨json, metadata⟩
  | .error s => .error ⟨s, none⟩

/-- Decodes the parameters, calls the method with the metadata of the request, and passes the
outcome on. -/
def proxyHandler (b : Backend) (pool : Pool) (m : MethodType) : Mux.Handler := fun ctx params =>
  match decodeParams pool m params with
  | .error s => { outcome := .error ⟨s, none⟩ }
  | .ok message =>
    match b.unary pool m message (outgoing ctx.headers) ctx.limit with
    | .error e => { outcome := .error ⟨e.status, none⟩ }
    | .ok finished => { delay := finished.delay, outcome := outcomeOf finished.result }

/-- The pool's description of a loaded method. -/
def methodType (pool : Pool) (m : Schema.Method) : Except ProxyError MethodType :=
  match pool.method? m.serviceFullName m.name with
  | some t => .ok t
  | none => .error (.methodNotInPool m.path)

/-- The methods of a file that are proxied. -/
def unaryMethods (f : Schema.File) : List Schema.Method :=
  (f.services.flatMap Schema.Service.methods).filter fun m => !m.isStreaming

/-- Routes one method to the backend. -/
def registerMethod (b : Backend) (pool : Pool) (mux : Mux) (m : Schema.Method) :
    Except ProxyError Mux := do
  let t ← methodType pool m
  return mux.register m.rpcName (b.proxyHandler pool t)

/-- Routes the unary methods of a file's loaded services, and counts them. -/
def registerFile (b : Backend) (pool : Pool) (mux : Mux) (f : Schema.File) :
    Except ProxyError (Mux × Nat) := do
  let methods := unaryMethods f
  return (← methods.foldlM (b.registerMethod pool) mux, methods.length)

/-- Routes the unary methods of all files whose services are loaded, and counts them. -/
def registerAll (b : Backend) (pool : Pool) (mux : Mux) (r : Schema.Registry) :
    Except ProxyError (Mux × Nat) :=
  r.targetFiles.foldlM (fun (mux, count) f => do
    let (mux, n) ← b.registerFile pool mux f
    return (mux, count + n)) (mux, 0)

end RpcGateway.Backend
