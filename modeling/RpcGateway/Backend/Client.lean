import RpcGateway.Backend.Basic
import RpcGateway.Http.Uri
import RpcGateway.Proto.Reader
import RpcGateway.Proto.ToJson
import RpcGateway.Rpc.Encoding

/-!
Unary calls with messages of any type. A call fails before it is sent if the server is not ready, or
if the path or the metadata cannot be sent; after that its status tells.
-/
namespace RpcGateway.Backend
open Http Rpc Proto

/-- Why a call is not sent. -/
inductive ClientError
  | notReady (cause : String)
  | invalidPath (path : String)
  | invalidKey (key : String)
  | invalidValue (key : String)
  deriving DecidableEq, Repr

def ClientError.message : ClientError → String
  | notReady cause => s!"Internal error, the client was not ready: '{cause}'"
  | invalidPath path => s!"Invalid gRPC path '{path}'"
  | invalidKey key => s!"Invalid metadata (header) key '{key}': 'invalid gRPC metadata key name'"
  | invalidValue key =>
    s!"Invalid metadata (header) value for key '{key}': 'failed to parse metadata value'"

/-- Whether a key can be sent with a text: a header name that does not mark a binary value. -/
def isTextKey (key : String) : Bool := isName key && !isBinaryKey (lowerName key)

/-- Metadata of these entries in their order. -/
def metadataOf : List (String × Bytes) → Except ClientError Metadata
  | [] => .ok .empty
  | (key, value) :: rest => do
    if !isTextKey key then throw (.invalidKey key)
    if !isValue value then throw (.invalidValue key)
    return ⟨(lowerName key, value) :: (← metadataOf rest).entries⟩

/-- Keys that a call sets for itself. -/
def ownKeys : List String :=
  ["te", "content-type", "grpc-message", "grpc-message-type", "grpc-status"]

def timeoutKey : String := "grpc-timeout"

/-- The metadata that is sent: with the time limit, and without the keys that the call sets itself.
-/
def sentMetadata (metadata : Metadata) (limit : Option Duration) : Metadata :=
  let m := match limit with
    | none => metadata
    | some d => metadata.insert timeoutKey (utf8 d.limitText)
  ⟨m.entries.filter fun e => !ownKeys.contains e.1⟩

/-- What stands before the reason why a request cannot be encoded. -/
def encodingFailed : String := "Error encoding the request: "

/-- What stands before the reason why a reply cannot be decoded. -/
def decodingFailed : String := "Failed to decode Protobuf bytes: "

/-- The bytes of a request, which has to be of the method's input type. -/
def encodeRequest (pool : Pool) (m : MethodType) (payload : Proto.Message) : Except Status Bytes :=
  if payload.type.fullName = m.input then .ok (payload.toBytes pool)
  else
    .error ⟨.internal, encodingFailed ++ s!"expected a '{m.input}' message, got '" ++
      payload.type.fullName ++ "'", [], .empty⟩

/-- What stands before the reason why a reply has no JSON form. -/
def mappingFailed : String := "Failed to map response to JSON: "

/-- A message of a reply as JSON with all fields that have no presence. -/
def decodeReply (pool : Pool) (m : MethodType) (b : Bytes) : Except Status Json :=
  match lengthFault? b with
  | some s => .error s
  | none =>
    match Message.ofBytes pool (pool.outputType m) b with
    | .error fault => .error ⟨.internal, decodingFailed ++ fault.message, [], .empty⟩
    | .ok reply =>
      match reply.toJson pool true with
      | .error fault => .error ⟨.internal, mappingFailed ++ fault.message, [], .empty⟩
      | .ok json => .ok json

/-- The status of a reply that ends without one. -/
def missingStatus : Status where
  code := .unknown
  message := "protocol error: missing grpc-status trailer, stream was terminated without a " ++
    "final status (possible truncation by a proxy or load balancer)"

/-- The status of a reply that ends without a message. -/
def missingMessage : Status := ⟨.internal, "Missing response message.", [], .empty⟩

/-- The failure that a reply ends with. The trailers tell, unless the headers have told already. -/
def endingFailure? (r : Reply) : Option Status :=
  if (Status.ofHeaders? r.headers).isSome then none
  else ((Status.ofHeaders? r.trailers).getD missingStatus).failure?

/-- What a reply without a failure in its headers amounts to: its first message with its metadata,
if all messages can be decoded and the end is no failure. Before a message has come, failures have
the metadata of the headers too. -/
def resultOfBody (pool : Pool) (m : MethodType) (r : Reply) : Except Status (Json × Metadata) :=
  match r.messages with
  | [] =>
    match endingFailure? r with
    | some s => .error (s.overlay r.headers)
    | none => .error missingMessage
  | first :: rest => do
    let result ← (decodeReply pool m first).mapError (·.overlay r.headers)
    let _ ← rest.mapM (decodeReply pool m)
    match endingFailure? r with
    | some s => throw s
    | none => return (result, r.headers.overlay r.trailers)

/-- What a reply amounts to. Its headers may refuse it or tell of a failure at once. -/
def resultOf (pool : Pool) (m : MethodType) (r : Reply) : Except Status (Json × Metadata) :=
  match (encodingFault? r.headers).or ((Status.ofHeaders? r.headers).bind Status.failure?) with
  | some s => .error s
  | none => resultOfBody pool m r

/-- The path of a method as it is sent. A query or a fragment is no part of it. -/
def pathOf (m : MethodType) : Except ClientError Bytes :=
  match Target.parse? (utf8 m.path) with
  | some target => .ok target.path
  | none => .error (.invalidPath m.path)

/-- A call's outcome, and how long it took. -/
structure Finished where
  delay : Duration := .zero
  result : Except Status (Json × Metadata)

/-- Calls a method with a message. -/
def unary (b : Backend) (pool : Pool) (m : MethodType) (payload : Proto.Message)
    (headers : List (String × Bytes)) (limit : Option Duration) : Except ClientError Finished := do
  match b.notReady with
  | some cause => throw (.notReady cause)
  | none => pure ()
  let path ← pathOf m
  let metadata ← metadataOf headers
  match encodeRequest pool m payload with
  | .error s => return { result := .error s }
  | .ok message =>
    match b.call ⟨path, sentMetadata metadata limit, message⟩ with
    | .error cause => return { result := .error ⟨.unknown, cause, [], .empty⟩ }
    | .ok reply => return { delay := reply.delay, result := resultOf pool m reply }

end RpcGateway.Backend
