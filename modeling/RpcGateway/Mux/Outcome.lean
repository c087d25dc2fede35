import RpcGateway.Envelope.Printer
import RpcGateway.Http.Message
import RpcGateway.Rpc.Code
import RpcGateway.Rpc.Details

/-!
Outcomes of handlers and the responses they become. Every response carries an envelope with the id
and the method of its request, and the metadata of the call as prefixed headers.
-/
namespace RpcGateway.Mux
open Http Rpc

/-- A result with the metadata of the call that made it. -/
structure Output where
  result : Json
  metadata : Metadata := .empty
  deriving Repr, Inhabited

/-- A failure, with an HTTP status where the one of its code is not wanted. -/
structure Failure where
  status : Status
  httpStatus : Option Nat := none
  deriving Repr, Inhabited

def Failure.of (code : Code) (message : String) : Failure := ⟨⟨code, message, [], .empty⟩, none⟩

abbrev Outcome := Except Failure Output

/-- The header of a marshaler's content type, that of JSON where it is no header value. -/
def contentTypeOf (m : Marshaler) : Bytes :=
  if isValue (utf8 m.contentType) then utf8 m.contentType else utf8 jsonContentType

def contentTypeHeader : String := "content-type"

def authenticateHeader : String := "www-authenticate"

/-- A marshaled result. -/
def successResponse (body : Bytes) (metadata : Metadata) (m : Marshaler) : Response where
  status := 200
  headers := forward (Headers.empty.insert contentTypeHeader (contentTypeOf m)) metadata
  body := body

/-- The answer where the error itself cannot be marshaled. -/
def fallbackResponse (request : Envelope) : Response where
  status := 500
  headers := Headers.empty.insert contentTypeHeader (utf8 jsonContentType)
  body :=
    (request.failure ⟨Code.internal.number, "failed to marshal error message", none⟩).print

/-- The headers of an error before its metadata. A missing authentication is asked for in a header
of its own, if the message can be one. -/
def errorHeaders (s : Status) (m : Marshaler) : Headers :=
  let h := Headers.empty.insert contentTypeHeader (contentTypeOf m)
  if s.code = .unauthenticated ∧ isValue (utf8 s.message) then
    h.insert authenticateHeader (utf8 s.message)
  else h

/-- The error envelope of a failure. -/
def errorEnvelope (request : Envelope) (s : Status) (pool : Option Proto.Pool) : Envelope :=
  request.failure ⟨s.code.number, s.message, s.detailsJson pool⟩

/-- The answer with an error. -/
def errorResponse (request : Envelope) (failure : Failure) (m : Marshaler)
    (pool : Option Proto.Pool) : Response :=
  let s := failure.status
  match m.marshal (errorEnvelope request s pool) with
  | .error _ => fallbackResponse request
  | .ok body =>
    { status := failure.httpStatus.getD s.code.httpStatus
      headers := forward (errorHeaders s m) s.metadata
      body := body }

/-- The answer to an outcome. A result that cannot be marshaled is an internal error. -/
def respond (request : Envelope) (outcome : Outcome) (m : Marshaler) (pool : Option Proto.Pool) :
    Response :=
  match outcome with
  | .error failure => errorResponse request failure m pool
  | .ok output =>
    match m.marshal (request.success output.result) with
    | .ok body => successResponse body output.metadata m
    | .error why => errorResponse request (.of .internal why) m pool

end RpcGateway.Mux
