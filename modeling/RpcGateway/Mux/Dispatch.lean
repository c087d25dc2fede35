import RpcGateway.Envelope.Codec
import RpcGateway.Http.Admission
import RpcGateway.Mux.Outcome
import RpcGateway.Rpc.Duration
import RpcGateway.Text.Quoted

/-!
Routing by method name. A request passes its checks in a fixed order, its body is read as one
envelope, and the handler of the named method is given as long as the deadline allows.
-/
namespace RpcGateway.Mux
open Http Rpc

/-- What a handler sees of the request. -/
structure Context where
  uri : Uri
  headers : Headers
  /-- How long the call may take, if it is bounded. -/
  limit : Option Duration
  deriving Repr, Inhabited

/-- A finished call: how long it took and what came of it. -/
structure Call where
  delay : Duration := .zero
  outcome : Outcome
  deriving Inhabited

/-- Answers the parameters of a call, `null` where there are none. -/
abbrev Handler := Context → Json → Call

structure Options where
  maxBodyBytes : Nat := defaultMaxBodyBytes
  timeout : Option Duration := none
  marshaler : Marshaler := .json
  /-- The types that details of errors are rendered by. -/
  pool : Option Proto.Pool := none
  deriving Inhabited

end Mux

/-- The routing table with its options. -/
structure Mux where
  handlers : Table Mux.Handler := .empty
  options : Mux.Options := {}
  deriving Inhabited

namespace Mux
open Http Rpc

/-- Routes a method to a handler, in place of an earlier one. -/
def register (mux : Mux) (method : String) (handler : Handler) : Mux :=
  { mux with handlers := mux.handlers.insert method handler }

def contains (mux : Mux) (method : String) : Bool := mux.handlers.contains method

/-- The names of all routed methods in ascending order. -/
def methods (mux : Mux) : List String :=
  mux.handlers.names.mergeSort fun a b => decide (a ≤ b)

/-- What is left of a routing table once its handlers are taken out. -/
def drained (mux : Mux) : Mux := { mux with handlers := .empty }

def timeoutHeader : String := "grpc-timeout"

/-- The time limit that a caller sends. A text that is none counts as absent. -/
def inboundLimit (h : Headers) : Option Duration :=
  match (h.text? timeoutHeader).bind ofUtf8? with
  | none => none
  | some text => (parseTimeout text).toOption.join

/-- The shorter of two limits, either of which may be missing. -/
def shorter : Option Duration → Option Duration → Option Duration
  | some a, some b => some (a.min b)
  | a, b => a.or b

/-- How long a call may take: the shorter of the configured limit and the caller's. -/
def limitOf (mux : Mux) (h : Headers) : Option Duration :=
  shorter mux.options.timeout (inboundLimit h)

/-- The outcome of a call as the deadline leaves it. -/
def Call.within (call : Call) (limit : Option Duration) : Outcome :=
  match limit with
  | none => call.outcome
  | some limit =>
    if limit < call.delay then .error (.of .deadlineExceeded "context deadline exceeded")
    else call.outcome

theorem Call.within_of_le {call : Call} {limit : Option Duration}
    (h : ∀ l, limit = some l → call.delay ≤ l) : call.within limit = call.outcome := by
  unfold Call.within
  cases limit with
  | none => rfl
  | some l => exact if_neg (Nat.not_lt.mpr (h l rfl))

theorem Call.within_of_lt {call : Call} {l : Duration} (h : l < call.delay) :
    call.within (some l) = .error (.of .deadlineExceeded "context deadline exceeded") :=
  if_pos h

/-- What comes of a decoded request. -/
def dispatch (mux : Mux) (uri : Uri) (headers : Headers) (message : Envelope) : Outcome :=
  match mux.handlers.get? message.method with
  | none => .error (.of .unimplemented "method not implemented")
  | some handler =>
    let limit := mux.limitOf headers
    (handler ⟨uri, headers, limit⟩ (.ofOption message.params)).within limit

/-- The HTTP status of a body that is not one envelope. -/
def bodyStatus : BodyError → Nat
  | .tooLarge _ => 413
  | _ => 400

/-- The envelope of a request, or the plain answer that turns it away. -/
def accept (mux : Mux) (request : Request) : Except Response Envelope :=
  let limit := mux.options.maxBodyBytes
  match checkRequest request.method request.headers limit with
  | .error e => .error (.plain e.status e.message)
  | .ok () =>
    match request.body.read limit with
    | .error e => .error (.plain (bodyStatus e) e.message)
    | .ok bytes =>
      match Envelope.ofBody bytes with
      | .error e => .error (.plain (bodyStatus e) e.message)
      | .ok message => .ok message

/-- Serves one exchange. -/
def serve (mux : Mux) (request : Request) : Response :=
  match mux.accept request with
  | .error response => response
  | .ok message =>
    respond message (mux.dispatch request.uri request.headers message) mux.options.marshaler
      mux.options.pool

/-- An optional limit as a listing shows it. -/
def limitText : Option Duration → String
  | none => "None"
  | some d => "Some(" ++ d.text ++ ")"

/-- A listing of the methods and the options. -/
def describe (mux : Mux) : String :=
  "ServeMux \x7b methods: " ++ Text.quotedList mux.methods ++ ", max_body_bytes: " ++
    toString mux.options.maxBodyBytes ++ ", timeout: " ++ limitText mux.options.timeout ++
    ", marshaler: " ++ mux.options.marshaler.name ++ " \x7d"

end Mux

end RpcGateway
