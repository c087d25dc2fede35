import RpcGateway.Backend.Client

/-!
A server that answers the methods of the echo schema: one returns its request, one fails, and one
returns its request after a delay.
-/
namespace RpcGateway.Echo
open Http Rpc Proto Backend

/-- Service and method of a path, cut at its second slash. -/
def methodOfPath? (pool : Pool) (path : Bytes) : Option MethodType :=
  match path with
  | 0x2F :: rest =>
    let service := rest.takeWhile (· ≠ slash)
    match rest.drop service.length with
    | 0x2F :: name =>
      match ofUtf8? service, ofUtf8? name with
      | some service, some name => pool.method? service name
      | _, _ => none
    | _ => none
  | _ => none

def userKey : String := "x-user"

/-- The reply with a message. A user that the request names is named in the headers. -/
def replyWith (metadata : Metadata) (message : Bytes) (delay : Duration) : Reply :=
  let h := Headers.empty.insert "x-echo" (utf8 "true")
  { delay := delay
    headers := match metadata.get? userKey with
      | some user => h.insert userKey user
      | none => h
    messages := [message]
    trailers := Headers.empty.insert Status.codeKey (digits 0) }

/-- The reply that repeats a request in the method's output type. -/
def echo (pool : Pool) (m : MethodType) (metadata : Metadata) (request : Proto.Message)
    (delay : Duration) : Reply :=
  match Message.ofBytes pool (pool.outputType m) (request.toBytes pool) with
  | .ok reply => replyWith metadata (reply.toBytes pool) delay
  | .error fault => { Reply.ofStatus ⟨.internal, fault.message, [], .empty⟩ with delay := delay }

/-- The value of a request's field, where the type has one of that name. -/
def fieldValue? (pool : Pool) (request : Proto.Message) (name : String) : Option Value :=
  match request.type.fieldOfName? name with
  | none => none
  | some f =>
    match Fields.get? request.fields f.number, f.content with
    | some v, _ => some v
    | none, .single slot => some (pool.defaultOf slot.type)
    | none, _ => none

/-- The message that asks for a failure to authenticate. -/
def unauthenticatedText : String := "unauthenticated"

def failure (pool : Pool) (request : Proto.Message) : Status :=
  if fieldValue? pool request "message" == some (.text unauthenticatedText) then
    ⟨.unauthenticated, "Bearer realm=\"echo\"", [], .empty⟩
  else ⟨.notFound, "no echo for you", [], Headers.empty.insert "x-reason" (utf8 "testing")⟩

/-- Whether a field holds one signed number of 32 bits. -/
def isSigned32 (c : Content) : Bool :=
  match c with
  | .single slot =>
    [.scalar .int32, .scalar .sint32, .scalar .sfixed32].contains slot.type
  | _ => false

/-- The delay that a request asks for, if the field for it holds signed numbers of 32 bits. -/
def delayOf (pool : Pool) (request : Proto.Message) : Duration :=
  let name := "delay_ms"
  match (request.type.fieldOfName? name).map (isSigned32 ·.content),
      fieldValue? pool request name with
  | some true, some (.int ms) => .ofMillis ms.toNat
  | _, _ => .zero

/-- The reply of a method to a decoded request. -/
def answer (pool : Pool) (m : MethodType) (metadata : Metadata) (request : Proto.Message) : Reply :=
  if m.name = "UnaryEcho" then echo pool m metadata request .zero
  else if m.name = "Fail" then .ofStatus (failure pool request)
  else if m.name = "Slow" then echo pool m metadata request (delayOf pool request)
  else .ofStatus ⟨.unimplemented, m.name ++ " is not served", [], .empty⟩

/-- The server of all methods of a pool. -/
def server (pool : Pool) : Backend where
  call := fun request =>
    .ok <| match methodOfPath? pool request.path with
      | none =>
        .ofStatus ⟨.unimplemented, "unknown method " ++ (ofUtf8? request.path).getD "", [], .empty⟩
      | some m =>
        match (encodingFault? request.metadata).or (lengthFault? request.message),
            Message.ofBytes pool (pool.inputType m) request.message with
        | some s, _ => .ofStatus s
        | none, .error fault => .ofStatus ⟨.internal, decodingFailed ++ fault.message, [], .empty⟩
        | none, .ok message => answer pool m request.metadata message

end RpcGateway.Echo
