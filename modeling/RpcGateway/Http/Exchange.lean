import RpcGateway.Http.Admission

/-!
Requests and responses as bytes of a connection: a head of lines, an empty line, and a body of the
declared length. A connection carries one exchange.
-/
namespace RpcGateway.Http

def carriageReturn : UInt8 := 0x0D
def lineFeed : UInt8 := 0x0A

/-- The lines before the first empty line, and the bytes after it. `line` is the line begun so far,
in reverse. -/
def cutHead (line : Bytes) : Bytes → Option (List Bytes × Bytes)
  | [] => none
  | 0x0D :: 0x0A :: rest =>
    if line.isEmpty then some ([], rest)
    else (cutHead [] rest).map fun (lines, body) => (line.reverse :: lines, body)
  | b :: rest => cutHead (b :: line) rest

/-- Cuts bytes at the first that is equal to a separator. -/
def cutAt? (separator : UInt8) (s : Bytes) : Option (Bytes × Bytes) :=
  let before := s.takeWhile (· ≠ separator)
  match s.drop before.length with
  | _ :: after => some (before, after)
  | [] => none

/-- The verb and the target of a request line. -/
def requestLine? (line : Bytes) : Option (String × Uri) := do
  let (method, rest) ← cutAt? 0x20 line
  let (target, version) ← cutAt? 0x20 rest
  guard (version = utf8 "HTTP/1.1" || version = utf8 "HTTP/1.0")
  let method ← ofUtf8? method
  guard (isName method)
  return (method, ← Uri.parse? target)

/-- A header line: a name, a colon and a value. -/
def headerLine? (line : Bytes) : Option (String × Bytes) := do
  let (name, value) ← cutAt? (ascii ':') line
  let name ← ofUtf8? name
  guard (isName name && isValue value)
  return (name, trim value)

/-- How far a request has arrived. -/
inductive Arrival
  | incomplete
  | malformed
  | complete (request : Request)
  deriving Inhabited

/-- The longest head that is read. -/
def maxHeadBytes : Nat := 65536

/-- The request that bytes begin with. Of a body that is declared too long only a part is awaited.
-/
def Arrival.of (limit : Nat) (b : Bytes) : Arrival :=
  match cutHead [] b with
  | none => if maxHeadBytes < b.length then .malformed else .incomplete
  | some ([], _) => .malformed
  | some (line :: fields, rest) =>
    match requestLine? line, fields.mapM headerLine? with
    | some (method, uri), some fields =>
      let headers := Headers.ofList fields
      let length := (declaredLength headers).getD 0
      if rest.length < length ∧ length ≤ limit then .incomplete
      else .complete ⟨method, uri, headers, .ofBytes (rest.take length)⟩
    | _, _ => .malformed

/-- The phrase of a status. -/
def phraseOf : Nat → String
  | 200 => "OK" | 400 => "Bad Request" | 401 => "Unauthorized" | 403 => "Forbidden"
  | 404 => "Not Found" | 405 => "Method Not Allowed" | 408 => "Request Timeout"
  | 409 => "Conflict" | 413 => "Payload Too Large" | 415 => "Unsupported Media Type"
  | 429 => "Too Many Requests" | 500 => "Internal Server Error" | 501 => "Not Implemented"
  | 503 => "Service Unavailable" | 504 => "Gateway Timeout" | _ => "Status"

/-- A header as a line with its end. -/
def headerBytes (name : String) (value : Bytes) : Bytes :=
  utf8 name ++ utf8 ": " ++ value ++ [carriageReturn, lineFeed]

/-- A response that ends its connection. -/
def Response.toBytes (r : Response) : Bytes :=
  utf8 s!"HTTP/1.1 {r.status} {phraseOf r.status}" ++ [carriageReturn, lineFeed] ++
    r.headers.entries.flatMap (fun (name, value) => headerBytes name value) ++
    headerBytes "content-length" (digits r.body.length) ++
    headerBytes "connection" (utf8 "close") ++ [carriageReturn, lineFeed] ++ r.body

/-- The answer to bytes that are no request. -/
def Response.malformed : Response := ⟨400, .empty, []⟩

end RpcGateway.Http
