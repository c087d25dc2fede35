import RpcGateway.Envelope.Basic
import RpcGateway.Json.Printer

/-!
Envelopes as JSON text, and marshalers, which may write another form or refuse to write. Members
that are absent are left out, and so is an empty method.
-/
namespace RpcGateway
open Json

/-- A member of an object that is written in a fixed order. -/
abbrev Member := String × Bytes

/-- The object with these members, in this order. -/
def printRecord (members : List Member) : Bytes :=
  let one (m : Member) : Bytes := printString m.1 ++ colon :: m.2
  openBrace :: [comma].intercalate (members.map one) ++ [closeBrace]

/-- A member that is present only with a value. -/
def memberOf {α : Type} (name : String) (printValue : α → Bytes) (value : Option α) : List Member :=
  match value with
  | none => []
  | some v => [(name, printValue v)]

def RpcError.print (e : RpcError) : Bytes :=
  printRecord
    (("code", printInt e.code.toInt) :: ("message", printString e.message) ::
      memberOf "data" Json.print e.data)

def Envelope.print (m : Envelope) : Bytes :=
  printRecord
    (("jsonrpc", printString m.version) :: memberOf "id" Json.print m.id ++
      (if m.method.isEmpty then [] else [("method", printString m.method)]) ++
      memberOf "params" Json.print m.params ++ memberOf "result" Json.print m.result ++
      memberOf "error" RpcError.print m.error)

/-- Writes envelopes as bytes of a content type, or says why it cannot. -/
structure Marshaler where
  name : String
  contentType : String
  marshal : Envelope → Except String Bytes

/-- The content type of JSON. -/
def jsonContentType : String := "application/json"

/-- Plain JSON, which is never refused. -/
def Marshaler.json : Marshaler := ⟨"JsonMarshaler", jsonContentType, fun m => .ok m.print⟩

instance : Inhabited Marshaler := ⟨.json⟩

end RpcGateway
