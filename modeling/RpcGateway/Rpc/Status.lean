import RpcGateway.Rpc.Code
import RpcGateway.Rpc.Metadata
import RpcGateway.Text.Base64
import RpcGateway.Text.Percent
import RpcGateway.Text.Utf8Fault

/-!
The outcome of a call that did not succeed, and how it travels in headers: the code as a number, the
message percent-encoded and the details in base 64.
-/
namespace RpcGateway.Rpc
open Http Text

structure Status where
  code : Code
  message : String
  /-- Encoded details, empty if there are none. -/
  details : Bytes := []
  metadata : Metadata := .empty
  deriving DecidableEq, Repr, Inhabited

/-- The code that a header gives by one or two digits. -/
def Code.ofText (s : Bytes) : Code :=
  match s with
  | [d] => if isDigit d then .ofInt (digitValue d) else .unknown
  | [0x31, d] => if isDigit d then .ofInt (10 + digitValue d) else .unknown
  | _ => .unknown

namespace Status

def codeKey : String := "grpc-status"
def messageKey : String := "grpc-message"
def detailsKey : String := "grpc-status-details-bin"

/-- Headers without those of a status. -/
def metadataOf (h : Headers) : Metadata :=
  ((h.remove codeKey).remove messageKey).remove detailsKey

/-- What a message that is no text is replaced by. -/
def unreadableMessage (b : Bytes) : String :=
  "Error deserializing status message header: " ++ ((utf8Fault? b).map Utf8Fault.message).getD ""

/-- The status that headers give, if they give one. A message that is no text makes it unknown. -/
def ofHeaders? (h : Headers) : Option Status :=
  (h.get? codeKey).map fun code =>
    let details := ((h.get? detailsKey).bind (Base64.decodeWith Base64.standard)).getD []
    let message := Percent.decode ((h.get? messageKey).getD [])
    match ofUtf8? message with
    | some text => ⟨Code.ofText code, text, details, metadataOf h⟩
    | none => ⟨.unknown, unreadableMessage message, details, metadataOf h⟩

/-- The headers that give a status. -/
def toHeaders (s : Status) : Headers :=
  let h := s.metadata.insert codeKey (digits s.code.number.toInt.toNat)
  let h := if s.message.isEmpty then h else h.insert messageKey (Percent.encode (utf8 s.message))
  if s.details.isEmpty then h else h.insert detailsKey (Base64.encode s.details)

/-- A status that is no success. -/
def failure? (s : Status) : Option Status := if s.code = .ok then none else some s

/-- A status with further metadata, which replaces its own of the same keys. -/
def overlay (s : Status) (metadata : Metadata) : Status :=
  { s with metadata := s.metadata.overlay metadata }

end Status

end RpcGateway.Rpc
