import RpcGateway.Http.Message

/-!
What a request has to show before its body is read: the verb, a declared length within the cap, and
a JSON content type.
-/
namespace RpcGateway.Http
open Number

/-- Why a request is turned away before its body is read. -/
inductive Rejection
  | methodNotAllowed (method : String)
  | payloadTooLarge (length limit : Nat)
  | unsupportedMediaType
  deriving DecidableEq, Repr

namespace Rejection

def message : Rejection → String
  | methodNotAllowed method => s!"{method} method not allowed"
  | payloadTooLarge length limit => s!"content length too large ({length}>{limit})"
  | unsupportedMediaType => "invalid content type, only application/json is supported"

def status : Rejection → Nat
  | methodNotAllowed _ => 405
  | payloadTooLarge _ _ => 413
  | unsupportedMediaType => 415

end Rejection

/-- Media types of requests. -/
def acceptedMediaTypes : List Bytes :=
  [utf8 "application/json", utf8 "application/json-rpc", utf8 "application/jsonrequest"]

/-- The media type of a content type, in lower case and without parameters. -/
def mediaType (contentType : Bytes) : Bytes :=
  (trim (contentType.takeWhile (· ≠ ascii ';'))).map lowerByte

/-- The declared length: the first value of the header, if it is a number of 64 bits. -/
def declaredLength (h : Headers) : Option Nat := do
  let n ← natural? (trim (← h.text? "content-length"))
  guard (n < words64)
  return n

/-- Whether the declared content type is one of JSON. -/
def hasJsonContent (h : Headers) : Bool :=
  match h.text? "content-type" with
  | some contentType => acceptedMediaTypes.contains (mediaType contentType)
  | none => false

/-- Checks verb, length and content type, in this order. -/
def checkRequest (method : String) (h : Headers) (limit : Nat) : Except Rejection Unit :=
  if method ≠ "POST" then .error (.methodNotAllowed method)
  else
    match (declaredLength h).filter (limit < ·) with
    | some length => .error (.payloadTooLarge length limit)
    | none => if hasJsonContent h then .ok () else .error .unsupportedMediaType

end RpcGateway.Http
