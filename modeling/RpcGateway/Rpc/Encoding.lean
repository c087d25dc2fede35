import RpcGateway.Rpc.Status

/-!
Which messages are received. Compression is not supported: headers may only say that messages are
not compressed, and any other encoding is refused with a status that names the one that is accepted.
Messages that are too long are refused unread.
-/
namespace RpcGateway.Rpc
open Http

/-- The key that names the encoding of messages. -/
def encodingKey : String := "grpc-encoding"

/-- The key that names the encodings that are accepted. -/
def acceptedEncodingKey : String := "grpc-accept-encoding"

/-- The encoding that leaves messages as they are. -/
def plainEncoding : Bytes := utf8 "identity"

/-- A name as text, or the list of its bytes if it is none. -/
def shownName (name : Bytes) : String :=
  match ofUtf8? name with
  | some s => s
  | none => "[" ++ String.intercalate ", " (name.map fun b => toString b.toNat) ++ "]"

/-- The status that refuses an encoding. -/
def unsupportedEncoding (name : Bytes) : Status where
  code := .unimplemented
  message := "Content is compressed with `" ++ shownName name ++ "` which isn't supported"
  metadata := Headers.empty.insert acceptedEncodingKey plainEncoding

/-- The status that refuses a message with these headers, unless it is not compressed. -/
def encodingFault? (h : Headers) : Option Status :=
  match h.get? encodingKey with
  | none => none
  | some name => if name = plainEncoding then none else some (unsupportedEncoding name)

/-- The most bytes that a message may have to be received. -/
def maxMessageLength : Nat := 4194304

/-- The status that refuses a message of so many bytes. -/
def messageTooLong (length : Nat) : Status where
  code := .outOfRange
  message := s!"Error, decoded message length too large: found {length} bytes, the limit is: " ++
    s!"{maxMessageLength} bytes"

/-- The status that refuses a message, unless it is short enough. -/
def lengthFault? (message : Bytes) : Option Status :=
  if maxMessageLength < message.length then some (messageTooLong message.length) else none

end RpcGateway.Rpc
