import RpcGateway.Http.Headers

/-!
Call metadata on its way through HTTP headers. Outwards each key gets a prefix, inwards the prefix
is taken off again. Keys of the transport are not forwarded to clients.
-/
namespace RpcGateway.Rpc
open Http

/-- Metadata of a call: keys in lower case and their values. -/
abbrev Metadata := Headers

/-- The prefix of headers that carry metadata, in lower case. -/
def metadataPrefix : String := "grpc-metadata-"

/-- Keys that belong to the transport. -/
def reservedKeys : List String :=
  ["content-type", "content-length", "connection", "te", "trailer", "transfer-encoding",
    "grpc-status", "grpc-message", "grpc-status-details-bin", "grpc-encoding",
    "grpc-accept-encoding", "grpc-timeout"]

/-- Whether an entry may go to a client. -/
def isForwarded (key : String) (value : Bytes) : Bool :=
  !reservedKeys.contains key && isName (metadataPrefix ++ key) && isValue value

/-- Appends metadata to response headers. -/
def forward (headers : Headers) (metadata : Metadata) : Headers :=
  metadata.entries.foldl
    (fun h (key, value) =>
      if isForwarded key value then h.append (metadataPrefix ++ key) value else h)
    headers

/-- The metadata key of a request header: what follows the prefix, or `authorization` itself. -/
def keyOfHeader? (name : String) : Option String :=
  if metadataPrefix.toList.isPrefixOf name.toList then
    some (String.ofList (name.toList.drop metadataPrefix.length))
  else if name = "authorization" then some name
  else none

/-- Keys with this ending have binary values. -/
def isBinaryKey (key : String) : Bool := "-bin".toList.isSuffixOf key.toList

/-- The metadata of the call that a request makes, each value as text. -/
def outgoing (headers : Headers) : List (String × Bytes) :=
  headers.grouped.filterMap fun (name, value) => do
    let key ← keyOfHeader? name
    guard (!(key.isEmpty || isBinaryKey key))
    return (key, ← visible? value)

end RpcGateway.Rpc
