/-!
Message types with one unambiguous text form. A path parameter may end at a field of such a type.
-/
namespace RpcGateway.Schema

/-- Absolute names of the well-known types. -/
def wellKnownTypes : List String :=
  [".google.protobuf.Timestamp", ".google.protobuf.Duration", ".google.protobuf.StringValue",
    ".google.protobuf.FloatValue", ".google.protobuf.DoubleValue", ".google.protobuf.BoolValue",
    ".google.protobuf.BytesValue", ".google.protobuf.Int32Value", ".google.protobuf.UInt32Value",
    ".google.protobuf.Int64Value", ".google.protobuf.UInt64Value"]

def isWellKnown (typeName : String) : Bool := wellKnownTypes.contains typeName

end RpcGateway.Schema
