import RpcGateway.Schema.Declaration
import RpcGateway.Text.Upper

/-!
The schema of the echo service: a request that is answered in full, with a nested message, an enum,
a field with explicit presence and a wrapped string.
-/
namespace RpcGateway.Echo
open Schema

def fileName : String := "echo/v1/echo.proto"
def wrappersFileName : String := "google/protobuf/wrappers.proto"

/-- Underscores removed, and the character after each in upper case. -/
def camelCase : List Char → List Char
  | [] => []
  | '_' :: '_' :: cs => camelCase ('_' :: cs)
  | '_' :: c :: cs => Text.upper c ++ camelCase cs
  | ['_'] => []
  | c :: cs => c :: camelCase cs

def field (name : String) (number : Int) (kind : FieldKind) (typeName : Option String := none) :
    FieldDecl where
  name := name
  number := number
  kind := kind
  typeName := typeName
  jsonName := some (String.ofList (camelCase name.toList))

def wrapper (name : String) (kind : FieldKind) : MessageDecl where
  name := name
  fields := [field "value" 1 kind]

/-- The wrapper types that the schema uses. -/
def wrappersFile : FileDecl where
  name := wrappersFileName
  package := "google.protobuf"
  messages := [wrapper "StringValue" .string, wrapper "Int32Value" .int32]
  dialect := some "proto3"

def metaType : String := ".echo.v1.EchoRequest.Meta"

def metaMessage : MessageDecl where
  name := "Meta"
  fields := [field "trace_id" 1 .string, field "mood" 2 .enum ".echo.v1.Mood"]

def request : MessageDecl where
  name := "EchoRequest"
  fields :=
    [field "message" 1 .string, field "delay_ms" 2 .int32, field "meta" 3 .message metaType,
      { field "note" 4 .string with oneof := some 0, explicitPresence := true },
      field "label" 5 .message ".google.protobuf.StringValue"]
  nested := [metaMessage]
  oneofs := ["_note"]

def response : MessageDecl where
  name := "EchoResponse"
  fields :=
    [field "message" 1 .string, field "delay_ms" 2 .int32, field "meta" 3 .message metaType]

def mood : EnumDecl where
  name := "Mood"
  values := [{ name := "MOOD_UNSPECIFIED" }, { name := "MOOD_HAPPY", number := 1 }]

def method (name : String) (serverStreaming : Bool) : MethodDecl where
  name := name
  input := ".echo.v1.EchoRequest"
  output := ".echo.v1.EchoResponse"
  serverStreaming := serverStreaming

def service : ServiceDecl where
  name := "EchoService"
  methods :=
    [method "UnaryEcho" false, method "Fail" false, method "Slow" false,
      method "ServerStreamingEcho" true]

def file : FileDecl where
  name := fileName
  package := "echo.v1"
  dependencies := [wrappersFileName]
  messages := [request, response]
  enums := [mood]
  services := [service, { name := "Silent" }]
  dialect := some "proto3"

/-- All files of the schema, dependencies first. -/
def files : List FileDecl := [wrappersFile, file]

end RpcGateway.Echo
