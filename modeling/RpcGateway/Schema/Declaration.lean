import RpcGateway.Schema.Setting

/-!
Schema files as they are declared: messages with fields, enums, and services with methods. Messages
nest, and each may declare messages and enums of its own.
-/
namespace RpcGateway.Schema

/-- The declared type of a field. -/
inductive FieldKind
  | double | float | int64 | uint64 | int32 | fixed64 | fixed32 | bool | string | group | message
  | bytes | uint32 | enum | sfixed32 | sfixed64 | sint32 | sint64
  deriving DecidableEq, Repr, Inhabited

namespace FieldKind

/-- All kinds in the order of their numbers, which start at one. -/
def all : List FieldKind :=
  [double, float, int64, uint64, int32, fixed64, fixed32, bool, string, group, message, bytes,
    uint32, enum, sfixed32, sfixed64, sint32, sint64]

def name : FieldKind → String
  | double => "double" | float => "float" | int64 => "int64" | uint64 => "uint64"
  | int32 => "int32" | fixed64 => "fixed64" | fixed32 => "fixed32" | bool => "bool"
  | string => "string" | group => "group" | message => "message" | bytes => "bytes"
  | uint32 => "uint32" | enum => "enum" | sfixed32 => "sfixed32" | sfixed64 => "sfixed64"
  | sint32 => "sint32" | sint64 => "sint64"

def number (k : FieldKind) : Nat := all.idxOf k + 1

/-- The kind of a number; numbers without a kind read as the first one. -/
def ofNumber (n : Int) : FieldKind := if n < 1 then double else all.getD (n.toNat - 1) double

/-- Messages and groups have fields of their own. -/
def isAggregate (k : FieldKind) : Bool := k == message || k == group

end FieldKind

inductive Label
  | optional | required | repeated
  deriving DecidableEq, Repr, Inhabited

namespace Label

def number : Label → Nat
  | optional => 1 | required => 2 | repeated => 3

/-- The label of a number; numbers without a label read as optional. -/
def ofNumber (n : Int) : Label := if n = 2 then required else if n = 3 then repeated else optional

end Label

structure FieldDecl where
  name : String := ""
  number : Int := 0
  label : Label := .optional
  kind : FieldKind := .double
  /-- The type of messages, groups and enums, absolute with a leading dot or relative. -/
  typeName : Option String := none
  jsonName : Option String := none
  /-- Position of the oneof that the field belongs to. -/
  oneof : Option Int := none
  /-- Declared with the keyword `optional` in the dialect where plain fields have no presence. -/
  explicitPresence : Bool := false
  /-- Whether a list is written under one key, if that is declared. -/
  packed : Option Bool := none
  /-- The text of a default that is declared. -/
  defaultText : Option String := none
  /-- The message that an extension adds to. -/
  extendee : String := ""
  settings : Settings := {}
  deriving DecidableEq, Repr, Inhabited

/-- Numbers from one to another, both included. -/
structure NumberRange where
  first : Int
  last : Int
  deriving DecidableEq, Repr, Inhabited

def NumberRange.contains (r : NumberRange) (n : Int) : Bool := r.first ≤ n && n ≤ r.last

structure EnumValueDecl where
  name : String := ""
  number : Int := 0
  settings : Settings := {}
  deriving DecidableEq, Repr, Inhabited

structure EnumDecl where
  name : String := ""
  values : List EnumValueDecl := []
  /-- Several values may have one number. -/
  allowsAliases : Bool := false
  /-- Numbers that no value may have. -/
  reserved : List NumberRange := []
  settings : Settings := {}
  deriving DecidableEq, Repr, Inhabited

/-- Numbers of a message that are left to extensions. -/
structure ExtensionRange where
  range : NumberRange
  settings : Settings := {}
  deriving DecidableEq, Repr, Inhabited

/-- What a message lays down about its fields' numbers and about options. -/
structure MessageRules where
  /-- Numbers that no field may have. -/
  reserved : List NumberRange := []
  extensionRanges : List ExtensionRange := []
  settings : Settings := {}
  oneofSettings : List Settings := []
  deriving DecidableEq, Repr, Inhabited

structure MessageDecl where
  name : String := ""
  fields : List FieldDecl := []
  nested : List MessageDecl := []
  enums : List EnumDecl := []
  oneofs : List String := []
  /-- An entry type that stands for the key and the value of a map field. -/
  mapEntry : Bool := false
  /-- Extensions of other messages that are declared within this one. -/
  extensions : List FieldDecl := []
  rules : MessageRules := {}
  deriving Repr, Inhabited

structure MethodDecl where
  name : String := ""
  input : String := ""
  output : String := ""
  clientStreaming : Bool := false
  serverStreaming : Bool := false
  settings : Settings := {}
  deriving DecidableEq, Repr, Inhabited

structure ServiceDecl where
  name : String := ""
  methods : List MethodDecl := []
  settings : Settings := {}
  deriving DecidableEq, Repr, Inhabited

structure FileDecl where
  name : String := ""
  package : String := ""
  dependencies : List String := []
  /-- Positions of the dependencies that are passed on to importing files. -/
  publicDependencies : List Int := []
  /-- Positions of the dependencies that may be missing at run time. -/
  weakDependencies : List Int := []
  messages : List MessageDecl := []
  enums : List EnumDecl := []
  services : List ServiceDecl := []
  extensions : List FieldDecl := []
  settings : Settings := {}
  /-- The dialect, `proto2` where none is named. -/
  dialect : Option String := none
  deriving Repr, Inhabited

/-- A name under a package and enclosing messages, each with a dot in front. -/
def qualifiedName (package : String) (outers : List String) (name : String) : String :=
  let scope := if package.isEmpty then outers else package :: outers
  String.join ((scope ++ [name]).map ("." ++ ·))

end RpcGateway.Schema
