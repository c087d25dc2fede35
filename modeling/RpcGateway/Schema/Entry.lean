import RpcGateway.Schema.Declaration

/-!
What a registry knows of loaded files: declarations together with the place they were found in, and
services whose method types are resolved.
-/
namespace RpcGateway.Schema

/-- Where generated output for a file belongs. -/
structure Package where
  path : String
  /-- The last segment of the path. -/
  name : String
  /-- Set when the name itself is not used to refer to the package. -/
  alias? : Option String := none
  deriving DecidableEq, Repr, Inhabited

/-- The word that refers to a package. -/
def Package.identifier (p : Package) : String := p.alias?.getD p.name

structure Field where
  /-- Absolute name of the message that holds the field. -/
  owner : String
  decl : FieldDecl
  deriving DecidableEq, Repr, Inhabited

namespace Field

def name (f : Field) : String := f.decl.name
def jsonName (f : Field) : String := f.decl.jsonName.getD ""
def typeName (f : Field) : String := f.decl.typeName.getD ""
def isAggregate (f : Field) : Bool := f.decl.kind.isAggregate
def isRepeated (f : Field) : Bool := f.decl.label == .repeated
def isOptional (f : Field) : Bool := f.decl.explicitPresence

end Field

structure Message where
  file : String
  package : String
  /-- Enclosing messages, outermost first. -/
  outers : List String
  name : String
  /-- Position among its siblings. -/
  index : Nat
  mapEntry : Bool
  fields : List Field
  deriving DecidableEq, Repr, Inhabited

namespace Message

def fullName (m : Message) : String := qualifiedName m.package m.outers m.name

/-- The first field of a name. -/
def field? (m : Message) (name : String) : Option Field := m.fields.find? (·.name == name)

/-- A declared message with its place. -/
def ofDecl (file package : String) (outers : List String) (index : Nat) (d : MessageDecl) :
    Message where
  file := file
  package := package
  outers := outers
  name := d.name
  index := index
  mapEntry := d.mapEntry
  fields := d.fields.map fun f => ⟨qualifiedName package outers d.name, f⟩

end Message

structure Enum where
  file : String
  package : String
  outers : List String
  name : String
  index : Nat
  values : List EnumValueDecl
  deriving DecidableEq, Repr, Inhabited

namespace Enum

def fullName (e : Enum) : String := qualifiedName e.package e.outers e.name

def ofDecl (file package : String) (outers : List String) (index : Nat) (d : EnumDecl) : Enum where
  file := file
  package := package
  outers := outers
  name := d.name
  index := index
  values := d.values

end Enum

/-- A method whose input and output types are resolved to absolute names. -/
structure Method where
  service : String
  serviceFullName : String
  decl : MethodDecl
  requestType : String
  responseType : String
  deriving DecidableEq, Repr, Inhabited

namespace Method

def name (m : Method) : String := m.decl.name

/-- The name under which the method is called. -/
def rpcName (m : Method) : String := m.service ++ "." ++ m.name

/-- The path of the call at the server that implements the method. -/
def path (m : Method) : String := "/" ++ m.serviceFullName ++ "/" ++ m.name

def isStreaming (m : Method) : Bool := m.decl.clientStreaming || m.decl.serverStreaming

end Method

/-- The dotted name of a service, without a leading dot. -/
def serviceFullName (package name : String) : String :=
  if package.isEmpty then name else package ++ "." ++ name

structure Service where
  file : String
  package : String
  decl : ServiceDecl
  methods : List Method
  deriving DecidableEq, Repr, Inhabited

namespace Service

def name (s : Service) : String := s.decl.name
def fullName (s : Service) : String := serviceFullName s.package s.name

end Service

structure File where
  decl : FileDecl
  package : Package
  /-- The file's path without its extension. -/
  outputName : String
  /-- Absolute names of all messages of the file, nested ones included, in declaration order. -/
  messages : List String
  enums : List String
  /-- Services that have methods, once they are loaded. -/
  services : List Service
  deriving Repr, Inhabited

namespace File

def name (f : File) : String := f.decl.name

end File

mutual

/-- A message and the messages nested in it, each under its absolute name. -/
def MessageDecl.entries (file package : String) (outers : List String) (index : Nat) :
    MessageDecl → List (String × Message)
  | ⟨name, fields, nested, enums, oneofs, mapEntry, extensions, rules⟩ =>
    let m := Message.ofDecl file package outers index
      ⟨name, fields, nested, enums, oneofs, mapEntry, extensions, rules⟩
    (m.fullName, m) :: messageEntries file package (outers ++ [name]) 0 nested

/-- All messages of a list of declarations, each before those nested in it. -/
def messageEntries (file package : String) (outers : List String) (index : Nat) :
    List MessageDecl → List (String × Message)
  | [] => []
  | d :: ds =>
    d.entries file package outers index ++ messageEntries file package outers (index + 1) ds

end

/-- Enums declared side by side. -/
def enumEntries (file package : String) (outers : List String) (ds : List EnumDecl) :
    List (String × Enum) :=
  ds.mapIdx fun index d =>
    let e := Enum.ofDecl file package outers index d
    (e.fullName, e)

mutual

/-- The enums of the messages nested in a message, then its own. -/
def MessageDecl.enumEntries (file package : String) (outers : List String) :
    MessageDecl → List (String × Enum)
  | ⟨name, _, nested, enums, _, _, _, _⟩ =>
    nestedEnumEntries file package (outers ++ [name]) nested ++
      Schema.enumEntries file package (outers ++ [name]) enums

def nestedEnumEntries (file package : String) (outers : List String) :
    List MessageDecl → List (String × Enum)
  | [] => []
  | d :: ds => d.enumEntries file package outers ++ nestedEnumEntries file package outers ds

end

namespace FileDecl

/-- All messages that a file declares, under their absolute names. -/
def messageEntries (d : FileDecl) : List (String × Message) :=
  Schema.messageEntries d.name d.package [] 0 d.messages

/-- All enums that a file declares, those of its messages first. -/
def enumEntries (d : FileDecl) : List (String × Enum) :=
  nestedEnumEntries d.name d.package [] d.messages ++
    Schema.enumEntries d.name d.package [] d.enums

end FileDecl

end RpcGateway.Schema
