import RpcGateway.Proto.LinkError
import RpcGateway.Proto.Type
import RpcGateway.Schema.Declaration
import RpcGateway.Schema.Scope

/-!
The names that files declare, and what a reference stands for. Every declared name is unique, and a
reference sees the names of its own file and of those that it imports.
-/
namespace RpcGateway.Proto
open Schema

/-- What a declared name stands for. -/
inductive NameKind
  | package
  | message
  | enum
  | service
  | extension
  | member
  deriving DecidableEq, Repr

/-- Whether names stand within a name of this kind. -/
def NameKind.isScope : NameKind → Bool
  | package => true
  | message => true
  | enum => true
  | service => true
  | extension => false
  | member => false

/-- Whether a field may be of a type of this kind. -/
def NameKind.isType (k : NameKind) : Bool := k == message || k == enum

structure DeclaredName where
  name : String
  kind : NameKind
  file : String
  deriving DecidableEq, Repr

/-- A name within a scope, without a leading dot. -/
def within (scope name : String) : String := if scope.isEmpty then name else scope ++ "." ++ name

def enumNames (file scope : String) (e : EnumDecl) : List DeclaredName :=
  ⟨within scope e.name, .enum, file⟩ ::
    e.values.map fun v => ⟨within scope v.name, .member, file⟩

def extensionNames (file scope : String) (fs : List FieldDecl) : List DeclaredName :=
  fs.map fun f => ⟨within scope f.name, .extension, file⟩

mutual

/-- The names that a message declares: its own, those of its parts and those nested in it. -/
def messageNames (file scope : String) : MessageDecl → List DeclaredName
  | ⟨name, fields, nested, enums, oneofs, _, extensions, _⟩ =>
    let own := within scope name
    ⟨own, .message, file⟩ ::
      ((fields.map fun f => ⟨within own f.name, .member, file⟩) ++
        (oneofs.map fun o => ⟨within own o, .member, file⟩) ++
        enums.flatMap (enumNames file own) ++ extensionNames file own extensions ++
        nestedNames file own nested)

def nestedNames (file scope : String) : List MessageDecl → List DeclaredName
  | [] => []
  | d :: ds => messageNames file scope d ++ nestedNames file scope ds

end

def serviceNames (file scope : String) (s : ServiceDecl) : List DeclaredName :=
  let own := within scope s.name
  ⟨own, .service, file⟩ :: s.methods.map fun m => ⟨within own m.name, .member, file⟩

/-- The packages that enclose a file's declarations. -/
def packageNames (d : FileDecl) : List DeclaredName :=
  if d.package.isEmpty then []
  else (beginnings (Text.piecesOf '.' d.package.toList)).map fun cs => ⟨dotted cs, .package, d.name⟩

/-- All names that a file declares, packages aside. -/
def fileNames (d : FileDecl) : List DeclaredName :=
  nestedNames d.name d.package d.messages ++ d.enums.flatMap (enumNames d.name d.package) ++
    d.services.flatMap (serviceNames d.name d.package) ++
    extensionNames d.name d.package d.extensions

/-- Names declare one thing each. Packages may be shared, but not with other things. -/
def checkNames (ds : List FileDecl) : Except LinkError Unit := do
  let names := (ds.flatMap fileNames).map DeclaredName.name
  distinct .duplicateName names
  match ((ds.flatMap packageNames).map DeclaredName.name).find? names.contains with
  | some name => .error (.duplicateName name)
  | none => .ok ()

/-- The files whose names a file can see: itself, what it imports, and what those import publicly.
-/
def visibleFiles (ds : List FileDecl) (d : FileDecl) : List String :=
  let reexported (name : String) : List String :=
    match ds.find? (·.name == name) with
    | none => []
    | some f => f.publicDependencies.filterMap fun i => f.dependencies[i.toNat]?
  let widen (names : List String) : List String :=
    (names ++ names.flatMap reexported).eraseDups
  (List.range ds.length).foldl (fun names _ => widen names) (d.name :: d.dependencies)

/-- What a reference is resolved against. -/
structure NameScope where
  names : List DeclaredName
  visible : List String

namespace NameScope

/-- Packages are in sight everywhere. -/
def sees (s : NameScope) (n : DeclaredName) : Bool :=
  n.kind == .package || s.visible.contains n.file

/-- The thing of a full name, if it is in sight and of a wanted kind. -/
def find? (s : NameScope) (wanted : NameKind → Bool) (name : String) : Option DeclaredName :=
  s.names.find? fun n => n.name == name && wanted n.kind && s.sees n

end NameScope

/-- A scope and those around it, innermost first, the root as the empty text at the end. -/
def scopesOf (scope : String) : List String :=
  (if scope.isEmpty then [] else (beginnings (Text.piecesOf '.' scope.toList)).map dotted) ++ [""]

namespace NameScope

/-- Resolves a relative name. Of a dotted one, the innermost scope in which the first component has
names within it decides. -/
def relative? (s : NameScope) (wanted : NameKind → Bool) (scope name : String) :
    Option DeclaredName :=
  match Text.piecesOf '.' name.toList with
  | [_] => (scopesOf scope).findSome? fun outer => s.find? wanted (within outer name)
  | first :: _ =>
    let holds (outer : String) : Bool :=
      (s.find? NameKind.isScope (within outer (String.ofList first))).isSome
    ((scopesOf scope).find? holds).bind fun outer => s.find? wanted (within outer name)
  | [] => none

/-- Resolves a name to what it stands for, absolute with a leading dot. -/
def resolve (s : NameScope) (wanted : NameKind → Bool) (scope name : String) :
    Except LinkError DeclaredName :=
  let found :=
    if isAbsolute name then s.find? wanted (Pool.withoutDot name) else s.relative? wanted scope name
  match found with
  | some n => .ok n
  | none => .error (.unresolvedName name scope)

end NameScope

end RpcGateway.Proto
