import RpcGateway.Schema.Entry
import RpcGateway.Schema.Error
import RpcGateway.Schema.Scope
import RpcGateway.Text.Upper

/-!
The registry of loaded schemas. Files register all their types under absolute names, and each file's
package gets an identifier that no other package has. An alias that is bound once stays bound.
-/
namespace RpcGateway.Schema
open Text

structure Registry where
  messages : Table Message := .empty
  enums : Table Enum := .empty
  files : Table File := .empty
  /-- Files whose services are loaded, in the order of the requests. -/
  targets : List String := []
  /-- Put in front of every package path. -/
  pathStart : String := ""
  /-- Package paths given for single files. -/
  packageMap : Table String := .empty
  /-- Package paths by the aliases that they hold. -/
  aliases : Table String := .empty
  standalone : Bool := false
  useJsonNames : Bool := false
  /-- How deep renderers may follow nested messages. -/
  depth : Nat := 1000
  deriving Inhabited

namespace Registry

def empty : Registry := {}

/-! ## Settings -/

def setPathStart (r : Registry) (value : String) : Registry := { r with pathStart := value }

def mapPackage (r : Registry) (file path : String) : Registry :=
  { r with packageMap := r.packageMap.insert file path }

def setStandalone (r : Registry) (value : Bool) : Registry := { r with standalone := value }

def setUseJsonNames (r : Registry) (value : Bool) : Registry := { r with useJsonNames := value }

def setDepth (r : Registry) (value : Nat) : Registry := { r with depth := value }

/-! ## Aliases -/

/-- Whether a package may hold an alias: nobody else does. -/
def isFree (r : Registry) (name path : String) : Bool :=
  match r.aliases.get? name with
  | none => true
  | some holder => holder == path

/-- Binds an alias to a package for good. -/
def reserveAlias (r : Registry) (name path : String) : Except AliasConflict Registry :=
  match r.aliases.get? name with
  | none => .ok { r with aliases := r.aliases.insert name path }
  | some holder => if holder = path then .ok r else .error ⟨name, holder⟩

/-- A name, then the same with the suffixes `_0`, `_1` and so on, `count` of them. -/
def aliasNames (name : String) (count : Nat) : List String :=
  name :: (List.range count).map fun i => name ++ "_" ++ toString i

/-- The first alias that is free for a package. One of them is: there is one more than are bound. -/
def freeAlias (r : Registry) (name path : String) : String :=
  ((aliasNames name r.aliases.entries.length).find? fun a => r.isFree a path).getD name

/-- Reserves the first free alias for a package. -/
def allocateAlias (r : Registry) (name path : String) : String × Registry :=
  let a := r.freeAlias name path
  (a, { r with aliases := r.aliases.insert a path })

def aliasPath? (r : Registry) (name : String) : Option String := r.aliases.get? name

/-! ## Look-ups -/

def lookupMessage (r : Registry) (location name : String) : Except LookupError Message :=
  match resolve r.messages location name with
  | some m => .ok m
  | none => .error (.messageNotFound name)

def lookupEnum (r : Registry) (location name : String) : Except LookupError Enum :=
  match resolve r.enums location name with
  | some e => .ok e
  | none => .error (.enumNotFound name)

def lookupFile (r : Registry) (path : String) : Except LookupError File :=
  match r.files.get? path with
  | some f => .ok f
  | none => .error (.fileNotFound path)

/-- The files whose services are loaded, in the order of the requests. -/
def targetFiles (r : Registry) : List File := r.targets.filterMap r.files.get?

/-- The name of a field in rendered output. -/
def fieldName (r : Registry) (f : Field) : String := if r.useJsonNames then f.jsonName else f.name

/-- Whether a field is a map. -/
def isMapField (r : Registry) (f : Field) : Bool :=
  f.isRepeated && f.isAggregate &&
    match r.lookupMessage f.owner f.typeName with
    | .ok m => m.mapEntry
    | .error _ => false

/-! ## Loading types -/

def schemaExtension : String := ".proto"

/-- The last segment of a file path, without its extension. -/
def fileStem (path : String) : String := dropSuffix (lastPiece '/' path) schemaExtension

/-- The characters up to the first double colon. -/
def upToDoubleColon : List Char → List Char
  | ':' :: ':' :: _ => []
  | c :: cs => c :: upToDoubleColon cs
  | [] => []

/-- The last segment of a package path. -/
def lastSegment (path : String) : String :=
  String.ofList (upToDoubleColon path.toList.reverse).reverse

/-- A dotted package name as a package path. -/
def pathOfPackage (package : String) : String :=
  String.join (package.toList.map fun c => if c = '.' then "::" else c.toString)

/-- The package path of a file: given for it, or made of its package or of its name. -/
def packagePath (r : Registry) (d : FileDecl) : String :=
  let path := match r.packageMap.get? d.name with
    | some path => path
    | none => if d.package.isEmpty then fileStem d.name else pathOfPackage d.package
  if r.pathStart.isEmpty then path else r.pathStart ++ "::" ++ path

/-- The alias that a package asks for: its name, or a marked one where output stands alone. -/
def wantedAlias (r : Registry) (name : String) : String :=
  if r.standalone then "ext" ++ capitalize name else name

/-- The package of a file and the registry in which its identifier is reserved. -/
def assignPackage (r : Registry) (d : FileDecl) : Package × Registry :=
  let path := r.packagePath d
  let name := lastSegment path
  let (a, r) := r.allocateAlias (r.wantedAlias name) path
  (⟨path, name, if a = name then none else some a⟩, r)

def insertAll {α : Type} (t : Table α) (entries : List (String × α)) : Table α :=
  entries.foldl (fun t (name, value) => t.insert name value) t

/-- Registers a file and all its types. Services are not loaded here. -/
def loadFile (r : Registry) (d : FileDecl) : Registry :=
  let (package, r) := r.assignPackage d
  let file : File :=
    { decl := d
      package := package
      outputName := dropSuffix d.name schemaExtension
      messages := d.messageEntries.map Prod.fst
      enums := d.enumEntries.map Prod.fst
      services := [] }
  { r with
    messages := insertAll r.messages d.messageEntries
    enums := insertAll r.enums d.enumEntries
    files := r.files.insert d.name file }

def loadFiles (r : Registry) (ds : List FileDecl) : Registry := ds.foldl loadFile r

end Registry

end RpcGateway.Schema
