import RpcGateway.Proto.Settings

/-!
Linking declared files into a pool. References are resolved to the names that the referring file can
see, and declarations that no message could follow are refused.
-/
namespace RpcGateway.Proto
open Schema

/-! ## Fields -/

/-- The name of a field in JSON where none is declared: underscores removed, and the letter after
each in upper case. -/
def camelCase : List Char → List Char
  | [] => []
  | ['_'] => []
  | '_' :: '_' :: cs => camelCase ('_' :: cs)
  | '_' :: c :: cs => c.toUpper :: camelCase cs
  | c :: cs => c :: camelCase cs

def jsonNameOf (f : FieldDecl) : String :=
  f.jsonName.getD (String.ofList (camelCase f.name.toList))

def scalarOf? : FieldKind → Option Scalar
  | .double => some .double | .float => some .float | .int64 => some .int64
  | .uint64 => some .uint64 | .int32 => some .int32 | .fixed64 => some .fixed64
  | .fixed32 => some .fixed32 | .bool => some .bool | .string => some .string
  | .bytes => some .bytes | .uint32 => some .uint32 | .sfixed32 => some .sfixed32
  | .sfixed64 => some .sfixed64 | .sint32 => some .sint32 | .sint64 => some .sint64
  | .group => none | .message => none | .enum => none

/-- The resolved type of a field. A type name decides it; without one, the kind does. -/
def fieldType (s : NameScope) (scope : String) (f : FieldDecl) : Except LinkError FieldType :=
  match f.typeName with
  | some name => (s.resolve NameKind.isType scope name).map fun n =>
      if n.kind = .enum then .enum n.name
      else if f.kind = .group then .group n.name
      else .message n.name
  | none =>
    match scalarOf? f.kind with
    | some scalar => .ok (.scalar scalar)
    | none => .error (.missingType f.name)

/-- In this dialect plain fields have no presence and lists are packed. -/
def implicitDialect : String := "proto3"

/-- Whether a field tells being set to the default from not being set, whatever its type. -/
def hasOwnPresence (f : FieldDecl) : Bool := f.explicitPresence || f.oneof.isSome

def slotOf (dialect : Option String) (f : FieldDecl) (type : FieldType) : Slot where
  type := type
  presence := hasOwnPresence f || type.isMessage || dialect != some implicitDialect

/-- A message declaration with its full name, as it is referred to. -/
structure Placed where
  fullName : String
  decl : MessageDecl
  dialect : Option String
  file : String

mutual

def placedMessages (file : String) (dialect : Option String) (scope : String) :
    MessageDecl → List Placed
  | ⟨name, fields, nested, enums, oneofs, mapEntry, extensions, rules⟩ =>
    ⟨within scope name, ⟨name, fields, nested, enums, oneofs, mapEntry, extensions, rules⟩, dialect,
        file⟩ ::
      placedNested file dialect (within scope name) nested

def placedNested (file : String) (dialect : Option String) (scope : String) :
    List MessageDecl → List Placed
  | [] => []
  | d :: ds => placedMessages file dialect scope d ++ placedNested file dialect scope ds

end

/-- All messages of the files with their full names. -/
def placedOf (ds : List FileDecl) : List Placed :=
  ds.flatMap fun d => placedNested d.name d.dialect d.package d.messages

/-- The key and the value of a map entry type, if it declares both. -/
def mapSlots? (s : NameScope) (p : Placed) : Except LinkError (Option (Slot × Slot)) := do
  match p.decl.fields.find? (·.number == 1), p.decl.fields.find? (·.number == 2) with
  | some key, some value =>
    let keyType ← fieldType s p.fullName key
    let valueType ← fieldType s p.fullName value
    return some (slotOf p.dialect key keyType, slotOf p.dialect value valueType)
  | _, _ => return none

/-- The map entry type that a field type refers to. -/
def entryType? (all : List Placed) (type : FieldType) : Option Placed :=
  match type with
  | .message name => all.find? fun q => q.fullName == name && q.decl.mapEntry
  | .group name => all.find? fun q => q.fullName == name && q.decl.mapEntry
  | _ => none

/-- What linking looks things up in. -/
structure LinkScope where
  all : List Placed
  names : List DeclaredName
  /-- What each file can see. -/
  visible : List (String × List String)

def LinkScope.of (s : LinkScope) (file : String) : NameScope :=
  ⟨s.names, (s.visible.lookup file).getD [file]⟩

def LinkScope.ofFiles (ds : List FileDecl) : LinkScope where
  all := placedOf ds
  names := ds.flatMap fun d => packageNames d ++ fileNames d
  visible := ds.map fun d => (d.name, visibleFiles ds d)

/-- Where a field is declared. -/
structure FieldPlace where
  file : String
  dialect : Option String
  scope : String

/-- What a field holds: one value, a list, or a map where its type is a map entry. -/
def fieldContent (s : LinkScope) (place : FieldPlace) (f : FieldDecl) :
    Except LinkError Content := do
  let type ← fieldType (s.of place.file) place.scope f
  if f.label ≠ .repeated then return .single (slotOf place.dialect f type)
  let slots? ← match entryType? s.all type with
    | some entry => mapSlots? (s.of entry.file) entry
    | none => pure none
  match slots? with
  | some (key, value) => return .map key value (hasOwnPresence f)
  | none =>
    let packed := type.isPackable && f.packed.getD (place.dialect == some implicitDialect)
    return .list type packed (hasOwnPresence f)

/-- Field numbers run up to this one. -/
def maxFieldNumber : Int := 536870911

def isFieldNumber (n : Int) : Bool :=
  1 ≤ n && n ≤ maxFieldNumber && !(19000 ≤ n && n ≤ 19999)

/-- A declared default is a value of the field's type. -/
def checkDefault (enums : Table EnumType) (s : LinkScope) (place : FieldPlace) (f : FieldDecl) :
    Except LinkError Unit :=
  match f.defaultText with
  | none => .ok ()
  | some text => do
    let type ← fieldType (s.of place.file) place.scope f
    unless Pool.acceptsDefault { enums := enums } type text do throw (.badDefault f.name text)

def linkField (enums : Table EnumType) (s : LinkScope) (place : FieldPlace) (f : FieldDecl) :
    Except LinkError FieldDef := do
  unless isFieldNumber f.number do throw (.badFieldNumber f.name f.number)
  let content ← fieldContent s place f
  checkDefault enums s place f
  return ⟨f.name, jsonNameOf f, f.number.toNat, f.oneof.map Int.toNat, content⟩

/-! ## Messages and extensions -/

def Placed.place (p : Placed) : FieldPlace := ⟨p.file, p.dialect, p.fullName⟩

/-- The oneofs of fields are declared. -/
def checkOneof (p : Placed) (f : FieldDecl) : Except LinkError Unit :=
  match f.oneof with
  | some i => if 0 ≤ i ∧ i < p.decl.oneofs.length then .ok () else .error (.missingOneof f.name)
  | none => .ok ()

/-- A name without underscores in lower case: names that agree in it are too much alike. -/
def plainName (name : String) : String :=
  String.ofList ((name.toList.filter (· ≠ '_')).map Char.toLower)

/-- Numbers that are not for fields of a message. -/
def MessageRules.keeps (r : MessageRules) (n : Int) : Bool :=
  r.reserved.any (·.contains n) || r.extensionRanges.any (·.range.contains n)

/-- Names and numbers of fields differ, and the numbers are free. -/
def checkFields (p : Placed) : Except LinkError Unit := do
  let fields := p.decl.fields
  distinct (.duplicateFieldNumber p.fullName) (fields.map FieldDecl.number)
  match (fields.map FieldDecl.number).find? (MessageRules.keeps p.decl.rules) with
  | some n => throw (.reservedFieldNumber p.fullName n)
  | none => pure ()
  distinct (.duplicateJsonName p.fullName) (fields.map jsonNameOf)
  if p.dialect = some implicitDialect then
    distinct (.duplicateJsonName p.fullName) (fields.map fun f => plainName f.name)
  fields.forM (checkOneof p)

def linkMessage (enums : Table EnumType) (s : LinkScope) (p : Placed) :
    Except LinkError MessageType := do
  checkFields p
  return ⟨p.fullName, ← p.decl.fields.mapM (linkField enums s p.place)⟩

/-- An extension. Its number is among those that the message leaves to extensions. -/
def linkExtension (enums : Table EnumType) (s : LinkScope) (place : FieldPlace) (f : FieldDecl) :
    Except LinkError Extension := do
  let extendee ← (s.of place.file).resolve (· == .message) place.scope f.extendee
  let isExtensible : Bool := s.all.any fun p =>
    p.fullName == extendee.name && p.decl.rules.extensionRanges.any (·.range.contains f.number)
  unless isExtensible do throw (.notAnExtensionNumber extendee.name f.number)
  let field ← linkField enums s place { f with oneof := none }
  return ⟨within place.scope f.name, extendee.name, field⟩

/-- The extensions of files with the places of their declaration. -/
def extensionsOf (all : List Placed) (ds : List FileDecl) : List (FieldPlace × FieldDecl) :=
  (ds.flatMap fun d => d.extensions.map (⟨d.name, d.dialect, d.package⟩, ·)) ++
    all.flatMap fun p => p.decl.extensions.map (p.place, ·)

/-! ## Enums and services -/

def linkEnum (dialect : Option String) (scope : String) (e : EnumDecl) :
    Except LinkError EnumType := do
  let name := within scope e.name
  let numbers := e.values.map EnumValueDecl.number
  match e.values with
  | [] => throw (.emptyEnum name)
  | first :: _ =>
    if dialect = some implicitDialect ∧ first.number ≠ 0 then throw (.firstValueNotZero name)
    unless e.allowsAliases do distinct (.duplicateEnumNumber name) numbers
    match numbers.find? fun n => e.reserved.any (·.contains n) with
    | some n => throw (.reservedEnumNumber name n)
    | none => return ⟨name, e.values.map fun v => (v.name, v.number)⟩

/-- The enums declared in a message, with the scope that each is in. -/
def enumsOf (d : FileDecl) : List (String × EnumDecl) :=
  d.enums.map (d.package, ·) ++
    (placedNested d.name d.dialect d.package d.messages).flatMap fun p =>
      p.decl.enums.map (p.fullName, ·)

def linkMethod (s : NameScope) (service : String) (m : MethodDecl) :
    Except LinkError MethodType := do
  let input ← s.resolve (· == .message) service m.input
  let output ← s.resolve (· == .message) service m.output
  return ⟨m.name, service, input.name, output.name⟩

def linkService (s : NameScope) (scope : String) (d : ServiceDecl) :
    Except LinkError ServiceType := do
  let name := within scope d.name
  return ⟨name, ← d.methods.mapM (linkMethod s name)⟩

/-! ## Files -/

def dialects : List String := ["proto2", implicitDialect]

/-- Checks that a file is in a known dialect, with all that it imports among the files. -/
def checkFile (names : List String) (d : FileDecl) : Except LinkError Unit := do
  match d.dialect with
  | some dialect => unless dialects.contains dialect do throw (.unknownDialect d.name dialect)
  | none => pure ()
  match d.dependencies.find? fun dependency => !names.contains dependency with
  | some dependency => throw (.missingImport d.name dependency)
  | none => pure ()
  match (d.publicDependencies ++ d.weakDependencies).find? fun i =>
      i < 0 || (d.dependencies.length : Int) ≤ i with
  | some i => throw (.badImportPosition d.name i)
  | none => pure ()

/-- Checks that files are given once and each is in order. -/
def checkFiles (ds : List FileDecl) : Except LinkError Unit := do
  let names := ds.map FileDecl.name
  distinct .duplicateFile names
  ds.forM (checkFile names)

/-- Checks the options of all declarations. -/
def checkOptions (ds : List FileDecl) (s : LinkScope) (pool : Pool)
    (extensions : List Extension) : Except LinkError Unit :=
  let sites := ds.flatMap fileSites ++ s.all.flatMap fun p => messageSites p.file p.fullName p.decl
  sites.forM fun site => site.check pool (s.of site.file) extensions

/-- The pool of all files. -/
def Pool.link (ds : List FileDecl) : Except LinkError Pool := do
  checkFiles ds
  checkNames ds
  let s := LinkScope.ofFiles ds
  let enumTypes ← ds.mapM fun d => (enumsOf d).mapM fun (scope, e) => linkEnum d.dialect scope e
  let enums := Table.ofList EnumType.fullName enumTypes.flatten
  let messages ← s.all.mapM (linkMessage enums s)
  let services ← ds.mapM fun d => d.services.mapM (linkService (s.of d.name) d.package)
  let pool : Pool :=
    { messages := .ofList MessageType.fullName messages
      enums := enums
      services := .ofList ServiceType.fullName services.flatten }
  let extensions ← (extensionsOf s.all ds).mapM fun (place, f) => linkExtension enums s place f
  checkOptions ds s pool extensions
  return pool

end RpcGateway.Proto
