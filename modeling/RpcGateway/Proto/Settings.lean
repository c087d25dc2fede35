import RpcGateway.Proto.Default
import RpcGateway.Proto.DescriptorTypes
import RpcGateway.Proto.Names

/-!
Options that declarations write down by name. Each has to be an option that there is for its kind of
declaration, or an extension of those; it is set once, unless it is a list, and to a value of its
type.
-/
namespace RpcGateway.Proto
open Schema

/-- The options of one declaration and the place where they stand. -/
structure OptionSite where
  /-- The type of the options, by its name within descriptors. -/
  type : String
  file : String
  scope : String
  settings : Settings

/-- An extension with its resolved content. -/
structure Extension where
  fullName : String
  extendee : String
  field : FieldDef
  deriving Repr

/-- The integer that a setting writes down. -/
def integerOf? (w : Setting) : Option Int := (w.natural.map Int.ofNat).or w.negative

/-- Names of numbers that no digits write. -/
def specialReals : List String := ["inf", "nan"]

/-- Whether a setting writes a value of a scalar type. -/
def Scalar.acceptsSetting (s : Scalar) (w : Setting) : Bool :=
  let isReal :=
    w.real.isSome || (integerOf? w).isSome || w.identifier.any specialReals.contains
  match s with
  | .bool => w.identifier == some "true" || w.identifier == some "false"
  | .double => isReal
  | .float => isReal
  | .string => (w.text.bind ofUtf8?).isSome
  | .bytes => w.text.isSome
  | s => ((integerOf? w).bind s.integer?).isSome

/-- Whether a setting writes a value of a type. Messages are set by their fields only. -/
def Pool.acceptsSetting (pool : Pool) (type : FieldType) (w : Setting) : Bool :=
  match type with
  | .scalar s => s.acceptsSetting w
  | .enum name => (w.identifier.bind (pool.enumType name).number?).isSome
  | .message _ => false
  | .group _ => false

/-- The text of an option's name. -/
def pathText (path : List SettingPart) : String :=
  ".".intercalate (path.map fun p => if p.isExtension then s!"({p.name})" else p.name)

/-- What options are looked up in. -/
structure OptionScope where
  pool : Pool
  names : NameScope
  extensions : List Extension
  scope : String

namespace OptionScope

/-- The option of a step within a type. -/
def field? (s : OptionScope) (type : MessageType) (part : SettingPart) : Option FieldDef :=
  if part.isExtension then
    match s.names.resolve (· == .extension) s.scope part.name with
    | .ok n =>
      (s.extensions.find? fun e => e.fullName == n.name && e.extendee == type.fullName).map
        Extension.field
    | .error _ => none
  else type.fieldOfName? part.name

/-- The option of a whole name, with the numbers that lead to it. -/
def find? (s : OptionScope) (type : MessageType) :
    List SettingPart → Option (List Nat × FieldDef)
  | [] => none
  | [last] => (s.field? type last).map fun f => ([f.number], f)
  | part :: parts =>
    match s.field? type part with
    | some ⟨_, _, number, _, .single slot⟩ =>
      match s.pool.referred? slot.type with
      | some inner => (s.find? inner parts).map fun (path, f) => (number :: path, f)
      | none => none
    | _ => none

/-- Takes one setting over those that are set: the numbers that lead to them. -/
def assign (s : OptionScope) (type : MessageType) (taken : List (List Nat)) (w : Setting) :
    Except LinkError (List (List Nat)) :=
  match s.find? type w.path with
  | none => .error (.unknownOption type.fullName (pathText w.path))
  | some (path, f) =>
    match f.content with
    | .single slot =>
      if taken.contains path then .error (.duplicateOption type.fullName (pathText w.path))
      else if s.pool.acceptsSetting slot.type w then .ok (path :: taken)
      else .error (.badOptionValue type.fullName (pathText w.path))
    | .list element _ _ =>
      if s.pool.acceptsSetting element w then .ok taken
      else .error (.badOptionValue type.fullName (pathText w.path))
    | .map _ _ _ => .error (.badOptionValue type.fullName (pathText w.path))

end OptionScope

/-- The type of options, and the pool that has it. Files may declare the types of descriptors. -/
def optionType (pool : Pool) (type : String) : Pool × MessageType :=
  let name := Descriptor.nameOf type
  match pool.message? name with
  | some t => (pool, t)
  | none => (Descriptor.pool, Descriptor.pool.messageType name)

/-- Checks the options of one declaration. -/
def OptionSite.check (site : OptionSite) (pool : Pool) (names : NameScope)
    (extensions : List Extension) : Except LinkError Unit := do
  let (pool, type) := optionType pool site.type
  let scope : OptionScope := ⟨pool, names, extensions, site.scope⟩
  let _ ← site.settings.written.foldlM (scope.assign type) (site.settings.assigned.map ([·]))

/-! ## The sites of a file -/

def fieldSite (file scope : String) (f : FieldDecl) : OptionSite :=
  ⟨"FieldOptions", file, scope, f.settings⟩

def enumSites (file scope : String) (e : EnumDecl) : List OptionSite :=
  ⟨"EnumOptions", file, scope, e.settings⟩ ::
    e.values.map fun v => ⟨"EnumValueOptions", file, scope, v.settings⟩

def serviceSites (file scope : String) (s : ServiceDecl) : List OptionSite :=
  ⟨"ServiceOptions", file, scope, s.settings⟩ ::
    s.methods.map fun m => ⟨"MethodOptions", file, scope, m.settings⟩

/-- What is declared in a message itself. -/
def messageSites (file scope : String) (d : MessageDecl) : List OptionSite :=
  ⟨"MessageOptions", file, scope, d.rules.settings⟩ ::
    (d.fields.map (fieldSite file scope) ++ d.extensions.map (fieldSite file scope) ++
      (d.rules.oneofSettings.map fun s => ⟨"OneofOptions", file, scope, s⟩) ++
      (d.rules.extensionRanges.map fun r => ⟨"ExtensionRangeOptions", file, scope, r.settings⟩) ++
      d.enums.flatMap (enumSites file scope))

/-- What is declared in a file outside of messages. -/
def fileSites (d : FileDecl) : List OptionSite :=
  ⟨"FileOptions", d.name, d.package, d.settings⟩ ::
    (d.extensions.map (fieldSite d.name d.package) ++
      d.enums.flatMap (enumSites d.name d.package) ++
      d.services.flatMap (serviceSites d.name d.package))

end RpcGateway.Proto
