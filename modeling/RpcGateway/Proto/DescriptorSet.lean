import RpcGateway.Proto.DescriptorTypes
import RpcGateway.Proto.Reader
import RpcGateway.Schema.Declaration

/-!
Descriptor sets: schema files as bytes. Texts that are empty and flags that are off are left out, so
a part that is missing reads as the one that was left out. What is written are the declarations
proper, without ranges, extensions and options other than those that make maps, packed lists and
aliases.
-/
namespace RpcGateway.Proto.Descriptor
open Schema

/-! ## Reading -/

def textAt (fs : Fields) (number : Nat) : Option String :=
  match fs.get? number with
  | some (.text s) => some s
  | _ => none

def wholeAt (fs : Fields) (number : Nat) : Option Int :=
  match fs.get? number with
  | some (.int i) => some i
  | _ => none

def flagAt (fs : Fields) (number : Nat) : Option Bool :=
  match fs.get? number with
  | some (.bool b) => some b
  | _ => none

def doubleAt (fs : Fields) (number : Nat) : Option Number.Double :=
  match fs.get? number with
  | some (.double x) => some x
  | _ => none

def bytesAt (fs : Fields) (number : Nat) : Option Bytes :=
  match fs.get? number with
  | some (.bytes b) => some b
  | _ => none

def itemsAt (fs : Fields) (number : Nat) : List Value :=
  match fs.get? number with
  | some (.list items) => items
  | _ => []

/-- The fields of a part, none where there is no such part. -/
def partAt (fs : Fields) (number : Nat) : Fields :=
  match fs.get? number with
  | some (.message part) => part
  | _ => []

def textOf? : Value → Option String
  | .text s => some s
  | _ => none

def wholeOf? : Value → Option Int
  | .int i => some i
  | _ => none

def partOf? : Value → Option Fields
  | .message part => some part
  | _ => none

/-- The parts of a list, each read in the same way. -/
def partsAt {α : Type} (read : Fields → α) (fs : Fields) (number : Nat) : List α :=
  (itemsAt fs number).filterMap fun v => (partOf? v).map read

/-! Options -/

def settingPart (fs : Fields) : SettingPart where
  name := (textAt fs 1).getD ""
  isExtension := (flagAt fs 2).getD false

def setting (fs : Fields) : Setting where
  path := partsAt settingPart fs 2
  identifier := textAt fs 3
  natural := (wholeAt fs 4).map Int.toNat
  negative := wholeAt fs 5
  real := doubleAt fs 6
  text := bytesAt fs 7

/-- The number of the options that are only written down. -/
def writtenOptions : Nat := 999

/-- The options in a part. -/
def settingsOf (options : Fields) : Settings where
  assigned := (options.map Prod.fst).filter (· != writtenOptions)
  written := partsAt setting options writtenOptions

def settingsAt (fs : Fields) (number : Nat) : Settings := settingsOf (partAt fs number)

/-! Declarations -/

def fieldDecl (fs : Fields) : FieldDecl where
  name := (textAt fs 1).getD ""
  number := (wholeAt fs 3).getD 0
  label := .ofNumber ((wholeAt fs 4).getD 1)
  kind := .ofNumber ((wholeAt fs 5).getD 1)
  typeName := textAt fs 6
  jsonName := textAt fs 10
  oneof := wholeAt fs 9
  explicitPresence := (flagAt fs 17).getD false
  packed := flagAt (partAt fs 8) 2
  defaultText := textAt fs 7
  extendee := (textAt fs 2).getD ""
  settings := settingsAt fs 8

/-- A range that ends with the number given. -/
def closedRange (fs : Fields) : NumberRange := ⟨(wholeAt fs 1).getD 0, (wholeAt fs 2).getD 0⟩

/-- A range that ends before the number given. -/
def openRange (fs : Fields) : NumberRange := ⟨(wholeAt fs 1).getD 0, (wholeAt fs 2).getD 0 - 1⟩

def enumValueDecl (fs : Fields) : EnumValueDecl where
  name := (textAt fs 1).getD ""
  number := (wholeAt fs 2).getD 0
  settings := settingsAt fs 3

def enumDecl (fs : Fields) : EnumDecl where
  name := (textAt fs 1).getD ""
  values := partsAt enumValueDecl fs 2
  allowsAliases :=
    (flagAt (partAt fs 3) 2).getD ((settingsAt fs 3).switchesOn "allow_alias")
  reserved := partsAt closedRange fs 4
  settings := settingsAt fs 3

def extensionRange (fs : Fields) : ExtensionRange := ⟨openRange fs, settingsAt fs 3⟩

/-- Parts of a list that are read in the same way. -/
def partsOf {α : Type} (read : Fields → α) (items : List Value) : List α :=
  (items.filterMap partOf?).map read

mutual

def messageDecl : List (Nat × Value) → MessageDecl
  | [] => {}
  | (1, .text s) :: rest => { messageDecl rest with name := s }
  | (2, .list items) :: rest => { messageDecl rest with fields := partsOf fieldDecl items }
  | (3, .list items) :: rest => { messageDecl rest with nested := messageDecls items }
  | (4, .list items) :: rest => { messageDecl rest with enums := partsOf enumDecl items }
  | (5, .list items) :: rest =>
    let d := messageDecl rest
    { d with rules := { d.rules with extensionRanges := partsOf extensionRange items } }
  | (6, .list items) :: rest => { messageDecl rest with extensions := partsOf fieldDecl items }
  | (7, .message options) :: rest =>
    let d := messageDecl rest
    { d with
      mapEntry := (flagAt options 7).getD false
      rules := { d.rules with settings := settingsOf options } }
  | (8, .list items) :: rest =>
    let d := messageDecl rest
    { d with
      oneofs := partsOf (fun fs => (textAt fs 1).getD "") items
      rules := { d.rules with oneofSettings := partsOf (settingsAt · 2) items } }
  | (9, .list items) :: rest =>
    let d := messageDecl rest
    { d with rules := { d.rules with reserved := partsOf openRange items } }
  | _ :: rest => messageDecl rest

def messageDecls : List Value → List MessageDecl
  | [] => []
  | .message fs :: rest => messageDecl fs :: messageDecls rest
  | _ :: rest => messageDecls rest

end

def methodDecl (fs : Fields) : MethodDecl where
  name := (textAt fs 1).getD ""
  input := (textAt fs 2).getD ""
  output := (textAt fs 3).getD ""
  clientStreaming := (flagAt fs 5).getD false
  serverStreaming := (flagAt fs 6).getD false
  settings := settingsAt fs 4

def serviceDecl (fs : Fields) : ServiceDecl where
  name := (textAt fs 1).getD ""
  methods := partsAt methodDecl fs 2
  settings := settingsAt fs 3

def fileDecl (fs : Fields) : FileDecl where
  name := (textAt fs 1).getD ""
  package := (textAt fs 2).getD ""
  dependencies := (itemsAt fs 3).filterMap textOf?
  publicDependencies := (itemsAt fs 10).filterMap wholeOf?
  weakDependencies := (itemsAt fs 11).filterMap wholeOf?
  messages := messageDecls (itemsAt fs 4)
  enums := partsAt enumDecl fs 5
  services := partsAt serviceDecl fs 6
  extensions := partsAt fieldDecl fs 7
  settings := settingsAt fs 8
  dialect := textAt fs 12

/-- The files of a descriptor set. -/
def filesOfBytes (b : Bytes) : Except WireFault (List FileDecl) :=
  (Message.ofBytes pool setType b).map fun set => partsAt fileDecl set.fields 1

/-! ## Writing -/

def putText (number : Nat) (s : String) : Fields := if s.isEmpty then [] else [(number, .text s)]

def putWhole (number : Nat) (i : Int) : Fields := if i = 0 then [] else [(number, .int i)]

def putFlag (number : Nat) (b : Bool) : Fields := if b then [(number, .bool true)] else []

def putItems (number : Nat) (items : List Value) : Fields :=
  if items.isEmpty then [] else [(number, .list items)]

/-- A part that is there even where nothing in it is set. -/
def putPart (number : Nat) (part : Option Fields) : Fields :=
  (part.map fun fs => (number, .message fs)).toList

def fieldFields (d : FieldDecl) : Fields :=
  putText 1 d.name ++ putWhole 3 d.number ++ putWhole 4 d.label.number ++
    putWhole 5 d.kind.number ++ (d.typeName.map fun s => (6, Value.text s)).toList ++
    putPart 8 (d.packed.map fun b => [(2, .bool b)]) ++
    (d.oneof.map fun i => (9, Value.int i)).toList ++
    (d.jsonName.map fun s => (10, Value.text s)).toList ++ putFlag 17 d.explicitPresence

def enumFields (d : EnumDecl) : Fields :=
  putText 1 d.name ++
    putItems 2 (d.values.map fun v => .message (putText 1 v.name ++ putWhole 2 v.number)) ++
    putPart 3 (if d.allowsAliases then some (putFlag 2 true) else none)

mutual

def messageFields : MessageDecl → Fields
  | ⟨name, fields, nested, enums, oneofs, mapEntry, _, _⟩ =>
    putText 1 name ++ putItems 2 (fields.map fun f => .message (fieldFields f)) ++
      putItems 3 (messageItems nested) ++ putItems 4 (enums.map fun e => .message (enumFields e)) ++
      putPart 7 (if mapEntry then some (putFlag 7 true) else none) ++
      putItems 8 (oneofs.map fun o => .message (putText 1 o))

def messageItems : List MessageDecl → List Value
  | [] => []
  | d :: ds => .message (messageFields d) :: messageItems ds

end

def methodFields (d : MethodDecl) : Fields :=
  putText 1 d.name ++ putText 2 d.input ++ putText 3 d.output ++ putFlag 5 d.clientStreaming ++
    putFlag 6 d.serverStreaming

def serviceFields (d : ServiceDecl) : Fields :=
  putText 1 d.name ++ putItems 2 (d.methods.map fun m => .message (methodFields m))

def fileFields (d : FileDecl) : Fields :=
  putText 1 d.name ++ putText 2 d.package ++ putItems 3 (d.dependencies.map .text) ++
    putItems 4 (messageItems d.messages) ++
    putItems 5 (d.enums.map fun e => .message (enumFields e)) ++
    putItems 6 (d.services.map fun s => .message (serviceFields s)) ++
    putItems 10 (d.publicDependencies.map .int) ++
    (d.dialect.map fun s => (12, Value.text s)).toList

/-- Files as a descriptor set. -/
def bytesOfFiles (ds : List FileDecl) : Bytes :=
  Message.toBytes pool ⟨setType, putItems 1 (ds.map fun d => .message (fileFields d))⟩

end RpcGateway.Proto.Descriptor
