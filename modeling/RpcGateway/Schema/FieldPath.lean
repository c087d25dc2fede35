import RpcGateway.Schema.Services

/-!
Dotted paths from a message down to a field. Each step but the last has to be a message or a group,
whose type is looked up from the message that holds it. The first step that fails gives the error.
-/
namespace RpcGateway.Schema

structure PathStep where
  name : String
  target : Field
  deriving DecidableEq, Repr, Inhabited

/-- The fields that a path passes, in order. -/
structure FieldPath where
  steps : List PathStep := []
  deriving DecidableEq, Repr, Inhabited

namespace FieldPath

def isEmpty (p : FieldPath) : Bool := p.steps.isEmpty

def length (p : FieldPath) : Nat := p.steps.length

/-- Whether the path passes a nested message. -/
def isNested (p : FieldPath) : Bool := 1 < p.length

/-- The field that the path ends at. -/
def terminal? (p : FieldPath) : Option Field := p.steps.getLast?.map PathStep.target

/-- The names of the steps with dots between them. -/
def text (p : FieldPath) : String := dotted (p.steps.map fun s => s.name.toList)

end FieldPath

namespace Registry

/-- The message of the next step: where the path stands, or the type of the step before. -/
def enter (r : Registry) (path : String) (message : Message) (previous : Option Field) :
    Except ResolveError Message :=
  match previous with
  | none => .ok message
  | some hop =>
    if hop.isAggregate then
      match r.lookupMessage message.fullName hop.typeName with
      | .ok next => .ok next
      | .error e => .error (.lookup e)
    else .error (.notAnAggregate hop.name path)

/-- The field of a step in a message. -/
def stepField (root : Message) (path : String) (asParameter : Bool) (message : Message)
    (name : String) : Except ResolveError Field :=
  match message.field? name with
  | none => .error (.fieldNotFound path root.name)
  | some f =>
    if asParameter && f.isOptional then .error (.optionalNotAllowedInPath f.name path) else .ok f

/-- The steps for the remaining names of a path. -/
def followPath (r : Registry) (root : Message) (path : String) (asParameter : Bool) :
    Message → Option Field → List String → Except ResolveError (List PathStep)
  | _, _, [] => .ok []
  | message, previous, name :: rest => do
    let message ← r.enter path message previous
    let field ← stepField root path asParameter message name
    let steps ← r.followPath root path asParameter message (some field) rest
    return ⟨name, field⟩ :: steps

/-- Resolves a path from a message. Optional fields are refused in path parameters. -/
def resolvePath (r : Registry) (root : Message) (path : String) (asParameter : Bool) :
    Except ResolveError FieldPath :=
  if path.isEmpty then .ok {}
  else do return ⟨← r.followPath root path asParameter root none (Text.pieces '.' path)⟩

end Registry

end RpcGateway.Schema
