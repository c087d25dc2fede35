import RpcGateway.Text.Quoted

/-!
Why a look-up, a resolution or the reservation of an alias fails.
-/
namespace RpcGateway.Schema

inductive LookupError
  | messageNotFound (name : String)
  | enumNotFound (name : String)
  | fileNotFound (path : String)
  deriving DecidableEq, Repr

def LookupError.message : LookupError → String
  | messageNotFound name => s!"no message found: {name}"
  | enumNotFound name => s!"no enum found: {name}"
  | fileNotFound path => s!"no such file given: {path}"

/-- An alias that another package holds. -/
structure AliasConflict where
  wanted : String
  /-- The package path that holds it. -/
  holder : String
  deriving DecidableEq, Repr

def AliasConflict.message (c : AliasConflict) : String :=
  s!"package name {c.wanted} is already taken by '{c.holder}'. Use another alias"

/-- The two types of a method. -/
inductive Role
  | input
  | output
  deriving DecidableEq, Repr

def Role.name : Role → String
  | input => "input"
  | output => "output"

inductive ResolveError
  | lookup (error : LookupError)
  | unresolvedMethodType (service method : String) (role : Role) (typeName : String)
      (cause : LookupError)
  | fieldNotFound (path root : String)
  | notAnAggregate (field path : String)
  | optionalNotAllowedInPath (field path : String)
  | invalidPathParameterType (method path : String)
  | emptyFieldPath (path : String)
  deriving DecidableEq, Repr

namespace ResolveError

def message : ResolveError → String
  | lookup error => error.message
  | unresolvedMethodType service method role typeName _ =>
    s!"{service}.{method}: unresolved {role.name} type '{typeName}'"
  | fieldNotFound path root => s!"no field {Text.quoted path} found in {root}"
  | notAnAggregate field path => s!"not an aggregate type: {field} in {path}"
  | optionalNotAllowedInPath field path =>
    s!"optional field not allowed in field path: {field} in {path}"
  | invalidPathParameterType method path =>
    s!"{method}: {path} is a protobuf message type. Protobuf message types cannot be used as " ++
      "path parameters, use a scalar value type (such as string) instead"
  | emptyFieldPath path => s!"invalid field access list for {path}"

/-- The error behind this one, if there is one. -/
def cause? : ResolveError → Option LookupError
  | unresolvedMethodType _ _ _ _ cause => some cause
  | _ => none

end ResolveError

end RpcGateway.Schema
