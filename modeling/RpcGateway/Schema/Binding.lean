import RpcGateway.Schema.FieldPath
import RpcGateway.Schema.WellKnown

/-!
How the parts of a method's messages are bound: path parameters to scalar fields, bodies to nothing,
to the whole message or to a field.
-/
namespace RpcGateway.Schema

/-- A path parameter, bound to the field at the end of its path. -/
structure Parameter where
  path : FieldPath
  method : String
  target : Field
  deriving DecidableEq, Repr, Inhabited

/-- The part of a message that a payload stands for. -/
inductive Body
  | none
  | wholeMessage
  | field (path : FieldPath)
  deriving DecidableEq, Repr, Inhabited

/-- The path of a body. The whole message has an empty one, no body has none. -/
def Body.path? : Body → Option FieldPath
  | none => Option.none
  | wholeMessage => some {}
  | field path => some path

/-- The expressions that bind a method. -/
structure BindingRule where
  parameters : List String := []
  body : String := ""
  responseBody : String := ""
  deriving DecidableEq, Repr, Inhabited

structure Binding where
  method : String
  parameters : List Parameter
  body : Body
  responseBody : Body
  deriving DecidableEq, Repr, Inhabited

namespace Registry

/-- The message that a method's path starts from. -/
def rootOf (found : Except LookupError Message) : Except ResolveError Message :=
  match found with
  | .ok message => .ok message
  | .error e => .error (.lookup e)

/-- Binds a path parameter. Its field is a scalar or of a well-known type. -/
def bindParameter (r : Registry) (m : Method) (path : String) : Except ResolveError Parameter := do
  let root ← rootOf (r.requestMessage m)
  let resolved ← r.resolvePath root path true
  match resolved.terminal? with
  | none => throw (.emptyFieldPath path)
  | some target =>
    if target.isAggregate && !isWellKnown target.typeName then
      throw (.invalidPathParameterType m.rpcName path)
    else return ⟨resolved, m.rpcName, target⟩

/-- Reads the expression of a body: nothing, an asterisk for the whole message, or a path. -/
def bindWithin (r : Registry) (root : Message) (path : String) : Except ResolveError Body :=
  if path = "" then .ok .none
  else if path = "*" then .ok .wholeMessage
  else do return .field (← r.resolvePath root path false)

def bindBody (r : Registry) (m : Method) (path : String) : Except ResolveError Body := do
  r.bindWithin (← rootOf (r.requestMessage m)) path

def bindResponse (r : Registry) (m : Method) (path : String) : Except ResolveError Body := do
  r.bindWithin (← rootOf (r.responseMessage m)) path

/-- Binds the expressions of a rule: the parameters, the body, then the response. -/
def bind (r : Registry) (m : Method) (rule : BindingRule) : Except ResolveError Binding := do
  let parameters ← rule.parameters.mapM (r.bindParameter m)
  let body ← r.bindBody m rule.body
  let responseBody ← r.bindResponse m rule.responseBody
  return ⟨m.rpcName, parameters, body, responseBody⟩

end Registry

end RpcGateway.Schema
