import RpcGateway.Schema.Registry

/-!
Loading services. The types of a method are looked up from the package of its service once all files
are registered. Loading a file's services either succeeds as a whole or leaves them as they were.
-/
namespace RpcGateway.Schema

namespace Registry

/-- The absolute name of a method's input or output type. -/
def methodType (r : Registry) (package service : String) (m : MethodDecl) (role : Role) :
    Except ResolveError String :=
  let typeName := match role with
    | .input => m.input
    | .output => m.output
  match r.lookupMessage package typeName with
  | .ok message => .ok message.fullName
  | .error cause => .error (.unresolvedMethodType service m.name role typeName cause)

def resolveMethod (r : Registry) (package : String) (s : ServiceDecl) (m : MethodDecl) :
    Except ResolveError Method := do
  let request ← r.methodType package s.name m .input
  let response ← r.methodType package s.name m .output
  return ⟨s.name, serviceFullName package s.name, m, request, response⟩

def resolveService (r : Registry) (file package : String) (s : ServiceDecl) :
    Except ResolveError Service := do
  return ⟨file, package, s, ← s.methods.mapM (r.resolveMethod package s)⟩

/-- All services of a file that have methods. -/
def resolveServices (r : Registry) (d : FileDecl) : Except ResolveError (List Service) := do
  let services ← d.services.mapM (r.resolveService d.name d.package)
  return services.filter fun s => !s.methods.isEmpty

/-- Resolves and stores the services of a loaded file. -/
def loadServices (r : Registry) (path : String) : Except ResolveError Registry :=
  match r.lookupFile path with
  | .error e => .error (.lookup e)
  | .ok file => do
    let services ← r.resolveServices file.decl
    return { r with files := r.files.insert path { file with services := services } }

/-- Adds a target unless it is one already. -/
def addTarget (r : Registry) (path : String) : Registry :=
  if r.targets.contains path then r else { r with targets := r.targets ++ [path] }

/-- Loads the services of targets in turn, up to the first that fails. -/
def loadTargets (r : Registry) : List String → Registry × Except ResolveError Unit
  | [] => (r, .ok ())
  | path :: rest =>
    match r.loadServices path with
    | .error e => (r, .error e)
    | .ok r => (r.addTarget path).loadTargets rest

/-- Registers the types of all files, then loads the services of the targets. The registry is what
is left also after a failure. -/
def load (r : Registry) (files : List FileDecl) (targets : List String) :
    Registry × Except ResolveError Unit :=
  (r.loadFiles files).loadTargets targets

/-- Loads files with each of them as a target. -/
def loadAll (r : Registry) (files : List FileDecl) : Registry × Except ResolveError Unit :=
  r.load files (files.map FileDecl.name)

/-- The request message of a method. -/
def requestMessage (r : Registry) (m : Method) : Except LookupError Message :=
  r.lookupMessage "" m.requestType

/-- The response message of a method. -/
def responseMessage (r : Registry) (m : Method) : Except LookupError Message :=
  r.lookupMessage "" m.responseType

end Registry

/-! ## Histories -/

/-- What can be done to a registry. -/
inductive Operation
  | load (files : List FileDecl) (targets : List String)
  | loadAll (files : List FileDecl)
  | loadServices (path : String)
  | reserveAlias (name path : String)
  | allocateAlias (name path : String)
  | mapPackage (file path : String)
  | setPathStart (value : String)
  | setStandalone (value : Bool)
  | setUseJsonNames (value : Bool)
  | setDepth (value : Nat)

namespace Registry

/-- The registry after an operation, whether it succeeds or fails. -/
def apply (r : Registry) : Operation → Registry
  | .load files targets => (r.load files targets).1
  | .loadAll files => (r.loadAll files).1
  | .loadServices path => (r.loadServices path).toOption.getD r
  | .reserveAlias name path => (r.reserveAlias name path).toOption.getD r
  | .allocateAlias name path => (r.allocateAlias name path).2
  | .mapPackage file path => r.mapPackage file path
  | .setPathStart value => r.setPathStart value
  | .setStandalone value => r.setStandalone value
  | .setUseJsonNames value => r.setUseJsonNames value
  | .setDepth value => r.setDepth value

/-- The registry after a history of operations. -/
def after (r : Registry) (history : List Operation) : Registry := history.foldl apply r

/-- A registry that some history makes of the empty one. -/
def Reachable (r : Registry) : Prop := ∃ history, r = empty.after history

end Registry

end RpcGateway.Schema
