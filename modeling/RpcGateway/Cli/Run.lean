import RpcGateway.Cli.Command
import RpcGateway.Cli.Fault
import RpcGateway.Cli.Listing

/-!
What commands do with a schema. Listing and resolving end in a text; serving ends in a routing
table, whose methods are counted.
-/
namespace RpcGateway.Cli
open Http Rpc Schema Proto Backend

/-- What a program leaves: its exit status and its output. -/
structure Report where
  status : Nat := 0
  output : String := ""
  errors : String := ""
  deriving DecidableEq, Repr, Inhabited

/-- A text set off by empty lines. -/
def setOff (s : String) : String := "\n" ++ s ++ "\n\n"

def programName : String := "rpcbridge"
def programVersion : String := "0.1.0"

namespace Report

def ofText (s : String) : Report := { output := setOff s }

def ofFault (p : Palette) (f : Fault) : Report := { status := 1, errors := setOff (f.text p) }

/-- Arguments that are refused have an exit status of their own. -/
def ofMisuse (m : Misuse) : Report := { status := 2, errors := s!"error: {m.message}\n" }

def version : Report := { output := s!"{programName} {programVersion}\n" }

def usage : String :=
  ofLines
    [s!"Usage: {programName} [-v] serve --descriptor-set FILE --upstream URL [OPTION]...",
      s!"       {programName} [-v] inspect --descriptor-set FILE [--generate FILE]...",
      s!"       {programName} [-v] resolve --descriptor-set FILE --message NAME " ++
        "[--path-param] PATH"]

def help : Report := { output := usage ++ "\n" }

end Report

/-- What reading a file comes to: its bytes, or why it cannot be read. -/
abbrev FileContent := Except String Bytes

/-- The declared files of a descriptor set that is read. -/
def readFiles (source : SchemaSource) (content : FileContent) : Except Fault (List FileDecl) := do
  let bytes ← content.mapError (.unreadable source.path)
  (Descriptor.filesOfBytes bytes).mapError .notDescriptorSet

/-- A registry of the files. All are targets where none is named. -/
def loadRegistry (files : List FileDecl) (targets : List String) : Except Fault Registry := do
  let targets := if targets.isEmpty then files.map FileDecl.name else targets
  let (registry, loaded) := Registry.empty.load files targets
  loaded.mapError .notLoaded
  return registry

/-- A listing of the target files. -/
def inspection (p : Palette) (source : SchemaSource) (content : FileContent) :
    Except Fault String := do
  let files ← readFiles source content
  return listing p (← loadRegistry files source.targets)

/-- Resolves a path from a message. The services of all files are loaded. -/
def resolution (p : Palette) (source : SchemaSource) (message path : String) (asParameter : Bool)
    (content : FileContent) : Except Fault String := do
  let files ← readFiles source content
  let registry ← loadRegistry files []
  let root ← (registry.lookupMessage "" message).mapError fun e => .notResolved (.lookup e)
  let resolved ← (registry.resolvePath root path asParameter).mapError .notResolved
  return pathText p root.fullName resolved

/-- What is served: the routing table, and how many methods were routed. -/
structure Service where
  mux : Mux
  methods : Nat

/-- Routes all unary methods of a schema to a backend. -/
def prepare (b : Backend) (settings : ServeSettings) (content : FileContent) :
    Except Fault Service := do
  let files ← readFiles settings.source content
  let registry ← loadRegistry files settings.source.targets
  let pool ← (Pool.link files).mapError .notLinked
  if (Uri.parse? (utf8 settings.backend)).isNone then throw (.invalidBackend settings.backend)
  let options : Mux.Options :=
    { maxBodyBytes := settings.maxBodyBytes
      timeout := settings.timeout.map Duration.ofSeconds
      pool := some pool }
  let (mux, count) ← (b.registerAll pool { options := options } registry).mapError .notRouted
  return ⟨mux, count⟩

/-- What a command comes to. -/
inductive Outcome
  | shown (text : String)
  | failed (fault : Fault)
  | serving (endpoint : Endpoint) (service : Service)

def Outcome.ofText (result : Except Fault String) : Outcome :=
  match result with
  | .ok text => .shown text
  | .error fault => .failed fault

/-- Carries a command out on the content of its descriptor set. Served calls go to the backend. -/
def Command.outcome (p : Palette) (b : Backend) (content : FileContent) : Command → Outcome
  | .inspect source => .ofText (inspection p source content)
  | .resolve source message path asParameter =>
    .ofText (resolution p source message path asParameter content)
  | .serve settings =>
    match prepare b settings content with
    | .ok service => .serving settings.listen service
    | .error fault => .failed fault

end RpcGateway.Cli
