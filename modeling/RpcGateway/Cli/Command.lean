import RpcGateway.Cli.Arguments
import RpcGateway.Envelope.Codec
import RpcGateway.Http.Endpoint

/-!
The commands: serving a schema, listing what it holds, and resolving a path in it. Each option may
also be given by a variable of the environment.
-/
namespace RpcGateway.Cli
open Http

/-- Where the schema is read from, and whose services are loaded. -/
structure SchemaSource where
  /-- The file that holds the descriptor set. -/
  path : String
  /-- The files whose services are loaded, all of them where none is named. -/
  targets : List String
  deriving DecidableEq, Repr, Inhabited

structure ServeSettings where
  source : SchemaSource
  /-- The URL of the server that calls are forwarded to. -/
  backend : String
  listen : Endpoint
  maxBodyBytes : Nat
  /-- In seconds. -/
  timeout : Option Nat
  deriving DecidableEq, Repr, Inhabited

inductive Command
  | serve (settings : ServeSettings)
  | inspect (source : SchemaSource)
  | resolve (source : SchemaSource) (message path : String) (asParameter : Bool)
  deriving DecidableEq, Repr, Inhabited

/-- Where a command reads its schema from. -/
def Command.source : Command → SchemaSource
  | serve settings => settings.source
  | inspect source => source
  | resolve source _ _ _ => source

/-- What the arguments ask for. -/
inductive Invocation
  | version
  | help
  | run (command : Command)
  deriving DecidableEq, Repr, Inhabited

/-! ## Options -/

/-- A number of 64 bits. -/
def word64? (s : String) : Option Nat := (Number.natural? (utf8 s)).filter (· < Number.words64)

/-- A file name, which is not empty. -/
def fileName? (s : String) : Option String := if s.isEmpty then none else some s

namespace Options

def verbose : OptionDecl := { name := "verbose", letter := some 'v', hasValue := false }
def help : OptionDecl := { name := "help", letter := some 'h', hasValue := false, ends := true }
def version : OptionDecl :=
  { name := "version", letter := some 'V', hasValue := false, ends := true }

def descriptorSet : OptionDecl :=
  { name := "descriptor-set", fallback := some "RPCBRIDGE_DESCRIPTOR_SET",
    accepts := fun s => (fileName? s).isSome }

def generate : OptionDecl :=
  { name := "generate", many := true, fallback := some "RPCBRIDGE_GENERATE" }

def message : OptionDecl := { name := "message" }
def pathParam : OptionDecl := { name := "path-param", hasValue := false }
def backend : OptionDecl := { name := "upstream", fallback := some "RPCBRIDGE_UPSTREAM" }

def listen : OptionDecl :=
  { name := "listen", fallback := some "RPCBRIDGE_LISTEN",
    accepts := fun s => (Endpoint.parse? s).isSome }

def maxBodyBytes : OptionDecl :=
  { name := "max-body-bytes", fallback := some "RPCBRIDGE_MAX_BODY_BYTES",
    accepts := fun s => (word64? s).isSome }

def timeout : OptionDecl :=
  { name := "timeout", fallback := some "RPCBRIDGE_TIMEOUT",
    accepts := fun s => (word64? s).isSome }

/-- Options before the command. -/
def leading : Grammar := { options := [verbose, help, version] }

/-- Options of every command. -/
def shared : List OptionDecl := [verbose, help, descriptorSet, generate]

def ofInspect : Grammar := { options := shared }
def ofResolve : Grammar := { options := shared ++ [message, pathParam], words := 1 }
def ofServe : Grammar := { options := shared ++ [backend, listen, maxBodyBytes, timeout] }

/-- The variables that stand for options. -/
def fallbacks : List String :=
  (ofResolve.options ++ ofServe.options).filterMap OptionDecl.fallback

end Options

/-! ## Reading commands -/

namespace Given

/-- The value of an option that has to be there. -/
def required (g : Given) (env : Environment) (o : OptionDecl) : Except Misuse String :=
  match g.value? env o with
  | some s => .ok s
  | none => .error (.missingOption o.name)

/-- The value of an option, if it is there, as something that texts denote. -/
def parsed? {α : Type} (g : Given) (env : Environment) (o : OptionDecl) (read : String → Option α) :
    Except Misuse (Option α) :=
  match g.value? env o with
  | none => .ok none
  | some s =>
    match read s with
    | some a => .ok (some a)
    | none => .error (.invalidValue o.name s)

end Given

def defaultListen : Endpoint := ⟨.octets 127 0 0 1, 8080⟩

def SchemaSource.ofGiven (env : Environment) (g : Given) : Except Misuse SchemaSource := do
  match ← g.parsed? env Options.descriptorSet fileName? with
  | some path => return ⟨path, g.valuesOf env Options.generate⟩
  | none => throw (.missingOption Options.descriptorSet.name)

def inspectOfGiven (env : Environment) (g : Given) : Except Misuse Command :=
  return .inspect (← SchemaSource.ofGiven env g)

def resolveOfGiven (env : Environment) (g : Given) : Except Misuse Command := do
  let source ← SchemaSource.ofGiven env g
  let message ← g.required env Options.message
  match g.words with
  | [] => throw (.missingWord "PATH")
  | path :: _ => return .resolve source message path (g.has Options.pathParam)

def serveOfGiven (env : Environment) (g : Given) : Except Misuse Command := do
  return .serve
    { source := ← SchemaSource.ofGiven env g
      backend := ← g.required env Options.backend
      listen := (← g.parsed? env Options.listen Endpoint.parse?).getD defaultListen
      maxBodyBytes := (← g.parsed? env Options.maxBodyBytes word64?).getD defaultMaxBodyBytes
      timeout := ← g.parsed? env Options.timeout word64? }

/-- Reads the arguments of a command, unless help is asked for. -/
def Invocation.ofCommand (env : Environment) (k : Grammar)
    (read : Environment → Given → Except Misuse Command) (args : List String) :
    Except Misuse Invocation := do
  let g ← Given.scan k {} none args
  if g.has Options.help then return .help else return .run (← read env g)

/-- What help can be asked about. -/
def commands : List String := ["serve", "inspect", "resolve", "help"]

/-- Reads all arguments: options, the command, and what belongs to it. -/
def Invocation.parse (env : Environment) (args : List String) : Except Misuse Invocation := do
  let front := args.takeWhile fun a => (Argument.of a).isOption
  let g ← Given.scan Options.leading {} none front
  if g.has Options.version then return .version
  if g.has Options.help then return .help
  match args.drop front.length with
  | [] => throw .missingCommand
  | "serve" :: rest => Invocation.ofCommand env Options.ofServe serveOfGiven rest
  | "inspect" :: rest => Invocation.ofCommand env Options.ofInspect inspectOfGiven rest
  | "resolve" :: rest => Invocation.ofCommand env Options.ofResolve resolveOfGiven rest
  | ["help"] => return .help
  | ["help", name] => if commands.contains name then return .help else throw (.unknownCommand name)
  | name :: _ => throw (.unknownCommand name)

end RpcGateway.Cli
