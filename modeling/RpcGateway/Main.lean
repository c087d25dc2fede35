import RpcGateway.Cli.Run
import RpcGateway.Http.Exchange
import Std.Async.Signal
import Std.Async.TCP

/-!
The program: reads arguments, environment and the descriptor set, prints what a command comes to,
and serves connections until it is interrupted.
-/
namespace RpcGateway.Program
open Cli Http Std.Async

/-- Texts for numbers of errors of the operating system. -/
def osErrors : List (UInt32 × String) :=
  [(1, "Operation not permitted"), (2, "No such file or directory"), (5, "Input/output error"),
    (13, "Permission denied"), (20, "Not a directory"), (21, "Is a directory"),
    (36, "File name too long"), (40, "Too many levels of symbolic links"),
    (98, "Address already in use"), (99, "Cannot assign requested address")]

/-- The number of an error, if the operating system gave it. -/
def osNumber? : IO.Error → Option UInt32
  | .alreadyExists _ n _ => some n
  | .otherError n _ => some n
  | .resourceBusy n _ => some n
  | .resourceVanished n _ => some n
  | .unsupportedOperation n _ => some n
  | .hardwareFault n _ => some n
  | .unsatisfiedConstraints n _ => some n
  | .illegalOperation n _ => some n
  | .protocolError n _ => some n
  | .timeExpired n _ => some n
  | .interrupted _ n _ => some n
  | .noFileOrDirectory _ n _ => some n
  | .invalidArgument _ n _ => some n
  | .permissionDenied _ n _ => some n
  | .resourceExhausted _ n _ => some n
  | .inappropriateType _ n _ => some n
  | .noSuchThing _ n _ => some n
  | .unexpectedEof => none
  | .userError _ => none

/-- The text of an error. Numbers of the operating system may come negated. -/
def errorText (e : IO.Error) : String :=
  match osNumber? e with
  | none => e.toString
  | some n =>
    let n := if n < 0x80000000 then n else 0 - n
    match osErrors.lookup n with
    | some text => s!"{text} (os error {n})"
    | none => e.toString

/-- The variables that the program looks at. -/
def consulted : List String :=
  Options.fallbacks ++ [Palette.forceVariable, Palette.refuseVariable, Palette.wishVariable]

def environment : IO Environment :=
  consulted.filterMapM fun name => do return (← IO.getEnv name).map (name, ·)

def readContent (path : String) : IO FileContent := do
  try return .ok (← IO.FS.readBinFile path).data.toList
  catch e => return .error (errorText e)

def print (r : Report) : IO UInt32 := do
  IO.print r.output
  IO.eprint r.errors
  return r.status.toUInt32

def socketAddress (e : Endpoint) : Std.Net.SocketAddress :=
  let socket := e.socket.toUInt16
  match e.host with
  | .octets a b c d => .v4 ⟨.ofParts a.toUInt8 b.toUInt8 c.toUInt8 d.toUInt8, socket⟩
  | .groups values _ =>
    let group (i : Nat) : UInt16 := (values.getD i 0).toUInt16
    .v6 ⟨.ofParts (group 0) (group 1) (group 2) (group 3) (group 4) (group 5) (group 6) (group 7),
      socket⟩

/-- Reads one request and answers it. -/
partial def exchange (mux : Mux) (client : TCP.Socket.Client) (seen : Bytes) : Async Unit := do
  let answer (r : Response) : Async Unit := do
    client.send ⟨r.toBytes.toArray⟩
    client.shutdown
  match Arrival.of mux.options.maxBodyBytes seen with
  | .malformed => answer .malformed
  | .complete request => answer (mux.serve request)
  | .incomplete =>
    match ← client.recv? 65536 with
    | none => client.shutdown
    | some more => exchange mux client (seen ++ more.data.toList)

/-- Accepts connections until the program is interrupted. -/
partial def accept (mux : Mux) (server : TCP.Socket.Server) (interrupted : Signal.Waiter) :
    Async Unit := do
  let next ← Selectable.one #[
    .case server.acceptSelector fun client => return some client,
    .case interrupted.selector fun _ => return none]
  match next with
  | none => IO.eprintln "shutting down"
  | some client =>
    background (try exchange mux client [] catch _ => pure ())
    accept mux server interrupted

def serve (p : Palette) (endpoint : Endpoint) (service : Service) : IO UInt32 := do
  let server ← TCP.Socket.Server.mk
  let bound ← try
      server.bind (socketAddress endpoint)
      server.listen 1024
      pure none
    catch e => pure (some (errorText e))
  match bound with
  | some why => print (.ofFault p (.notBound endpoint why))
  | none =>
    let interrupted ← Signal.Waiter.mk .sigint false
    IO.eprintln s!"serving JSON-RPC at {endpoint.text}, methods: {service.methods}"
    (accept service.mux server interrupted).block
    return 0

/-- Runs the program with its arguments. -/
def run (args : List String) : IO UInt32 := do
  let env ← environment
  let p := Palette.ofEnvironment env (← (← IO.getStdout).isTty)
  match Invocation.parse env args with
  | .error m => print (.ofMisuse m)
  | .ok .version => print .version
  | .ok .help => print .help
  | .ok (.run command) =>
    let content ← readContent command.source.path
    match command.outcome p (.unreachable "no connection to the backend") content with
    | .shown text => print (.ofText text)
    | .failed fault => print (.ofFault p fault)
    | .serving endpoint service => serve p endpoint service

end RpcGateway.Program

def main (args : List String) : IO UInt32 := RpcGateway.Program.run args
