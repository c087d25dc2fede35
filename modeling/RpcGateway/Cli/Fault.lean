import RpcGateway.Backend.Proxy
import RpcGateway.Cli.Palette
import RpcGateway.Http.Endpoint
import RpcGateway.Proto.DescriptorSet
import RpcGateway.Proto.Linking

/-!
Why a command fails, as a chain of texts from the outermost cause to the innermost.
-/
namespace RpcGateway.Cli
open Http Schema Proto Backend

inductive Fault
  | unreadable (path why : String)
  | notDescriptorSet (fault : WireFault)
  | notLoaded (error : ResolveError)
  | notResolved (error : ResolveError)
  | notLinked (error : LinkError)
  | invalidBackend (url : String)
  | notRouted (error : ProxyError)
  | notBound (endpoint : Endpoint) (why : String)
  deriving DecidableEq, Repr

/-- The texts of an error and of the error behind it. -/
def errorChain (e : ResolveError) : List String :=
  e.message :: (e.cause?.map LookupError.message).toList

/-- The outermost cause. -/
def Fault.message : Fault → String
  | unreadable path _ => s!"Failed to read '{path}'"
  | notDescriptorSet _ => "Failed to parse file descriptor set"
  | notLoaded _ => "Failed to load schema"
  | notResolved error => error.message
  | notLinked _ => "Failed to build descriptor pool"
  | invalidBackend url => s!"Invalid upstream URL '{url}'"
  | notRouted error => error.message
  | notBound endpoint _ => s!"Failed to bind {endpoint.text}"

/-- The causes behind the outermost, in order. -/
def Fault.causes : Fault → List String
  | unreadable _ why => [why]
  | notDescriptorSet fault => [fault.message]
  | notLoaded error => errorChain error
  | notResolved error => (errorChain error).drop 1
  | notLinked error => [error.message]
  | invalidBackend _ => ["the text is not a URL"]
  | notRouted _ => []
  | notBound _ why => [why]

/-- The chain as it is shown. -/
def Fault.text (p : Palette) (f : Fault) : String :=
  p.paint .alarm "Error:" ++ " " ++ f.message ++
    String.join (f.causes.map fun cause => "\n  " ++ p.paint .yellow "caused by:" ++ " " ++ cause)

end RpcGateway.Cli
