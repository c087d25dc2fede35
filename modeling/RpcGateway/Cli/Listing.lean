import RpcGateway.Cli.Palette
import RpcGateway.Schema.FieldPath

/-!
Texts that show a loaded schema: the files with their services and methods, and the fields that a
path passes.
-/
namespace RpcGateway.Cli
open Schema

/-- Lines put together without a final line feed. -/
def ofLines (lines : List String) : String := String.intercalate "\n" lines

def methodLine (p : Palette) (m : Method) : String :=
  let note := if m.isStreaming then p.paint .dimmed " (streaming, not proxied)" else ""
  "    " ++ p.paint .cyan "rpc" ++ " " ++ p.paint .yellow m.rpcName ++ "(" ++ m.requestType ++
    ") returns (" ++ m.responseType ++ ")" ++ note

def serviceLines (p : Palette) (s : Service) : List String :=
  ["  " ++ p.paint .cyan "service" ++ " " ++ p.paint .green s.fullName ++ " \x7b"] ++
    s.methods.map (methodLine p) ++ ["  \x7d"]

def fileLines (p : Palette) (f : File) : List String :=
  (p.paint .cyan "file" ++ " " ++ p.paint .bold f.name ++ " (" ++ p.paint .cyan "package" ++ " " ++
      f.package.identifier ++ ")") :: f.services.flatMap (serviceLines p)

/-- The target files that have services, with their methods. -/
def listing (p : Palette) (r : Registry) : String :=
  let files := r.targetFiles.filter fun f => !f.services.isEmpty
  if files.isEmpty then p.paint .yellow "No services found."
  else ofLines (files.flatMap (fileLines p))

/-- The type of a field, by its kind where it has no type name. -/
def typeText (f : Field) : String := if f.typeName.isEmpty then f.decl.kind.name else f.typeName

/-- A step of a path, indented by its depth. -/
def stepLine (p : Palette) (depth : Nat) (s : PathStep) : String :=
  String.join (List.replicate (depth + 1) "  ") ++ p.paint .cyan (typeText s.target) ++ " " ++
    p.paint .yellow s.name ++ " = " ++ toString s.target.decl.number

/-- A resolved path under the message that it starts from. -/
def pathText (p : Palette) (root : String) (path : FieldPath) : String :=
  if path.isEmpty then p.paint .green root ++ " (whole message)"
  else ofLines (p.paint .green root :: path.steps.mapIdx (stepLine p))

end RpcGateway.Cli
