import RpcGateway.Table
import RpcGateway.Text.Pieces

/-!
Names looked up relative to a scope. The innermost scope comes first, then one component less at a
time down to the root; a name with a leading dot is absolute.
-/
namespace RpcGateway.Schema
open Text

/-- Whether a name is absolute. -/
def isAbsolute (name : String) : Bool := name.toList.head? == some '.'

/-- A scope in absolute form. -/
def absoluteScope (location : String) : String :=
  if isAbsolute location then location else "." ++ location

/-- All beginnings of a list but the empty one, the longest first. -/
def beginnings {α : Type} (cs : List α) : List (List α) :=
  (List.range cs.length).map fun i => cs.take (cs.length - i)

/-- Components with dots between them. -/
def dotted (components : List (List Char)) : String := String.ofList (joinPieces '.' components)

/-- The scopes from an absolute location outwards, the root as the empty text at the end. -/
def scopes (location : String) : List String :=
  (beginnings (piecesOf '.' (absoluteScope location).toList)).map dotted

/-- The absolute names that a name may stand for, in the order of preference. -/
def candidates (location name : String) : List String :=
  if isAbsolute name then [name] else (scopes location).map fun scope => scope ++ "." ++ name

/-- The entry of the first candidate that the table holds. -/
def resolve {α : Type} (table : Table α) (location name : String) : Option α :=
  (candidates location name).findSome? table.get?

end RpcGateway.Schema
