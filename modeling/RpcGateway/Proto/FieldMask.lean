import RpcGateway.Text.Pieces

/-!
Paths of fields as text. In messages the words of a name stand apart by underscores, in JSON by
capitals; commas divide the paths.
-/
namespace RpcGateway.Proto.FieldMask
open Text

/-- A path with an underscore and a small letter for each capital, unless it has underscores. -/
def toSnake? : List Char → Option (List Char)
  | [] => some []
  | c :: cs =>
    if c = '_' then none
    else if c.isUpper then (toSnake? cs).map fun r => '_' :: c.toLower :: r
    else (toSnake? cs).map (c :: ·)

/-- A path with a capital for each underscore and the letter behind it. Other underscores and
capitals could not be told apart in the result and are refused. -/
def toCamel? : List Char → Option (List Char)
  | [] => some []
  | ['_'] => none
  | '_' :: c :: cs => if c.isLower then (toCamel? cs).map (c.toUpper :: ·) else none
  | c :: cs => if c.isUpper then none else (toCamel? cs).map (c :: ·)

/-- The paths of a text. -/
def parse? (s : String) : Option (List String) :=
  ((piecesOf ',' s.toList).filter (!·.isEmpty)).mapM fun cs => (toSnake? cs).map String.ofList

/-- The text of paths. -/
def print? (paths : List String) : Option String :=
  (paths.mapM fun path => toCamel? path.toList).map fun texts =>
    String.ofList (joinPieces ',' texts)

end RpcGateway.Proto.FieldMask
