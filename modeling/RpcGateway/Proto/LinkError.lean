/-!
Why declared files do not make a pool.
-/
namespace RpcGateway.Proto

inductive LinkError
  | duplicateFile (name : String)
  | missingImport (file dependency : String)
  | badImportPosition (file : String) (position : Int)
  | unknownDialect (file dialect : String)
  | duplicateName (name : String)
  | unresolvedName (name scope : String)
  | missingType (field : String)
  | badFieldNumber (field : String) (number : Int)
  | duplicateFieldNumber (message : String) (number : Int)
  | reservedFieldNumber (message : String) (number : Int)
  | notAnExtensionNumber (message : String) (number : Int)
  | duplicateJsonName (message name : String)
  | missingOneof (field : String)
  | badDefault (field text : String)
  | emptyEnum (name : String)
  | firstValueNotZero (name : String)
  | duplicateEnumNumber (name : String) (number : Int)
  | reservedEnumNumber (name : String) (number : Int)
  | unknownOption (type path : String)
  | duplicateOption (type path : String)
  | badOptionValue (type path : String)
  deriving DecidableEq, Repr

def LinkError.message : LinkError → String
  | duplicateFile name => s!"file '{name}' is given twice"
  | missingImport file dependency => s!"'{file}' imports '{dependency}', which is not given"
  | badImportPosition file position => s!"'{file}' has no import at position {position}"
  | unknownDialect file dialect => s!"'{file}' is written in the unknown dialect '{dialect}'"
  | duplicateName name => s!"name '{name}' is defined twice"
  | unresolvedName name scope => s!"name '{name}' is not found in '{scope}'"
  | missingType field => s!"field '{field}' has no type name"
  | badFieldNumber field number => s!"field '{field}' has the invalid number {number}"
  | duplicateFieldNumber message number => s!"two fields of '{message}' have the number {number}"
  | reservedFieldNumber message number => s!"'{message}' keeps the number {number} from fields"
  | notAnExtensionNumber message number => s!"'{message}' has no extension number {number}"
  | duplicateJsonName message name => s!"two fields of '{message}' have the JSON name '{name}'"
  | missingOneof field => s!"field '{field}' belongs to a oneof that is not declared"
  | badDefault field text => s!"'{text}' is no value of field '{field}'"
  | emptyEnum name => s!"enum '{name}' has no values"
  | firstValueNotZero name => s!"the first value of enum '{name}' is not zero"
  | duplicateEnumNumber name number => s!"two values of enum '{name}' have the number {number}"
  | reservedEnumNumber name number => s!"enum '{name}' keeps the number {number} from values"
  | unknownOption type path => s!"'{type}' has no option '{path}'"
  | duplicateOption type path => s!"option '{path}' of '{type}' is set twice"
  | badOptionValue type path => s!"option '{path}' of '{type}' does not have this value"

/-- The first element that stands again later. -/
def firstRepeated? {α : Type} [BEq α] : List α → Option α
  | [] => none
  | x :: xs => if xs.contains x then some x else firstRepeated? xs

/-- Refuses a repetition. -/
def distinct {α : Type} [BEq α] (error : α → LinkError) (xs : List α) : Except LinkError Unit :=
  match firstRepeated? xs with
  | some x => .error (error x)
  | none => .ok ()

end RpcGateway.Proto
