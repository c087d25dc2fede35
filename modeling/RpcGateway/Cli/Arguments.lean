import RpcGateway.Cli.Palette
import RpcGateway.Text.Pieces

/-!
Command-line arguments: options with two dashes and perhaps a value, letters with one dash, and
words. After two dashes alone all arguments are words. The first argument that is out of place
decides, except that nothing counts after an option that ends the arguments.
-/
namespace RpcGateway.Cli

/-- Why arguments are refused. -/
inductive Misuse
  | missingCommand
  | unknownCommand (name : String)
  | unknownOption (name : String)
  | missingValue (option : String)
  | unexpectedValue (option value : String)
  | repeatedOption (option : String)
  | unexpectedWord (word : String)
  | missingOption (option : String)
  | missingWord (name : String)
  | invalidValue (option value : String)
  deriving DecidableEq, Repr

def Misuse.message : Misuse → String
  | missingCommand => "a command is required"
  | unknownCommand name => s!"there is no command '{name}'"
  | unknownOption name => s!"there is no option '{name}' here"
  | missingValue option => s!"option '--{option}' needs a value"
  | unexpectedValue option value => s!"option '--{option}' takes no value, but is given '{value}'"
  | repeatedOption option => s!"option '--{option}' is given more than once"
  | unexpectedWord word => s!"argument '{word}' is not expected"
  | missingOption option => s!"option '--{option}' is required"
  | missingWord name => s!"argument <{name}> is required"
  | invalidValue option value => s!"'{value}' is no value for option '--{option}'"

/-- An option of a command. -/
structure OptionDecl where
  name : String
  /-- The letter that stands for the option. -/
  letter : Option Char := none
  /-- Whether a value follows. -/
  hasValue : Bool := true
  /-- Whether the option may be given several times, each time with values between commas. -/
  many : Bool := false
  /-- Whether nothing after the option matters. -/
  ends : Bool := false
  /-- The environment variable that is used where the option is not given. -/
  fallback : Option String := none
  /-- Whether the option takes a value. -/
  accepts : String → Bool := fun _ => true
  deriving Inhabited

/-- What a command takes: options, and at most so many words. -/
structure Grammar where
  options : List OptionDecl
  words : Nat := 0
  deriving Inhabited

/-- The form of an argument. -/
inductive Argument
  | option (name : String) (value : Option String)
  | letters (cs : List Char)
  | separator
  | word (s : String)
  deriving DecidableEq, Repr

/-- The form of an argument by its dashes. A dash alone is a word. -/
def Argument.of (s : String) : Argument :=
  match s.toList with
  | ['-', '-'] => .separator
  | '-' :: '-' :: cs =>
    let name := cs.takeWhile (· ≠ '=')
    match cs.drop name.length with
    | [] => .option (String.ofList name) none
    | _ :: value => .option (String.ofList name) (some (String.ofList value))
  | '-' :: c :: cs => .letters (c :: cs)
  | _ => .word s

/-- Whether an argument is an option. -/
def Argument.isOption : Argument → Bool
  | option _ _ => true
  | letters _ => true
  | separator => false
  | word _ => false

/-- What arguments give. -/
structure Given where
  /-- Options with their values, which are empty for those that have none. -/
  values : List (String × String) := []
  words : List String := []
  /-- Whether an option has ended the arguments. -/
  ended : Bool := false
  deriving DecidableEq, Repr, Inhabited

namespace Given

def has (g : Given) (o : OptionDecl) : Bool := (g.values.lookup o.name).isSome

/-- Adds an option, which may be given once unless it is declared otherwise. -/
def add (g : Given) (o : OptionDecl) (value : String) : Except Misuse Given :=
  if !o.many && g.has o then .error (.repeatedOption o.name)
  else if !o.accepts value then .error (.invalidValue o.name value)
  else .ok { g with values := g.values ++ [(o.name, value)], ended := o.ends }

/-- Adds a word where one more is expected. -/
def addWord (k : Grammar) (g : Given) (word : String) : Except Misuse Given :=
  if g.words.length < k.words then .ok { g with words := g.words ++ [word] }
  else .error (.unexpectedWord word)

/-- Adds the options of letters, up to one that ends the arguments. -/
def addLetters (k : Grammar) (g : Given) : List Char → Except Misuse Given
  | [] => .ok g
  | c :: cs =>
    match k.options.find? fun o => o.letter == some c && !o.hasValue with
    | none => .error (.unknownOption c.toString)
    | some o => do
      let g ← g.add o ""
      if g.ended then return g else g.addLetters k cs

/-- Reads arguments one after the other. `pending` is an option that waits for its value. -/
def scan (k : Grammar) : Given → Option OptionDecl → List String → Except Misuse Given
  | g, none, [] => .ok g
  | _, some o, [] => .error (.missingValue o.name)
  | g, some o, arg :: rest =>
    match Argument.of arg with
    | .word s => do scan k (← g.add o s) none rest
    | _ => .error (.missingValue o.name)
  | g, none, arg :: rest =>
    match Argument.of arg with
    | .separator => rest.foldlM (addWord k) g
    | .word s => do scan k (← addWord k g s) none rest
    | .letters cs => do
      let g ← g.addLetters k cs
      if g.ended then return g else scan k g none rest
    | .option name value =>
      match k.options.find? (·.name == name), value with
      | none, _ => .error (.unknownOption name)
      | some o, some s =>
        if o.hasValue then do scan k (← g.add o s) none rest
        else .error (.unexpectedValue name s)
      | some o, none =>
        if o.hasValue then scan k g (some o) rest
        else do
          let g ← g.add o ""
          if g.ended then return g else scan k g none rest

/-- The value of an option: as it is given, or else from the environment. -/
def value? (g : Given) (env : Environment) (o : OptionDecl) : Option String :=
  (g.values.lookup o.name).or (o.fallback.bind fun name => env.lookup name)

/-- The values of an option that may have many. -/
def valuesOf (g : Given) (env : Environment) (o : OptionDecl) : List String :=
  let given := (g.values.filter (·.1 == o.name)).map Prod.snd
  let texts := if given.isEmpty then (o.fallback.bind fun name => env.lookup name).toList else given
  texts.flatMap (Text.pieces ',')

end Given

end RpcGateway.Cli
