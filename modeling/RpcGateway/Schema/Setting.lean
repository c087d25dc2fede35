import RpcGateway.Bytes
import RpcGateway.Number.Binary

/-!
Options of declarations. Some are set already; others are written down by name and value, and have
still to be matched with the options there are.
-/
namespace RpcGateway.Schema
open Number

/-- One step of an option's name: an option, or an extension that is one. -/
structure SettingPart where
  name : String := ""
  isExtension : Bool := false
  deriving DecidableEq, Repr, Inhabited

/-- An option as it is written down: its name and a value of one of several kinds. -/
structure Setting where
  path : List SettingPart := []
  identifier : Option String := none
  natural : Option Nat := none
  negative : Option Int := none
  real : Option Double := none
  text : Option Bytes := none
  deriving DecidableEq, Repr, Inhabited

/-- The options of one declaration. -/
structure Settings where
  /-- The numbers of the options that are set already. -/
  assigned : List Nat := []
  written : List Setting := []
  deriving DecidableEq, Repr, Inhabited

/-- Whether an option of this name is switched on in writing. -/
def Settings.switchesOn (s : Settings) (name : String) : Bool :=
  s.written.any fun w => w.path == [⟨name, false⟩] && w.identifier == some "true"

end RpcGateway.Schema
