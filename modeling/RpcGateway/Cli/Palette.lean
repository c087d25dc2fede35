/-!
Colours of terminal output. Text in a colour that is switched off is plain text.
-/
namespace RpcGateway.Cli

/-- Variables of the environment with their values. -/
abbrev Environment := List (String × String)

inductive Style
  | cyan
  | green
  | yellow
  | bold
  | dimmed
  /-- Red and bold. -/
  | alarm
  deriving DecidableEq, Repr

def Style.code : Style → String
  | cyan => "36" | green => "32" | yellow => "33" | bold => "1" | dimmed => "2" | alarm => "1;31"

/-- Whether text is coloured. -/
structure Palette where
  colored : Bool
  deriving DecidableEq, Repr

namespace Palette

def forceVariable : String := "CLICOLOR_FORCE"
def refuseVariable : String := "NO_COLOR"
def wishVariable : String := "CLICOLOR"

/-- A variable that is set to anything but zero. -/
def isOn (env : Environment) (name : String) : Option Bool :=
  (env.lookup name).map (· ≠ "0")

/-- Colours may be forced; else they may be refused, and else they go to terminals only. -/
def ofEnvironment (env : Environment) (terminal : Bool) : Palette where
  colored :=
    isOn env forceVariable == some true ||
      ((env.lookup refuseVariable).isNone && terminal && (isOn env wishVariable).getD true)

/-- The sequence that ends a style. -/
def reset : String := "\x1b[0m"

/-- Text in a style. Where the text itself ends a style, this one begins again. -/
def paint (p : Palette) (style : Style) (s : String) : String :=
  if p.colored then
    let start := "\x1b[" ++ style.code ++ "m"
    start ++ s.replace reset (reset ++ start) ++ reset
  else s

end Palette

end RpcGateway.Cli
