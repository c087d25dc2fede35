import RpcGateway.Time.Clock

/-!
Lengths of time with a sign, written in seconds with an `s` behind them.
-/
namespace RpcGateway.Time

/-- Seconds and nanoseconds, of which both have the sign of the whole. -/
structure Span where
  seconds : Int
  nanos : Int
  deriving DecidableEq, Repr, Inhabited

namespace Span

/-- Ten thousand years in seconds. -/
def longest : Nat := 315576000000

def inRange (t : Span) : Bool := t.seconds.natAbs ≤ longest && t.nanos.natAbs < nanosPerSecond

def hasOneSign (t : Span) : Bool :=
  (0 ≤ t.seconds && 0 ≤ t.nanos) || (t.seconds ≤ 0 && t.nanos ≤ 0)

/-- A length without its sign. -/
def parseUnsigned? (s : Bytes) : Option Span := do
  let ds := s.takeWhile isDigit
  guard (!ds.isEmpty)
  let (nanos, s) ← takeFraction? (s.drop ds.length)
  guard ((← skip? 's' s).isEmpty)
  let t : Span := ⟨ofDigits ds, nanos⟩
  guard t.inRange
  return t

/-- The length that a text gives, if it is not too long. -/
def parse? (s : Bytes) : Option Span :=
  match s with
  | 0x2D :: rest => (parseUnsigned? rest).map fun t => ⟨-t.seconds, -t.nanos⟩
  | s => parseUnsigned? s

/-- The text of a length. -/
def print (t : Span) : Bytes :=
  (if t.seconds < 0 ∨ t.nanos < 0 then [ascii '-'] else []) ++ digits t.seconds.natAbs ++
    printFraction t.nanos.natAbs ++ [ascii 's']

end Span

end RpcGateway.Time
