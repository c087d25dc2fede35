import RpcGateway.Number.Binary

/-!
The shortest decimal that reads back as a given binary number. The decimals that read back form an
interval around the number. On each decimal grid, from coarse to fine, only the number's two
neighbours have to be tested; the first grid with a hit wins, and of two hits the nearer.
-/
namespace RpcGateway.Number

/-- A positive number `4 * unit * scale / divisor` with the ends of the interval that rounds to it,
all on the scale of a quarter of the last place. -/
structure Rounding where
  low : Nat
  value : Nat
  high : Nat
  divisor : Nat
  closed : Bool

namespace Rounding

/-- The interval of a significand and an exponent. It is closed when the significand is even, and
narrower below a power of two. -/
def ofParts (f : Format) (m : Nat) (q : Int) : Rounding :=
  let below := if m = f.leading ∧ f.minExponent < q then 1 else 2
  let (unit, divisor) := Format.scaled 1 1 (2 - q)
  ⟨(4 * m - below) * unit, 4 * m * unit, (4 * m + 2) * unit, divisor, m % 2 = 0⟩

/-- Whether `n` steps of a grid lie in the interval, the number and grid scaled alike. -/
def holds (r : Rounding) (gridUp gridDown n : Nat) : Bool :=
  let x := n * gridUp * r.divisor
  if r.closed then r.low * gridDown ≤ x && x ≤ r.high * gridDown
  else r.low * gridDown < x && x < r.high * gridDown

/-- The nearer of the number's two neighbours on the grid of `10 ^ k` that reads back. -/
def onGrid (r : Rounding) (k : Int) : Option Nat :=
  let gridUp := tenTo k.toNat
  let gridDown := tenTo (-k).toNat
  let n := r.value * gridDown / (gridUp * r.divisor)
  let rest := r.value * gridDown % (gridUp * r.divisor)
  match r.holds gridUp gridDown n, r.holds gridUp gridDown (n + 1) with
  | true, true =>
    let half := gridUp * r.divisor
    some (if 2 * rest < half ∨ (2 * rest = half ∧ n % 2 = 0) then n else n + 1)
  | true, false => some n
  | false, true => some (n + 1)
  | false, false => none

/-- The first hit on grids from `10 ^ k` downwards. -/
def search (r : Rounding) : Nat → Int → Nat × Int
  | 0, k => (0, k)
  | fuel + 1, k =>
    match r.onGrid k with
    | some n => (n, k)
    | none => r.search fuel (k - 1)

end Rounding

/-- Digits and exponent of the shortest decimal for a positive significand at an exponent. -/
def shortest (f : Format) (m : Nat) (q : Int) : Nat × Int :=
  let start : Int := (m.log2 + q + 1) * 30103 / 100000 + 2
  (Rounding.ofParts f m q).search 24 start

end RpcGateway.Number
