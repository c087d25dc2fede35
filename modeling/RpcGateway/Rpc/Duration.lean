import RpcGateway.Bytes

/-!
Spans of time in nanoseconds, and the time limits that callers send in a header: up to eight digits
and a unit.
-/
namespace RpcGateway.Rpc

structure Duration where
  nanos : Nat
  deriving DecidableEq, Repr, Inhabited

namespace Duration

def ofNanos (n : Nat) : Duration := ⟨n⟩
def ofMicros (n : Nat) : Duration := ⟨n * 1000⟩
def ofMillis (n : Nat) : Duration := ⟨n * 1000000⟩
def ofSeconds (n : Nat) : Duration := ⟨n * 1000000000⟩

def zero : Duration := ⟨0⟩

instance : LE Duration := ⟨fun a b => a.nanos ≤ b.nanos⟩
instance : LT Duration := ⟨fun a b => a.nanos < b.nanos⟩
instance (a b : Duration) : Decidable (a ≤ b) := inferInstanceAs (Decidable (a.nanos ≤ b.nanos))
instance (a b : Duration) : Decidable (a < b) := inferInstanceAs (Decidable (a.nanos < b.nanos))

def min (a b : Duration) : Duration := if a ≤ b then a else b

theorem min_eq_iff {a b d : Duration} : a.min b = d ↔ (a = d ∨ b = d) ∧ d ≤ a ∧ d ≤ b := by
  obtain ⟨a⟩ := a
  obtain ⟨b⟩ := b
  obtain ⟨d⟩ := d
  show (if a ≤ b then _ else _) = _ ↔ _ ∧ d ≤ a ∧ d ≤ b
  split <;> simp only [mk.injEq] <;> omega

/-- What is left of a span after another, nothing once that is longer. -/
def sub (a b : Duration) : Duration := ⟨a.nanos - b.nanos⟩

def add (a b : Duration) : Duration := ⟨a.nanos + b.nanos⟩

/-- Whole seconds and the nanoseconds beyond them. -/
def parts (d : Duration) : Nat × Nat := (d.nanos / 1000000000, d.nanos % 1000000000)

/-- Decimal places of a fraction with a given number of digits, without trailing zeros. -/
def places (width fraction : Nat) : String :=
  let ds := (toString fraction).toList
  let padded := List.replicate (width - ds.length) '0' ++ ds
  let kept := (padded.reverse.dropWhile (· = '0')).reverse
  if kept.isEmpty then "" else "." ++ String.ofList kept

/-- A span in the largest unit that makes it at least one. -/
def text (d : Duration) : String :=
  let n := d.nanos
  if 1000000000 ≤ n then s!"{n / 1000000000}{places 9 (n % 1000000000)}s"
  else if 1000000 ≤ n then s!"{n / 1000000}{places 6 (n % 1000000)}ms"
  else if 1000 ≤ n then s!"{n / 1000}{places 3 (n % 1000)}µs"
  else s!"{n}ns"

/-- The span of `n` units with a one-letter name. -/
def ofUnit? (n : Nat) (unit : UInt8) : Option Duration :=
  if unit = ascii 'H' then some (ofSeconds (n * 3600))
  else if unit = ascii 'M' then some (ofSeconds (n * 60))
  else if unit = ascii 'S' then some (ofSeconds n)
  else if unit = ascii 'm' then some (ofMillis n)
  else if unit = ascii 'u' then some (ofMicros n)
  else if unit = ascii 'n' then some (ofNanos n)
  else none

/-- Units of time limits, the finest first, with their length in nanoseconds. -/
def units : List (Nat × String) :=
  [(1, "n"), (1000, "u"), (1000000, "m"), (1000000000, "S"), (60000000000, "M"),
    (3600000000000, "H")]

/-- A time limit in the finest unit that takes at most eight digits. -/
def limitText (d : Duration) : String :=
  match units.find? fun (size, _) => d.nanos / size < 100000000 with
  | some (size, unit) => toString (d.nanos / size) ++ unit
  | none => "99999999H"

end Duration

/-- The last byte of a text lies inside a character, so the text cannot be cut before it. -/
inductive CutInsideCharacter
  | cut
  deriving DecidableEq, Repr

/-- Reads a time limit. The text is cut before its last byte, the unit. -/
def parseTimeout (text : String) : Except CutInsideCharacter (Option Duration) :=
  let bytes := utf8 text
  if bytes.length < 2 ∨ 9 < bytes.length then .ok none
  else
    match bytes.getLast? with
    | none => .ok none
    | some unit =>
      if 0x80 ≤ unit then .error .cut
      else
        let amount := bytes.dropLast
        if amount.all isDigit then .ok (Duration.ofUnit? (ofDigits amount) unit) else .ok none

end RpcGateway.Rpc
