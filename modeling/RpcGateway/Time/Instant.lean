import RpcGateway.Time.Calendar
import RpcGateway.Time.Clock

/-!
Points in time, written as a date, a time of day and an offset from universal time. The years one to
9999 are covered.
-/
namespace RpcGateway.Time

/-- Seconds since the beginning of 1970, and nanoseconds after them. -/
structure Instant where
  seconds : Int
  nanos : Int
  deriving DecidableEq, Repr, Inhabited

namespace Instant

/-- The first second of the year one. -/
def earliest : Int := -62135596800

/-- The last second of the year 9999. -/
def latest : Int := 253402300799

def inRange (t : Instant) : Bool := earliest ≤ t.seconds && t.seconds ≤ latest

/-- The same instant with less than a second of nanoseconds. -/
def normalized (t : Instant) : Instant :=
  ⟨t.seconds + t.nanos / nanosPerSecond, t.nanos % nanosPerSecond⟩

/-! ## Reading -/

/-- A date as year, month and day. -/
def takeDate? (s : Bytes) : Option (Date × Bytes) := do
  let (year, s) ← takeDigits? 4 s
  let (month, s) ← takeDigits? 2 (← skip? '-' s)
  let (day, s) ← takeDigits? 2 (← skip? '-' s)
  return (⟨year, month, day⟩, s)

/-- A time of day in seconds. -/
def takeTime? (s : Bytes) : Option (Nat × Bytes) := do
  let (hour, s) ← takeDigits? 2 s
  let (minute, s) ← takeDigits? 2 (← skip? ':' s)
  let (second, s) ← takeDigits? 2 (← skip? ':' s)
  guard (hour < 24 ∧ minute < 60 ∧ second < 60)
  return (hour * 3600 + minute * 60 + second, s)

/-- The size of an offset in seconds, with nothing behind it. -/
def offsetSize? (s : Bytes) : Option Nat := do
  let (hour, s) ← takeDigits? 2 s
  let (minute, s) ← takeDigits? 2 (← skip? ':' s)
  guard (hour < 24 ∧ minute < 60 ∧ s.isEmpty)
  return hour * 3600 + minute * 60

/-- An offset in seconds: `Z`, or hours and minutes with a sign, of which zero has the plus sign. -/
def offset? (s : Bytes) : Option Int :=
  match s with
  | 0x5A :: rest => if rest.isEmpty then some 0 else none
  | 0x2B :: rest => (offsetSize? rest).map fun n => (n : Int)
  | 0x2D :: rest => ((offsetSize? rest).filter (· ≠ 0)).map fun n => -(n : Int)
  | _ => none

/-- The instant that a text gives, if the covered years hold it. -/
def parse? (s : Bytes) : Option Instant := do
  let (date, s) ← takeDate? s
  let (time, s) ← takeTime? (← skip? 'T' s)
  let (nanos, s) ← takeFraction? s
  let offset ← offset? s
  guard date.isValid
  let t : Instant := ⟨date.toDays * 86400 + time - offset, nanos⟩
  guard t.inRange
  return t

/-! ## Writing -/

/-- A year of at least four digits; one beyond 9999 has a plus sign. -/
def printYear (year : Int) : Bytes :=
  if 9999 < year then ascii '+' :: digits year.toNat
  else if year < 0 then ascii '-' :: padded 4 year.natAbs
  else padded 4 year.toNat

/-- The text of an instant in universal time. -/
def print (t : Instant) : Bytes :=
  let t := t.normalized
  let date := Date.ofDays (t.seconds / 86400)
  let time := (t.seconds % 86400).toNat
  printYear date.year ++ ascii '-' :: padded 2 date.month ++ ascii '-' :: padded 2 date.day ++
    ascii 'T' :: padded 2 (time / 3600) ++ ascii ':' :: padded 2 (time / 60 % 60) ++
    ascii ':' :: padded 2 (time % 60) ++ printFraction t.nanos.toNat ++ [ascii 'Z']

end Instant

end RpcGateway.Time
