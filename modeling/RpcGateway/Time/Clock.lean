import RpcGateway.Bytes

/-!
Pieces of written times: fields of a fixed number of digits, and fractions of a second, which are
written with as many groups of three digits as they need.
-/
namespace RpcGateway.Time

def nanosPerSecond : Nat := 1000000000

/-- A number of `count` digits, and what follows it. -/
def takeDigits? (count : Nat) (s : Bytes) : Option (Nat × Bytes) :=
  let ds := s.take count
  if ds.length = count ∧ ds.all isDigit then some (ofDigits ds, s.drop count) else none

/-- What follows a character that has to stand first. -/
def skip? (c : Char) (s : Bytes) : Option Bytes :=
  match s with
  | b :: rest => if b = ascii c then some rest else none
  | [] => none

/-- A fraction of a second in nanoseconds, zero if no point stands first. A point has one to nine
digits behind it. -/
def takeFraction? (s : Bytes) : Option (Nat × Bytes) :=
  match skip? '.' s with
  | none => some (0, s)
  | some rest =>
    let ds := rest.takeWhile isDigit
    if ds.isEmpty ∨ 9 < ds.length then none
    else some (ofDigits (ds ++ List.replicate (9 - ds.length) (ascii '0')), rest.drop ds.length)

/-- A number with zeros in front, up to `width` digits. -/
def padded (width n : Nat) : Bytes :=
  List.replicate (width - (digits n).length) (ascii '0') ++ digits n

/-- The shortest of the fractions with three, six or nine digits, nothing for zero. -/
def printFraction (nanos : Nat) : Bytes :=
  if nanos = 0 then []
  else if nanos % 1000000 = 0 then ascii '.' :: padded 3 (nanos / 1000000)
  else if nanos % 1000 = 0 then ascii '.' :: padded 6 (nanos / 1000)
  else ascii '.' :: padded 9 nanos

end RpcGateway.Time
