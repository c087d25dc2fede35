import RpcGateway.Bytes
import RpcGateway.Number.Binary

/-!
Numbers written in decimal: integers with an optional sign, and floating-point numbers with an
optional sign, point and exponent, or one of the names of the infinities and of not-a-number.
-/
namespace RpcGateway.Number

/-- The value of a non-empty run of ASCII digits. -/
def ofDigits? (ds : Bytes) : Option Nat :=
  if ds.isEmpty || !ds.all isDigit then none else some (ofDigits ds)

/-- A natural number: digits after an optional plus sign. -/
def natural? : Bytes → Option Nat
  | 0x2B :: ds => ofDigits? ds
  | ds => ofDigits? ds

/-- An integer: digits after an optional sign. -/
def integer? : Bytes → Option Int
  | 0x2D :: ds => (ofDigits? ds).map fun n => -(n : Int)
  | ds => (natural? ds).map fun n => (n : Int)

/-- What a floating-point text denotes, sign aside. -/
inductive Real
  | decimal (digits : Nat) (exponent : Int)
  | infinity
  | nan

/-- Lower case of an ASCII letter. -/
def lowerByte (b : UInt8) : UInt8 := if 0x41 ≤ b && b ≤ 0x5A then b + 0x20 else b

/-- The exponent part that may end a number. -/
def exponent? : Bytes → Option Int
  | [] => some 0
  | e :: rest => if lowerByte e = ascii 'e' then integer? rest else none

/-- A number without sign. It has a digit before or after the point. -/
def decimal? (s : Bytes) : Option Real := do
  let whole := s.takeWhile isDigit
  let rest := s.drop whole.length
  let fraction := match rest with
    | 0x2E :: r => r.takeWhile isDigit
    | _ => []
  let rest := match rest with
    | 0x2E :: r => r.drop fraction.length
    | r => r
  guard (!(whole.isEmpty && fraction.isEmpty))
  let e ← exponent? rest
  return .decimal (ofDigits (whole ++ fraction)) (e - fraction.length)

def unsignedReal? (s : Bytes) : Option Real :=
  let name := s.map lowerByte
  if name = utf8 "inf" || name = utf8 "infinity" then some .infinity
  else if name = utf8 "nan" then some .nan
  else decimal? s

/-- A floating-point text: whether it is negative, and what it denotes. -/
def real? : Bytes → Option (Bool × Real)
  | 0x2D :: s => (unsignedReal? s).map (true, ·)
  | 0x2B :: s => (unsignedReal? s).map (false, ·)
  | s => (unsignedReal? s).map (false, ·)

/-- The pattern in a format of what a text denotes. -/
def Real.pattern (f : Format) : Real → Nat
  | .decimal digits exponent => f.ofDecimal digits exponent
  | .infinity => f.infinity
  | .nan => f.infinity + f.leading / 2

def Double.ofText? (s : Bytes) : Option Double :=
  (real? s).map fun (negative, x) => .ofMagnitude negative (x.pattern .double)

def Single.ofText? (s : Bytes) : Option Single :=
  (real? s).map fun (negative, x) => .ofMagnitude negative (x.pattern .single)

end RpcGateway.Number
