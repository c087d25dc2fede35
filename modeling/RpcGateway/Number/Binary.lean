import RpcGateway.Number.Words

/-!
Binary floating-point numbers as bit patterns, with exact integer arithmetic behind every operation.
A finite number is a significand times a power of two. Rounding goes to the nearest number, and of
two equally near ones to the one with the even significand.
-/
namespace RpcGateway.Number

/-- An interchange format. `precision` counts the bits of a significand, the leading one included.
-/
structure Format where
  precision : Nat
  exponentBits : Nat

namespace Format

def single : Format := ⟨24, 8⟩
def double : Format := ⟨53, 11⟩

/-- Weight of the leading bit of a normal significand. -/
def leading (f : Format) : Nat := twoTo (f.precision - 1)

/-- The exponent of the last place of the smallest numbers. -/
def minExponent (f : Format) : Int := 3 - (twoTo (f.exponentBits - 1) : Int) - f.precision

/-- The pattern of infinity, sign aside. Larger patterns are not numbers. -/
def infinity (f : Format) : Nat := (twoTo f.exponentBits - 1) * f.leading

/-- The quotient rounded to the nearest integer, a half to the even one. -/
def roundDiv (num den : Nat) : Nat :=
  let q := num / den
  let twice := 2 * (num % den)
  if twice < den ∨ (twice = den ∧ q % 2 = 0) then q else q + 1

/-- Numerator and denominator of `num / den / 2 ^ q`. -/
def scaled (num den : Nat) (q : Int) : Nat × Nat :=
  if 0 ≤ q then (num, den * twoTo q.toNat) else (num * twoTo (-q).toNat, den)

/-- The pattern of a significand below `2 ^ precision` or equal to it, at an exponent. -/
def pattern (f : Format) (m : Nat) (q : Int) : Nat :=
  if m < f.leading then m
  else min f.infinity ((q - f.minExponent + 1).toNat * f.leading + (m - f.leading))

/-- The pattern nearest to a positive quotient. -/
def nearest (f : Format) (num den : Nat) : Nat :=
  if num = 0 then 0
  else
    let q : Int := num.log2 - den.log2 - f.precision + 1
    let (n, d) := scaled num den q
    let q := max f.minExponent (if f.leading * d ≤ n then q else q - 1)
    let (n, d) := scaled num den q
    f.pattern (roundDiv n d) q

/-- The pattern nearest to `digits * 10 ^ exponent`. Far out of range the power is not computed. -/
def ofDecimal (f : Format) (digits : Nat) (exponent : Int) : Nat :=
  if digits = 0 then 0
  else
    let size : Int := (Nat.toDigits 10 digits).length + exponent
    if 400 < size then f.infinity
    else if size < -400 then 0
    else if 0 ≤ exponent then f.nearest (digits * tenTo exponent.toNat) 1
    else f.nearest digits (tenTo (-exponent).toNat)

/-- Significand and exponent of a finite pattern. -/
def parts (f : Format) (magnitude : Nat) : Nat × Int :=
  let e := magnitude / f.leading
  let fraction := magnitude % f.leading
  if e = 0 then (fraction, f.minExponent) else (fraction + f.leading, f.minExponent + e - 1)

end Format

/-- A double-precision number, an infinity or not a number. -/
structure Double where
  bits : UInt64
  deriving DecidableEq, Repr

namespace Double

/-- The pattern without the sign. -/
def magnitude (x : Double) : Nat := x.bits.toNat % half64

def isNegative (x : Double) : Bool := half64 ≤ x.bits.toNat

def ofMagnitude (negative : Bool) (magnitude : Nat) : Double :=
  ⟨((if negative then half64 else 0) + magnitude).toUInt64⟩

def zero : Double := ⟨0⟩

instance : Inhabited Double := ⟨zero⟩

def isInfinite (x : Double) : Bool := x.magnitude == Format.double.infinity
def isNan (x : Double) : Bool := Format.double.infinity < x.magnitude
def isFinite (x : Double) : Bool := x.magnitude < Format.double.infinity
def isZero (x : Double) : Bool := x.magnitude == 0

def parts (x : Double) : Nat × Int := Format.double.parts x.magnitude

def neg (x : Double) : Double := ofMagnitude (!x.isNegative) x.magnitude

/-- The number nearest to a quotient of natural numbers. -/
def ofQuotient (num den : Nat) : Double := ofMagnitude false (Format.double.nearest num den)

def ofNat (n : Nat) : Double := ofQuotient n 1

def ofInt (i : Int) : Double := if i < 0 then (ofNat i.natAbs).neg else ofNat i.natAbs

/-- Product of finite numbers. -/
def mul (x y : Double) : Double :=
  let (m, p) := x.parts
  let (n, q) := y.parts
  let (a, b) := Format.scaled (m * n) 1 (-(p + q))
  ofMagnitude (x.isNegative != y.isNegative) (Format.double.nearest a b)

/-- Quotient of finite numbers, the second not zero. -/
def div (x y : Double) : Double :=
  let (m, p) := x.parts
  let (n, q) := y.parts
  let (a, b) := Format.scaled m n (q - p)
  ofMagnitude (x.isNegative != y.isNegative) (Format.double.nearest a b)

/-- The power of ten nearest to `10 ^ n`. -/
def pow10 (n : Nat) : Double := ofNat (tenTo n)

/-- The integer that a finite number equals, if it is one. -/
def toInt? (x : Double) : Option Int :=
  if x.isFinite then
    let (m, q) := x.parts
    let n : Option Nat :=
      if 0 ≤ q then some (m * twoTo q.toNat)
      else if m % twoTo (-q).toNat = 0 then some (m / twoTo (-q).toNat)
      else none
    n.map fun n => if x.isNegative then -(n : Int) else n
  else none

end Double

/-- A single-precision number, an infinity or not a number. -/
structure Single where
  bits : UInt32
  deriving DecidableEq, Repr

namespace Single

def magnitude (x : Single) : Nat := x.bits.toNat % half32

def isNegative (x : Single) : Bool := half32 ≤ x.bits.toNat

def ofMagnitude (negative : Bool) (magnitude : Nat) : Single :=
  ⟨((if negative then half32 else 0) + magnitude).toUInt32⟩

def zero : Single := ⟨0⟩

instance : Inhabited Single := ⟨zero⟩

def isZero (x : Single) : Bool := x.magnitude == 0

/-- A pattern that is not a number, with the leading bit of its fraction set. -/
def nan : Single := ⟨0x7FC00000⟩

/-- The number nearest to a quotient of natural numbers. -/
def ofQuotient (negative : Bool) (num den : Nat) : Single :=
  ofMagnitude negative (Format.single.nearest num den)

def ofInt (i : Int) : Single := ofQuotient (decide (i < 0)) i.natAbs 1

/-- The nearest single-precision number. -/
def ofDouble (x : Double) : Single :=
  if x.isNan then nan
  else if x.isInfinite then ofMagnitude x.isNegative Format.single.infinity
  else
    let (m, q) := x.parts
    let (a, b) := Format.scaled m 1 (-q)
    ofQuotient x.isNegative a b

/-- The same number in double precision. -/
def toDouble (x : Single) : Double :=
  if Format.single.infinity < x.magnitude then ⟨0x7FF8000000000000⟩
  else if x.magnitude = Format.single.infinity then
    Double.ofMagnitude x.isNegative Format.double.infinity
  else
    let (m, q) := Format.single.parts x.magnitude
    let (a, b) := Format.scaled m 1 (-q)
    Double.ofMagnitude x.isNegative (Format.double.nearest a b)

end Single

end RpcGateway.Number
