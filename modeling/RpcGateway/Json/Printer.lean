import RpcGateway.Bytes
import RpcGateway.Json.Basic
import RpcGateway.Number.Shortest

/-!
JSON text without blanks. Strings escape quotes, backslashes and controls, and nothing else. Numbers
that are not integers have the fewest digits that read back, positional from `1e-5` up to `1e16`.
-/
namespace RpcGateway.Json
open Number

def quote : UInt8 := 0x22
def backslash : UInt8 := 0x5C
def comma : UInt8 := 0x2C
def colon : UInt8 := 0x3A
def openBracket : UInt8 := 0x5B
def closeBracket : UInt8 := 0x5D
def openBrace : UInt8 := 0x7B
def closeBrace : UInt8 := 0x7D
def minus : UInt8 := 0x2D
def point : UInt8 := 0x2E

/-- The words `null`, `true` and `false`. -/
def nullWord : Bytes := [0x6E, 0x75, 0x6C, 0x6C]
def trueWord : Bytes := [0x74, 0x72, 0x75, 0x65]
def falseWord : Bytes := [0x66, 0x61, 0x6C, 0x73, 0x65]

/-- A lower-case hexadecimal digit. -/
def hexDigit (n : Nat) : UInt8 := if n < 10 then 0x30 + n.toUInt8 else 0x57 + n.toUInt8

/-- One byte of a string as it is written between the quotes. -/
def escapeByte (b : UInt8) : Bytes :=
  if b = quote then [backslash, quote]
  else if b = backslash then [backslash, backslash]
  else if 0x20 ≤ b then [b]
  else if b = 0x08 then [backslash, 0x62]
  else if b = 0x09 then [backslash, 0x74]
  else if b = 0x0A then [backslash, 0x6E]
  else if b = 0x0C then [backslash, 0x66]
  else if b = 0x0D then [backslash, 0x72]
  else [backslash, 0x75, 0x30, 0x30, hexDigit (b.toNat / 16), hexDigit (b.toNat % 16)]

def printString (s : String) : Bytes := quote :: (utf8 s).flatMap escapeByte ++ [quote]

def printInt (i : Int) : Bytes := if i < 0 then minus :: digits i.natAbs else digits i.natAbs

/-- Digits `ds` with the point after the digit of weight `10 ^ e`. -/
def layout (ds : Bytes) (e : Int) : Bytes :=
  if 0 ≤ e ∧ e < 16 then
    let whole := e.toNat + 1
    if ds.length ≤ whole then ds ++ List.replicate (whole - ds.length) 0x30 ++ [point, 0x30]
    else ds.take whole ++ point :: ds.drop whole
  else if -5 ≤ e ∧ e < 0 then
    0x30 :: point :: List.replicate (-e - 1).toNat 0x30 ++ ds
  else
    let fraction := if ds.length ≤ 1 then [] else point :: ds.drop 1
    let sign := if e < 0 then minus else 0x2B
    ds.take 1 ++ fraction ++ 0x65 :: sign :: digits e.natAbs

/-- A finite number. -/
def printDouble (x : Double) : Bytes :=
  let text :=
    if x.isZero then [0x30, point, 0x30]
    else
      let (m, q) := x.parts
      let (n, k) := shortest .double m q
      let ds := digits n
      layout ds (k + ds.length - 1)
  if x.isNegative then minus :: text else text

mutual

def print : Json → Bytes
  | .null => nullWord
  | .bool true => trueWord
  | .bool false => falseWord
  | .int i => printInt i
  | .double x => if x.isFinite then printDouble x else nullWord
  | .str s => printString s
  | .arr items => openBracket :: printItems items ++ [closeBracket]
  | .obj members => openBrace :: printMembers members ++ [closeBrace]

def printItems : List Json → Bytes
  | [] => []
  | [v] => v.print
  | v :: vs => v.print ++ comma :: printItems vs

def printMembers : List (String × Json) → Bytes
  | [] => []
  | [(k, v)] => printString k ++ colon :: v.print
  | (k, v) :: ms => printString k ++ colon :: v.print ++ comma :: printMembers ms

end

end RpcGateway.Json
