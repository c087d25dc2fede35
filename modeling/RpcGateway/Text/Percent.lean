import RpcGateway.Bytes

/-!
Percent-encoding of bytes in header values.
-/
namespace RpcGateway.Text.Percent

/-- The value of a hexadecimal digit of either case. -/
def hexValue? (b : UInt8) : Option Nat :=
  if isDigit b then some (digitValue b)
  else if 0x41 ≤ b && b ≤ 0x46 then some (b.toNat - 0x41 + 10)
  else if 0x61 ≤ b && b ≤ 0x66 then some (b.toNat - 0x61 + 10)
  else none

/-- Replaces each percent sign that two hexadecimal digits follow; any other stays as it is. -/
def decode : Bytes → Bytes
  | [] => []
  | [x] => [x]
  | [x, y] => [x, y]
  | x :: h :: l :: rest =>
    if x = ascii '%' then
      match hexValue? h, hexValue? l with
      | some h, some l => (16 * h + l).toUInt8 :: decode rest
      | _, _ => x :: decode (h :: l :: rest)
    else x :: decode (h :: l :: rest)

/-- A digit in upper-case hexadecimal. -/
def upperHexDigit (n : Nat) : UInt8 := if n < 10 then 0x30 + n.toUInt8 else 0x37 + n.toUInt8

/-- Whether a byte is written by its number: controls, bytes beyond ASCII and some punctuation, the
percent sign itself among it. -/
def isEscaped (b : UInt8) : Bool := b ≤ 0x20 || 0x7F ≤ b || (utf8 "\"#%<>`?\x7b\x7d").contains b

/-- Writes the escaped bytes as a percent sign and two hexadecimal digits. -/
def encode (s : Bytes) : Bytes :=
  s.flatMap fun b =>
    if isEscaped b then
      [ascii '%', upperHexDigit (b.toNat / 16), upperHexDigit (b.toNat % 16)]
    else [b]

end RpcGateway.Text.Percent
