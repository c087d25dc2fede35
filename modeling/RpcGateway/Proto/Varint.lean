import RpcGateway.Bytes
import RpcGateway.Number.Words

/-!
Integers on the wire: base-128 varints of at most ten bytes, little-endian words of a fixed width,
and the zigzag order in which numbers near zero are small. Reading undoes writing.
-/
namespace RpcGateway.Proto
open Number

/-- Seven bits per byte, lowest first, with the high bit set on every byte but the last. -/
def varint (n : Nat) : Bytes :=
  if n < 128 then [n.toUInt8] else (n % 128 + 128).toUInt8 :: varint (n / 128)

/-- Reads a varint of at most `limit` bytes. -/
def readVarintWithin : Nat → Bytes → Option (Nat × Bytes)
  | 0, _ => none
  | _ + 1, [] => none
  | limit + 1, b :: s =>
    if b < 128 then some (b.toNat, s)
    else
      match readVarintWithin limit s with
      | none => none
      | some (n, s) => some (n * 128 + (b.toNat - 128), s)

/-- Reads a varint of 64 bits. -/
def readVarint (s : Bytes) : Option (Nat × Bytes) :=
  match readVarintWithin 10 s with
  | none => none
  | some (n, s) => if n < words64 then some (n, s) else none

theorem toNat_toUInt8_of_lt {n : Nat} (h : n < 256) : n.toUInt8.toNat = n := by
  simp [Nat.mod_eq_of_lt h]

theorem readVarintWithin_varint (limit n : Nat) (s : Bytes) (h : n < Nat.pow 128 (limit + 1)) :
    readVarintWithin (limit + 1) (varint n ++ s) = some (n, s) := by
  induction limit generalizing n with
  | zero =>
    have hn : n < 128 := h
    rw [varint, if_pos hn]
    simp [readVarintWithin, UInt8.lt_iff_toNat_lt, Nat.mod_eq_of_lt (by omega : n < 256), hn]
  | succ limit ih =>
    rw [varint]
    split
    · next hn =>
      simp [readVarintWithin, UInt8.lt_iff_toNat_lt, Nat.mod_eq_of_lt (by omega : n < 256), hn]
    · next hn =>
      have hb := toNat_toUInt8_of_lt (by omega : n % 128 + 128 < 256)
      have hlt : ¬ (n % 128 + 128).toUInt8 < 128 := by
        rw [UInt8.lt_iff_toNat_lt, hb]
        simp
      have hd : n / 128 < Nat.pow 128 (limit + 1) := by
        rw [Nat.div_lt_iff_lt_mul (by decide)]
        exact h
      rw [List.cons_append, readVarintWithin, if_neg hlt, ih (n / 128) hd, hb]
      simp only [Option.some.injEq, Prod.mk.injEq, and_true]
      omega

/-- Reading a varint gives back the number that was written, and what follows it. -/
theorem readVarint_varint {n : Nat} (h : n < words64) (s : Bytes) :
    readVarint (varint n ++ s) = some (n, s) := by
  have h' : n < Nat.pow 128 (9 + 1) := Nat.lt_of_lt_of_le h (by decide)
  rw [readVarint, readVarintWithin_varint 9 n s h']
  exact if_pos h

/-- The lowest `width` bytes of a number, lowest first. -/
def littleEndian : Nat → Nat → Bytes
  | 0, _ => []
  | width + 1, n => n.toUInt8 :: littleEndian width (n / 256)

/-- The number of bytes, lowest first. -/
def ofLittleEndian : Bytes → Nat
  | [] => 0
  | b :: s => b.toNat + 256 * ofLittleEndian s

/-- The next `n` bytes, unless fewer are left. -/
def take? (n : Nat) (s : Bytes) : Option (Bytes × Bytes) :=
  if n ≤ s.length then some (s.take n, s.drop n) else none

/-- Two's complement of a number among `words` of them. -/
def toUnsigned (words : Nat) (i : Int) : Nat := (i % words).toNat

/-- The number that a two's complement among `words` stands for; higher bits are dropped. -/
def ofUnsigned (words n : Nat) : Int := Int.bmod n words

/-- Numbers in the order 0, -1, 1, -2, 2 and so on. -/
def zigzag (i : Int) : Nat := if i < 0 then (-2 * i - 1).toNat else (2 * i).toNat

def ofZigzag (n : Nat) : Int := if n % 2 = 0 then n / 2 else -((n + 1) / 2 : Nat)

theorem ofZigzag_zigzag (i : Int) : ofZigzag (zigzag i) = i := by
  unfold zigzag ofZigzag
  split <;> split <;> omega

end RpcGateway.Proto
