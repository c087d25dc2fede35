import RpcGateway.Bytes

/-!
Where bytes stop being UTF-8. A sequence has one to four bytes; its first byte says how many, and
limits the second, so that each character has one sequence only.
-/
namespace RpcGateway.Text

/-- The first place at which bytes are no UTF-8. -/
structure Utf8Fault where
  /-- How many bytes before it are UTF-8. -/
  start : Nat
  /-- How many bytes are wrong, unless the bytes end within a sequence. -/
  length : Option Nat
  deriving DecidableEq, Repr

namespace Utf8Fault

def message (f : Utf8Fault) : String :=
  match f.length with
  | some n => s!"invalid utf-8 sequence of {n} bytes from index {f.start}"
  | none => s!"incomplete utf-8 byte sequence from index {f.start}"

/-- The bounds of the bytes of a sequence by its first one, none if no sequence starts with it. -/
def bounds (b : UInt8) : List (UInt8 × UInt8) :=
  let tail : UInt8 × UInt8 := (0x80, 0xBF)
  if b < 0x80 then [(b, b)]
  else if b < 0xC2 then []
  else if b < 0xE0 then [(b, b), tail]
  else if b = 0xE0 then [(b, b), (0xA0, 0xBF), tail]
  else if b = 0xED then [(b, b), (0x80, 0x9F), tail]
  else if b < 0xF0 then [(b, b), tail, tail]
  else if b = 0xF0 then [(b, b), (0x90, 0xBF), tail, tail]
  else if b < 0xF4 then [(b, b), tail, tail, tail]
  else if b = 0xF4 then [(b, b), (0x80, 0x8F), tail, tail]
  else []

/-- How many bytes from the first one on are within their bounds. -/
def countWithin : List (UInt8 × UInt8) → Bytes → Nat
  | (lo, hi) :: rest, b :: s => if lo ≤ b ∧ b ≤ hi then countWithin rest s + 1 else 0
  | _, _ => 0

/-- The first fault of bytes that `start` bytes of UTF-8 come before. -/
def find? (start : Nat) : Bytes → Option Utf8Fault
  | [] => none
  | b :: s =>
    let wanted := bounds b
    let count := countWithin wanted (b :: s)
    if wanted.isEmpty then some ⟨start, some 1⟩
    else if count = wanted.length then find? (start + count) (s.drop (count - 1))
    else if count = s.length + 1 then some ⟨start, none⟩
    else some ⟨start, some count⟩
  termination_by s => s.length
  decreasing_by
    simp only [List.length_drop, List.length_cons]
    omega

end Utf8Fault

/-- The first fault of bytes, if they are no UTF-8. -/
def utf8Fault? (b : Bytes) : Option Utf8Fault := Utf8Fault.find? 0 b

end RpcGateway.Text
