/-!
Powers of two and ten, and how many values words of a fixed width have.
-/
namespace RpcGateway.Number

/-- Two to a power. -/
def twoTo (n : Nat) : Nat := Nat.pow 2 n

/-- Ten to a power. -/
def tenTo (n : Nat) : Nat := Nat.pow 10 n

@[simp] theorem twoTo_zero : twoTo 0 = 1 := rfl

theorem twoTo_succ (n : Nat) : twoTo (n + 1) = twoTo n * 2 := rfl

theorem twoTo_pos (n : Nat) : 0 < twoTo n := Nat.pow_pos (by decide)

@[simp] theorem tenTo_zero : tenTo 0 = 1 := rfl

theorem tenTo_succ (n : Nat) : tenTo (n + 1) = tenTo n * 10 := rfl

theorem tenTo_pos (n : Nat) : 0 < tenTo n := Nat.pow_pos (by decide)

/-- How many words of 16 bits there are. -/
abbrev words16 : Nat := 0x10000

/-- How many words of 32 bits there are. -/
abbrev words32 : Nat := 0x100000000

/-- How many words of 64 bits there are. -/
abbrev words64 : Nat := 0x10000000000000000

/-- How many words of 32 bits begin with a zero. -/
abbrev half32 : Nat := 0x80000000

/-- How many words of 64 bits begin with a zero. -/
abbrev half64 : Nat := 0x8000000000000000

end RpcGateway.Number
