/-!
Byte strings as lists, and texts as the byte strings that encode them. A text is recovered from its
encoding, and nothing else decodes to it.
-/
namespace RpcGateway

/-- A byte string, such as an HTTP body or an encoded message. -/
abbrev Bytes := List UInt8

/-- The UTF-8 encoding of a text. -/
def utf8 (s : String) : Bytes := s.toUTF8.data.toList

/-- The text that a byte string encodes, if it is valid UTF-8. -/
def ofUtf8? (b : Bytes) : Option String := String.fromUTF8? ⟨b.toArray⟩

@[simp] theorem ofUtf8?_utf8 (s : String) : ofUtf8? (utf8 s) = some s := by
  simp [ofUtf8?, utf8, String.fromUTF8?, String.fromUTF8, s.isValidUTF8]

theorem eq_utf8_of_ofUtf8? {b : Bytes} {s : String} (h : ofUtf8? b = some s) : b = utf8 s := by
  unfold ofUtf8? String.fromUTF8? at h
  split at h
  · cases h
    simp [utf8, String.fromUTF8]
  · cases h

theorem ofUtf8?_eq_some_iff {b : Bytes} {s : String} : ofUtf8? b = some s ↔ b = utf8 s :=
  ⟨eq_utf8_of_ofUtf8?, fun h => h ▸ ofUtf8?_utf8 s⟩

theorem utf8_ofList (cs : List Char) :
    utf8 (String.ofList cs) = cs.flatMap String.utf8EncodeChar := by
  simp [utf8, List.utf8Encode]

theorem utf8EncodeChar_of_ascii {b : UInt8} (h : b < 0x80) :
    String.utf8EncodeChar (Char.ofNat b.toNat) = [b] := by
  have hall : ∀ n < 128, String.utf8EncodeChar (Char.ofNat n) = [n.toUInt8] := by decide
  have hb := hall b.toNat h
  rwa [show b.toNat.toUInt8 = b from UInt8.ofNat_toNat] at hb

theorem utf8_ofList_of_ascii {bs : Bytes} (h : ∀ b ∈ bs, b < 0x80) :
    utf8 (String.ofList (bs.map fun b => Char.ofNat b.toNat)) = bs := by
  rw [utf8_ofList]
  induction bs with
  | nil => rfl
  | cons b bs ih =>
    obtain ⟨hb, hbs⟩ := List.forall_mem_cons.mp h
    rw [List.map_cons, List.flatMap_cons, utf8EncodeChar_of_ascii hb, ih hbs]
    rfl

/-- ASCII bytes are the encoding of a text. -/
theorem exists_utf8_of_ascii {bs : Bytes} (h : ∀ b ∈ bs, b < 0x80) : ∃ s, utf8 s = bs :=
  ⟨_, utf8_ofList_of_ascii h⟩

/-- The byte of an ASCII character. -/
def ascii (c : Char) : UInt8 := c.toNat.toUInt8

/-- Whether a byte is an ASCII digit. -/
def isDigit (b : UInt8) : Bool := 0x30 ≤ b && b ≤ 0x39

/-- The value of an ASCII digit. -/
def digitValue (b : UInt8) : Nat := b.toNat - 0x30

/-- The number that a list of ASCII digits writes, most significant first. -/
def ofDigits (ds : Bytes) : Nat := ds.foldl (fun n d => 10 * n + digitValue d) 0

/-- The decimal digits of a number, most significant first. -/
def digits (n : Nat) : Bytes :=
  if n < 10 then [0x30 + n.toUInt8] else digits (n / 10) ++ [0x30 + (n % 10).toUInt8]

@[simp] theorem ofDigits_append_singleton (ds : Bytes) (d : UInt8) :
    ofDigits (ds ++ [d]) = 10 * ofDigits ds + digitValue d := by
  simp [ofDigits]

theorem digitValue_ofNat {n : Nat} (h : n < 10) : digitValue (0x30 + n.toUInt8) = n := by
  have : n = 0 ∨ n = 1 ∨ n = 2 ∨ n = 3 ∨ n = 4 ∨ n = 5 ∨ n = 6 ∨ n = 7 ∨ n = 8 ∨ n = 9 := by omega
  rcases this with rfl | rfl | rfl | rfl | rfl | rfl | rfl | rfl | rfl | rfl <;> decide

theorem ofDigits_digits (n : Nat) : ofDigits (digits n) = n := by
  induction n using Nat.strongRecOn with
  | _ n ih =>
    rw [digits]
    split
    · next h => simpa [ofDigits] using digitValue_ofNat h
    · next h =>
      rw [ofDigits_append_singleton, ih (n / 10) (by omega), digitValue_ofNat (by omega)]
      omega

end RpcGateway
