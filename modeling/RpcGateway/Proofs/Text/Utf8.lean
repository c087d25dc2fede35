import Mathlib.Data.List.Flatten
import RpcGateway.Bytes

/-!
The bytes of characters. Of the bytes of a character only the first can begin one, so a byte string
is cut into characters in one way, and what is left of it after a character is again encoded text.
-/
namespace RpcGateway.Text

/-- A byte inside of a character: any but its first. -/
def isInner (b : UInt8) : Bool := 0x80 ≤ b && b < 0xC0

theorem isInner_ofNat (n : Nat) : isInner (UInt8.ofNat (n % 64 + 128)) = true := by
  have hall : ∀ n < 64, isInner (UInt8.ofNat (n + 128)) = true := by decide
  exact hall _ (Nat.mod_lt n (by decide))

/-- A character is a first byte and bytes inside of it; alone, the first byte is ASCII. -/
theorem exists_utf8EncodeChar (c : Char) :
    ∃ b bs, String.utf8EncodeChar c = b :: bs ∧ isInner b = false ∧
      (∀ d ∈ bs, isInner d = true) ∧ (bs = [] → b < 0x80) := by
  have hone : ∀ n < 128, isInner (UInt8.ofNat n) = false ∧ UInt8.ofNat n < 0x80 := by decide
  have htwo : ∀ n < 32, isInner (UInt8.ofNat (n + 192)) = false := by decide
  have hthree : ∀ n < 16, isInner (UInt8.ofNat (n + 224)) = false := by decide
  have hfour : ∀ n < 8, isInner (UInt8.ofNat (n + 240)) = false := by decide
  have htail : ∀ n, ∀ d ∈ [UInt8.ofNat (n % 64 + 128)], isInner d = true := fun n =>
    List.forall_mem_singleton.mpr (isInner_ofNat n)
  unfold String.utf8EncodeChar
  dsimp only
  split
  · obtain ⟨hfirst, hlow⟩ := hone c.val.toNat (by omega)
    exact ⟨_, _, rfl, hfirst, List.forall_mem_nil _, fun _ => hlow⟩
  split
  · exact ⟨_, _, rfl, htwo _ (Nat.mod_lt _ (by decide)), htail _, fun h => nomatch h⟩
  split
  · refine ⟨_, _, rfl, hthree _ (Nat.mod_lt _ (by decide)), ?_, fun h => nomatch h⟩
    exact List.forall_mem_cons.mpr ⟨isInner_ofNat _, htail _⟩
  · refine ⟨_, _, rfl, hfour _ (Nat.mod_lt _ (by decide)), ?_, fun h => nomatch h⟩
    exact List.forall_mem_cons.mpr ⟨isInner_ofNat _,
      List.forall_mem_cons.mpr ⟨isInner_ofNat _, htail _⟩⟩

/-- No character begins like another one and goes on differently. -/
theorem utf8EncodeChar_append_inj {c d : Char} {s t : Bytes}
    (h : String.utf8EncodeChar c ++ s = String.utf8EncodeChar d ++ t) : c = d ∧ s = t := by
  have hc := @ByteArray.utf8DecodeChar?_utf8EncodeChar_append ⟨s.toArray⟩ c
  have hd := @ByteArray.utf8DecodeChar?_utf8EncodeChar_append ⟨t.toArray⟩ d
  have heq : (String.utf8EncodeChar c).toByteArray ++ ByteArray.mk s.toArray =
      (String.utf8EncodeChar d).toByteArray ++ ByteArray.mk t.toArray := by
    ext1
    apply Array.toList_inj.mp
    simpa using h
  rw [heq, hd] at hc
  obtain rfl : d = c := Option.some.inj hc
  exact ⟨rfl, List.append_cancel_left h⟩

theorem utf8_eq_flatMap (s : String) : utf8 s = s.toList.flatMap String.utf8EncodeChar := by
  rw [← utf8_ofList, String.ofList_toList]

/-- An ASCII byte of a text is the byte of an ASCII character in it. -/
theorem char_mem_of_byte_mem {s : String} {b : UInt8} (hb : b < 0x80) (h : b ∈ utf8 s) :
    Char.ofNat b.toNat ∈ s.toList := by
  rw [utf8_eq_flatMap] at h
  obtain ⟨c, hc, hmem⟩ := List.mem_flatMap.mp h
  obtain ⟨first, inner, hbytes, -, hinner, -⟩ := exists_utf8EncodeChar c
  rw [hbytes] at hmem
  rcases List.mem_cons.mp hmem with rfl | hmem
  · have happend : String.utf8EncodeChar c ++ [] =
        String.utf8EncodeChar (Char.ofNat b.toNat) ++ inner := by
      rw [hbytes, utf8EncodeChar_of_ascii hb, List.append_nil, List.singleton_append]
    exact (utf8EncodeChar_append_inj happend).1 ▸ hc
  · have hlow := hinner b hmem
    simp only [isInner, Bool.and_eq_true, decide_eq_true_eq] at hlow
    exact absurd hb (UInt8.not_lt.mpr hlow.1)

/-- Bytes that encode a text. -/
def IsUtf8 (b : Bytes) : Prop := ∃ s, utf8 s = b

theorem isUtf8_iff_isSome {b : Bytes} : IsUtf8 b ↔ (ofUtf8? b).isSome := by
  rw [Option.isSome_iff_exists]
  exact exists_congr fun s => eq_comm.trans ofUtf8?_eq_some_iff.symm

theorem isUtf8_flatMap (cs : List Char) : IsUtf8 (cs.flatMap String.utf8EncodeChar) :=
  ⟨String.ofList cs, utf8_ofList cs⟩

theorem isUtf8_of_ascii {b : Bytes} (h : ∀ d ∈ b, d < 0x80) : IsUtf8 b := exists_utf8_of_ascii h

theorem isUtf8_char (c : Char) : IsUtf8 (String.utf8EncodeChar c) := by
  have h := isUtf8_flatMap [c]
  rwa [List.flatMap_singleton] at h

theorem IsUtf8.append {a b : Bytes} (ha : IsUtf8 a) (hb : IsUtf8 b) : IsUtf8 (a ++ b) := by
  obtain ⟨s, rfl⟩ := ha
  obtain ⟨t, rfl⟩ := hb
  rw [utf8_eq_flatMap, utf8_eq_flatMap, ← List.flatMap_append]
  exact isUtf8_flatMap _

theorem IsUtf8.cons {d : UInt8} {b : Bytes} (hd : d < 0x80) (hb : IsUtf8 b) : IsUtf8 (d :: b) :=
  (isUtf8_of_ascii (List.forall_mem_singleton.mpr hd)).append hb

/-- The last byte of a text is ASCII exactly if its last character is. -/
theorem last_utf8 {s : String} {c : Char} (h : s.toList.getLast? = some c) :
    ∃ bs b, utf8 s = bs ++ [b] ∧ (0x80 ≤ b ↔ 1 < c.utf8Size) := by
  obtain ⟨cs, hcs⟩ := List.getLast?_eq_some_iff.mp h
  obtain ⟨b, bs, hc, -, hinner, hlow⟩ := exists_utf8EncodeChar c
  have hsize : c.utf8Size = bs.length + 1 := by
    rw [← String.length_utf8EncodeChar, hc, List.length_cons]
  have htext : utf8 s = cs.flatMap String.utf8EncodeChar ++ b :: bs := by
    rw [utf8_eq_flatMap, hcs, List.flatMap_append, List.flatMap_singleton, hc]
  rcases List.eq_nil_or_concat bs with rfl | ⟨init, d, rfl⟩
  · refine ⟨_, b, htext, ?_⟩
    rw [hsize]
    exact iff_of_false (UInt8.not_le.mpr (hlow rfl)) (by simp)
  · rw [List.concat_eq_append] at htext hinner hsize
    refine ⟨cs.flatMap String.utf8EncodeChar ++ b :: init, d, ?_, ?_⟩
    · rw [htext, List.append_assoc, List.cons_append]
    · have hd := hinner d (List.mem_append_right init (List.mem_singleton_self d))
      rw [isInner, Bool.and_eq_true, decide_eq_true_eq] at hd
      rw [hsize, List.length_append, List.length_singleton]
      exact iff_of_true hd.1 (by omega)

end RpcGateway.Text
