import RpcGateway.Proofs.Collections
import RpcGateway.Proto.Reader

/-!
Reading what was written, one field after the other. A key, a length and a value are each read back
with what follows them left over. Reading a row of fields leaves a message as reading its parts one
by one does, so a message is read field by field.
-/
namespace RpcGateway.Proto
open Number

/-! ## Keys, lengths and values -/

theorem nextVarint_varint {n : Nat} (h : n < words64) (s : Bytes) :
    nextVarint (varint n ++ s) = .ok (n, s) := by
  rw [nextVarint, readVarint_varint h]

theorem readVarintWithin_of_le {limit n : Nat} (h : Nat.pow 128 limit ≤ n) (s : Bytes) :
    readVarintWithin limit (varint n ++ s) = none := by
  induction limit generalizing n with
  | zero => rw [readVarintWithin]
  | succ limit ih =>
    have hpos : 0 < Nat.pow 128 limit := Nat.pow_pos (by decide)
    have hsucc : Nat.pow 128 (limit + 1) = Nat.pow 128 limit * 128 := rfl
    have hrest : Nat.pow 128 limit ≤ n / 128 := by omega
    have hlt : ¬ (n % 128 + 128).toUInt8 < 128 := by
      rw [UInt8.lt_iff_toNat_lt, toNat_toUInt8_of_lt (by omega)]
      simp
    rw [varint, if_neg (by omega), List.cons_append, readVarintWithin, if_neg hlt, ih hrest]

/-- Numbers of more than 64 bits are not read back. -/
theorem nextVarint_of_le {n : Nat} (h : words64 ≤ n) (s : Bytes) :
    nextVarint (varint n ++ s) = .error .badVarint := by
  rw [nextVarint, readVarint]
  by_cases hlt : n < Nat.pow 128 (9 + 1)
  · rw [readVarintWithin_varint 9 n s hlt]
    simp only [if_neg (Nat.not_lt.mpr h)]
  · rw [readVarintWithin_of_le (Nat.not_lt.mp hlt)]

theorem varint_ne_nil (n : Nat) : varint n ≠ [] := by
  rw [varint]
  split <;> simp

theorem nextBytes_append (b s : Bytes) : nextBytes b.length (b ++ s) = .ok (b, s) := by
  rw [nextBytes, take?, if_pos (by simp), List.take_left, List.drop_left]

theorem nextDelimited_delimited {b : Bytes} (h : b.length < words64) (s : Bytes) :
    nextDelimited (delimited b ++ s) = .ok (b, s) := by
  rw [nextDelimited, delimited, List.append_assoc, nextVarint_varint h]
  exact nextBytes_append b s

theorem nextDelimited_of_le {b : Bytes} (h : words64 ≤ b.length) (s : Bytes) :
    nextDelimited (delimited b ++ s) = .error .badVarint := by
  rw [nextDelimited, delimited, List.append_assoc, nextVarint_of_le h]

theorem length_le_length_delimited (b : Bytes) : b.length ≤ (delimited b).length := by
  rw [delimited, List.length_append]
  omega

theorem WireType.number_lt (wire : WireType) : wire.number < 8 := by cases wire <;> decide

theorem WireType.ofNumber?_number (wire : WireType) :
    WireType.ofNumber? wire.number = some wire := by cases wire <;> rfl

/-- A number that a field can have. -/
def IsFieldNumber (n : Nat) : Prop := 0 < n ∧ n < 0x20000000

instance (n : Nat) : Decidable (IsFieldNumber n) := inferInstanceAs (Decidable (_ ∧ _))

theorem writeKey_ne_nil (n : Nat) (wire : WireType) : writeKey n wire ≠ [] := varint_ne_nil _

theorem nextKey_writeKey {n : Nat} (hn : IsFieldNumber n) (wire : WireType) (s : Bytes) :
    nextKey (writeKey n wire ++ s) = .ok (n, wire, s) := by
  have hpos := hn.1
  have hlt := hn.2
  have hwire := wire.number_lt
  rw [nextKey, writeKey, nextVarint_varint (by simp only [words64]; omega)]
  simp only [show (n * 8 + wire.number) % 8 = wire.number by omega,
    show (n * 8 + wire.number) / 8 = n by omega, WireType.ofNumber?_number]
  exact if_neg (by simp only [words32]; omega)

theorem toUnsigned_lt (i : Int) : toUnsigned words64 i < words64 := by
  simp only [toUnsigned, words64]
  omega

/-- A signed number of 32 bits is written with 64, of which the lower half is read. -/
theorem ofUnsigned_toUnsigned {i : Int} (hlo : -half32 ≤ i) (hhi : i < half32) :
    ofUnsigned words32 (toUnsigned words64 i) = i := by
  simp only [half32] at hlo hhi
  rw [ofUnsigned, toUnsigned, Int.bmod_def]
  simp only [words32, words64]
  split <;> omega

/-- Values of types without parts that can be written: texts and bytes shorter than any memory, and
signed numbers of 32 bits. -/
inductive Plain : FieldType → Value → Prop
  | text {s : String} (h : (utf8 s).length < words64) : Plain (.scalar .string) (.text s)
  | bytes {b : Bytes} (h : b.length < words64) : Plain (.scalar .bytes) (.bytes b)
  | int32 {i : Int} (hlo : -half32 ≤ i) (hhi : i < half32) : Plain (.scalar .int32) (.int i)
  | enum {name : String} {i : Int} (hlo : -half32 ≤ i) (hhi : i < half32) :
      Plain (.enum name) (.int i)

variable {type : FieldType} {v : Value}

theorem Plain.nextNumber_writeNumber (h : Plain type v) (rest : Bytes) :
    nextNumber type (writeNumber type v ++ rest) = .ok (v, rest) := by
  cases h with
  | text h =>
    show nextScalar .string (delimited _ ++ rest) = _
    simp only [nextScalar, Scalar.wireType, nextDelimited_delimited h, ofUtf8?_utf8]
  | bytes h =>
    show nextScalar .bytes (delimited _ ++ rest) = _
    simp only [nextScalar, Scalar.wireType, nextDelimited_delimited h]
  | int32 hlo hhi =>
    show (nextVarint (varint _ ++ rest)).map _ = _
    rw [nextVarint_varint (toUnsigned_lt _)]
    show Except.ok (Value.int _, rest) = _
    rw [ofUnsigned_toUnsigned hlo hhi]
  | enum hlo hhi =>
    show (nextVarint (varint _ ++ rest)).map _ = _
    rw [nextVarint_varint (toUnsigned_lt _)]
    show Except.ok (Value.int _, rest) = _
    rw [ofUnsigned_toUnsigned hlo hhi]

theorem Plain.wireType_ne (h : Plain type v) : type.wireType ≠ .groupEnd := by
  cases h <;> simp [FieldType.wireType, Scalar.wireType]

theorem Plain.nextSingle_writeNumber (h : Plain type v) {pool : Pool} {nested : FieldsReader}
    {n : Nat} {before : Value} (rest : Bytes) :
    nextSingle pool nested n type type.wireType before (writeNumber type v ++ rest) =
      .ok (v, rest) := by
  have hread := h.nextNumber_writeNumber rest
  have hwire : checkWire type.wireType type.wireType = .ok () := if_pos rfl
  unfold nextSingle
  rw [hwire]
  cases h <;> exact hread

/-! ## One field after the other -/

/-- How deep messages within one that is itself within `levels` others may be nested. -/
def Nesting.within (pool : Pool) (bound levels : Nat) : Nesting :=
  ⟨levels, nestedFields pool bound levels⟩

/-- The same for messages in entries of maps. -/
def Nesting.inEntries (pool : Pool) (bound levels : Nat) : Nesting :=
  if pool.keepsUnknown then .within pool bound (levels + 1) else .within pool bound levels

theorem nestedFields_succ (pool : Pool) (bound levels : Nat) :
    nestedFields pool bound (levels + 2) =
      fieldsWith pool (.within pool bound (levels + 1)) (.inEntries pool bound levels) bound := rfl

/-- The elements that a field has before another is read. -/
def itemsBefore : Option Value → List Value
  | some (.list items) => items
  | _ => []

variable {pool : Pool} {outer entries : Nesting} {target : MessageType}

/-- Reading these bytes takes a message from one state to another, whatever follows them. -/
def Reads (pool : Pool) (outer entries : Nesting) (type : MessageType) (before : Fields)
    (s : Bytes) (after : Fields) : Prop :=
  ∀ bound ending rest, (s ++ rest).length ≤ bound → ∃ bound', rest.length ≤ bound' ∧
    fieldsWith pool outer entries bound type before ending (s ++ rest) =
      fieldsWith pool outer entries bound' type after ending rest

theorem Reads.nil (before : Fields) : Reads pool outer entries target before [] before :=
  fun bound _ _ h => ⟨bound, h, rfl⟩

theorem Reads.append {before between after : Fields} {s t : Bytes}
    (hs : Reads pool outer entries target before s between)
    (ht : Reads pool outer entries target between t after) :
    Reads pool outer entries target before (s ++ t) after := by
  intro bound ending rest hbound
  rw [List.append_assoc] at hbound ⊢
  obtain ⟨bound₁, hbound₁, hread₁⟩ := hs bound ending (t ++ rest) hbound
  obtain ⟨bound₂, hbound₂, hread₂⟩ := ht bound₁ ending rest hbound₁
  exact ⟨bound₂, hbound₂, hread₁.trans hread₂⟩

/-- What is read of a message alone. -/
theorem Reads.whole {s : Bytes} {after : Fields} {bound : Nat}
    (h : Reads pool outer entries target [] s after) (hbound : s.length ≤ bound) :
    fieldsWith pool outer entries bound target [] none s = .ok (after, []) := by
  obtain ⟨bound', _, hread⟩ := h bound none [] (by rwa [List.append_nil])
  rw [List.append_nil] at hread
  rw [hread, fieldsWith]

/-- A field that the type has is read as its content says, before the fields behind it. -/
theorem fieldsWith_known {f : FieldDef} {wire : WireType} {before : Fields} {s : Bytes}
    {bound : Nat} {ending : Option Nat} (hnumber : IsFieldNumber f.number)
    (hfield : target.field? f.number = some f) (hwire : wire ≠ .groupEnd) :
    fieldsWith pool outer entries (bound + 1) target before ending
        (writeKey f.number wire ++ s) =
      (locate pool target f
        (nextContent pool outer entries f wire (Fields.get? before f.number) s)).bind
        fun (v, rest) => fieldsWith pool outer entries bound target
          (Fields.put target f v before) ending rest := by
  obtain ⟨b, key, hkey⟩ := List.exists_cons_of_ne_nil (writeKey_ne_nil f.number wire)
  have hnext := nextKey_writeKey hnumber wire s
  rw [hkey, List.cons_append] at hnext ⊢
  rw [fieldsWith, hnext]
  simp only [bind, Except.bind, hwire, ↓reduceIte, hfield]

theorem Reads.field {f : FieldDef} {wire : WireType} {before : Fields} {s : Bytes} {v : Value}
    (hnumber : IsFieldNumber f.number) (hfield : target.field? f.number = some f)
    (hwire : wire ≠ .groupEnd)
    (hcontent : ∀ rest, nextContent pool outer entries f wire (Fields.get? before f.number)
      (s ++ rest) = .ok (v, rest)) :
    Reads pool outer entries target before (writeKey f.number wire ++ s)
      (Fields.put target f v before) := by
  intro bound ending rest hbound
  have hkey := List.length_pos_of_ne_nil (writeKey_ne_nil f.number wire)
  simp only [List.length_append] at hbound
  obtain ⟨bound, rfl⟩ : ∃ n, bound = n + 1 := ⟨bound - 1, by omega⟩
  have hlocate : locate pool target f (.ok (v, rest)) = .ok (v, rest) := by
    rw [locate]
    split <;> rfl
  refine ⟨bound, by omega, ?_⟩
  rw [List.append_assoc, fieldsWith_known hnumber hfield hwire, hcontent, hlocate]
  rfl

/-- A field that the type does not have is kept with its key. -/
theorem Reads.unknown {n : Nat} {before : Fields} {b : Bytes} (hnumber : IsFieldNumber n)
    (hfield : target.field? n = none) (hkeeps : pool.keepsUnknown = true)
    (hlength : b.length < words64) :
    Reads pool outer entries target before (writeKey n .delimited ++ delimited b)
      (keepRaw pool n (writeKey n .delimited ++ delimited b) before) := by
  intro bound ending rest hbound
  obtain ⟨c, key, hkey⟩ := List.exists_cons_of_ne_nil (writeKey_ne_nil n .delimited)
  have hnext := nextKey_writeKey hnumber .delimited (delimited b ++ rest)
  rw [List.append_assoc] at hbound ⊢
  rw [hkey, List.cons_append] at hbound hnext ⊢
  obtain ⟨bound, rfl⟩ : ∃ n, bound = n + 1 := ⟨bound - 1, by simp at hbound; omega⟩
  refine ⟨bound, by simp at hbound; omega, ?_⟩
  have hskip : skipField (!pool.keepsUnknown) n .delimited outer.depth bound
      (delimited b ++ rest) = .ok rest := by
    rw [skipField, hkeeps]
    simp only [Bool.not_true, Bool.false_eq_true, false_and, ↓reduceIte,
      nextDelimited_delimited hlength]
    rfl
  have htake : (c :: (key ++ (delimited b ++ rest))).take
      ((key ++ (delimited b ++ rest)).length + 1 - rest.length) = c :: (key ++ delimited b) := by
    rw [← List.append_assoc, ← List.cons_append]
    exact List.take_left' (by simp; omega)
  rw [fieldsWith, hnext]
  simp only [bind, Except.bind, reduceCtorEq, ↓reduceIte, hfield, hskip, htake, List.cons_append]

end RpcGateway.Proto
