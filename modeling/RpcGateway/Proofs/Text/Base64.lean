import RpcGateway.Text.Base64

/-!
Base 64 is ASCII and is read back. What is encoded decodes to the bytes that it came from.
-/
namespace RpcGateway.Text.Base64

/-! ## Symbols -/

/-- A symbol of the standard alphabet has its value there, and it is no padding. -/
structure IsSymbol (s : UInt8) (v : Nat) : Prop where
  value : standard.value? s = some v
  not_pad : s ≠ pad
  ascii : s < 0x80

instance (s : UInt8) (v : Nat) : Decidable (IsSymbol s v) :=
  decidable_of_iff (standard.value? s = some v ∧ s ≠ pad ∧ s < 0x80)
    ⟨fun ⟨h, h', h''⟩ => ⟨h, h', h''⟩, fun ⟨h, h', h''⟩ => ⟨h, h', h''⟩⟩

theorem isSymbol_symbol {v : Nat} (h : v < 64) : IsSymbol (standard.symbol v) v := by
  have hall : ∀ v : Fin 64, IsSymbol (standard.symbol v) v := by decide
  exact hall ⟨v, h⟩

theorem mapM_value?_symbols {vs : List Nat} (h : ∀ v ∈ vs, v < 64) :
    (vs.map standard.symbol).mapM standard.value? = some vs := by
  induction vs with
  | nil => rfl
  | cons v vs ih =>
    obtain ⟨hv, hvs⟩ := List.forall_mem_cons.mp h
    rw [List.map_cons, List.mapM_cons, (isSymbol_symbol hv).value, ih hvs]
    rfl

/-- The last group, with the padding that fills it. -/
theorem lastGroup_symbols {vs : List Nat} (h : ∀ v ∈ vs, v < 64) (n : Nat) :
    lastGroup standard (vs.map standard.symbol ++ List.replicate n pad) = group vs := by
  have hsymbols : (vs.map standard.symbol ++ List.replicate n pad).takeWhile (· ≠ pad) =
      vs.map standard.symbol := by
    rw [List.takeWhile_append_of_pos]
    · cases n with
      | zero => exact List.append_nil _
      | succ n => simp [List.replicate_succ]
    · intro s hs
      obtain ⟨v, hv, rfl⟩ := List.mem_map.mp hs
      exact decide_eq_true (isSymbol_symbol (h v hv)).not_pad
  have hrest : (List.replicate n pad).all (· = pad) = true := by simp
  unfold lastGroup
  dsimp only
  rw [hsymbols, List.drop_left, hrest, mapM_value?_symbols h]
  rfl

/-! ## Groups -/

theorem toUInt8_of_mod {n : Nat} {x : UInt8} (h : n % 256 = x.toNat) : n.toUInt8 = x :=
  UInt8.toNat_inj.mp h

/-- The two values of one byte. -/
def valuesOfOne (x : UInt8) : List Nat :=
  let n := x.toNat * 16
  [n / 64, n % 64]

theorem valuesOfOne_lt (x : UInt8) : ∀ v ∈ valuesOfOne x, v < 64 := by
  have hx := x.toNat_lt
  simp only [valuesOfOne, List.forall_mem_cons, List.not_mem_nil, false_implies, implies_true,
    and_true]
  omega

theorem group_valuesOfOne (x : UInt8) : group (valuesOfOne x) = some [x] := by
  have hx := x.toNat_lt
  simp only [valuesOfOne, group]
  rw [toUInt8_of_mod (x := x) (by omega)]

/-- The three values of two bytes. -/
def valuesOfTwo (x y : UInt8) : List Nat :=
  let n := (x.toNat * 256 + y.toNat) * 4
  [n / 4096, n / 64 % 64, n % 64]

theorem valuesOfTwo_lt (x y : UInt8) : ∀ v ∈ valuesOfTwo x y, v < 64 := by
  have hx := x.toNat_lt
  have hy := y.toNat_lt
  simp only [valuesOfTwo, List.forall_mem_cons, List.not_mem_nil, false_implies, implies_true,
    and_true]
  omega

theorem group_valuesOfTwo (x y : UInt8) : group (valuesOfTwo x y) = some [x, y] := by
  have hx := x.toNat_lt
  have hy := y.toNat_lt
  simp only [valuesOfTwo, group]
  rw [toUInt8_of_mod (x := x) (by omega), toUInt8_of_mod (x := y) (by omega)]

/-- The four values of three bytes. -/
def valuesOfThree (x y z : UInt8) : List Nat :=
  let n := (x.toNat * 256 + y.toNat) * 256 + z.toNat
  [n / 262144, n / 4096 % 64, n / 64 % 64, n % 64]

theorem valuesOfThree_lt (x y z : UInt8) : ∀ v ∈ valuesOfThree x y z, v < 64 := by
  have hx := x.toNat_lt
  have hy := y.toNat_lt
  have hz := z.toNat_lt
  simp only [valuesOfThree, List.forall_mem_cons, List.not_mem_nil, false_implies, implies_true,
    and_true]
  omega

theorem group_valuesOfThree (x y z : UInt8) : group (valuesOfThree x y z) = some [x, y, z] := by
  have hx := x.toNat_lt
  have hy := y.toNat_lt
  have hz := z.toNat_lt
  simp only [valuesOfThree, group]
  rw [toUInt8_of_mod (x := x) (by omega), toUInt8_of_mod (x := y) (by omega),
    toUInt8_of_mod (x := z) (by omega)]

theorem encode_of_three (x y z : UInt8) (rest : Bytes) :
    encode (x :: y :: z :: rest) = (valuesOfThree x y z).map standard.symbol ++ encode rest := rfl

theorem encode_eq_nil {b : Bytes} (h : encode b = []) : b = [] := by
  unfold encode at h
  split at h
  · rfl
  all_goals cases h

/-- A group that is not the last. -/
theorem decodeWith_group {a : Alphabet} {p q r s : UInt8} {vs : List Nat} {first : Bytes}
    (hvalues : [p, q, r, s].mapM a.value? = some vs) (hgroup : group vs = some first) (t : UInt8)
    (rest : Bytes) :
    decodeWith a (p :: q :: r :: s :: t :: rest) =
      (decodeWith a (t :: rest)).map (first ++ ·) := by
  rw [decodeWith, hvalues]
  simp only [Option.bind_eq_bind, Option.bind_some, hgroup]
  cases decodeWith a (t :: rest) <;> rfl

theorem decode_three (x y z : UInt8) {rest : Bytes} (hrest : rest ≠ []) :
    decodeWith standard (encode (x :: y :: z :: rest)) =
      (decodeWith standard (encode rest)).map ([x, y, z] ++ ·) := by
  cases h : encode rest with
  | nil => exact absurd (encode_eq_nil h) hrest
  | cons s more =>
    rw [encode_of_three, h]
    exact decodeWith_group (mapM_value?_symbols (valuesOfThree_lt x y z))
      (group_valuesOfThree x y z) s more

theorem decodeWith_encode (b : Bytes) : decodeWith standard (encode b) = some b := by
  induction b using encode.induct with
  | case1 => rfl
  | case2 x => exact (lastGroup_symbols (valuesOfOne_lt x) 2).trans (group_valuesOfOne x)
  | case3 x y => exact (lastGroup_symbols (valuesOfTwo_lt x y) 1).trans (group_valuesOfTwo x y)
  | case4 x y z rest ih =>
    cases rest with
    | nil => exact (lastGroup_symbols (valuesOfThree_lt x y z) 0).trans (group_valuesOfThree x y z)
    | cons w rest => rw [decode_three x y z (List.cons_ne_nil w rest), ih]; rfl

/-- Decoding undoes encoding. -/
theorem decode_encode (b : Bytes) : decode (encode b) = some b := by
  rw [decode, decodeWith_encode]
  rfl

theorem encode_injective : Function.Injective encode := by
  intro b c h
  have hdecode := congrArg decode h
  rwa [decode_encode, decode_encode, Option.some_inj] at hdecode

/-! ## Characters -/

theorem ascii_symbols {vs : List Nat} (h : ∀ v ∈ vs, v < 64) :
    ∀ s ∈ vs.map standard.symbol, s < 0x80 := by
  intro s hs
  obtain ⟨v, hv, rfl⟩ := List.mem_map.mp hs
  exact (isSymbol_symbol (h v hv)).ascii

theorem ascii_encode (b : Bytes) : ∀ s ∈ encode b, s < 0x80 := by
  have hpad : ∀ n, ∀ s ∈ List.replicate n pad, s < 0x80 := by
    intro n s hs
    rw [List.eq_of_mem_replicate hs]
    decide
  induction b using encode.induct with
  | case1 => exact fun s hs => absurd hs List.not_mem_nil
  | case2 x =>
    exact List.forall_mem_append.mpr ⟨ascii_symbols (valuesOfOne_lt x), hpad 2⟩
  | case3 x y =>
    exact List.forall_mem_append.mpr ⟨ascii_symbols (valuesOfTwo_lt x y), hpad 1⟩
  | case4 x y z rest ih =>
    exact List.forall_mem_append.mpr ⟨ascii_symbols (valuesOfThree_lt x y z), ih⟩

end RpcGateway.Text.Base64
