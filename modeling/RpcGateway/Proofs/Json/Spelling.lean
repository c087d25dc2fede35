import RpcGateway.Proofs.Json.Grammar
import RpcGateway.Proofs.Text.Utf8

/-!
What strings spell. The text between two quotes stands for bytes in at most one way, and reading
finds them. Where these bytes are UTF-8 so is the text itself: an escape stands for whole
characters, so it cannot complete a character that was begun before it.
-/
namespace RpcGateway.Json
open Text

/-! ## Spelling -/

/-- The text of an escape after its backslash, and the bytes it stands for. -/
inductive EscapeText : Bytes → Bytes → Prop
  | letter {c d : UInt8} (hu : c ≠ 0x75) (hs : shortEscape? c = some d) : EscapeText [c] [d]
  | unit {u : Bytes} {n : Nat} (hu : IsUnit u n) (hlow : isLowSurrogate n = false)
      (hhigh : isHighSurrogate n = false) :
      EscapeText (0x75 :: u) (String.utf8EncodeChar (Char.ofNat n))
  | pair {u v : Bytes} {n m : Nat} (hu : IsUnit u n) (hv : IsUnit v m)
      (hhigh : isHighSurrogate n = true) (hlow : isLowSurrogate m = true) :
      EscapeText (0x75 :: (u ++ backslash :: 0x75 :: v)) (String.utf8EncodeChar (pairChar n m))

/-- The text between two quotes stands for bytes. -/
inductive Spells : Bytes → Bytes → Prop
  | nil : Spells [] []
  | plain {b : UInt8} {t bs : Bytes} (hq : b ≠ quote) (hb : b ≠ backslash) (hc : ¬ b < 0x20)
      (h : Spells t bs) : Spells (b :: t) (b :: bs)
  | escape {e cs t bs : Bytes} (he : EscapeText e cs) (h : Spells t bs) :
      Spells (backslash :: (e ++ t)) (cs ++ bs)

theorem escape_eq_ok_iff {s rest cs : Bytes} :
    escape s = .ok (cs, rest) ↔ ∃ e, EscapeText e cs ∧ s = e ++ rest := by
  constructor
  · intro h
    rcases escape_cases h with ⟨c, d, hc, hs, rfl, rfl⟩ | ⟨r, n, hlow, hhigh, rfl, rfl, hn⟩ |
      ⟨r, n, u, m, hhigh, hlow, hcs, rfl, hn, hm⟩
    · exact ⟨[c], .letter hc hs, rfl⟩
    · obtain ⟨u, hu, rfl⟩ := hex4_eq_ok_iff.mp hn
      exact ⟨_, .unit hu hlow hhigh, rfl⟩
    · obtain ⟨v, hv, rfl⟩ := hex4_eq_ok_iff.mp hm
      obtain ⟨u, hu, rfl⟩ := hex4_eq_ok_iff.mp hn
      rw [hcs]
      exact ⟨_, .pair hu hv hhigh hlow, by simp⟩
  · rintro ⟨e, he, rfl⟩
    cases he with
    | letter hu hs => simp only [List.singleton_append, escape, hu, if_false, hs]
    | unit hu hlow hhigh =>
      simp only [List.cons_append, escape, if_true, unicodeEscape,
        hex4_eq_ok_iff.mpr ⟨_, hu, rfl⟩, bind, Except.bind, hlow, hhigh, Bool.false_eq_true,
        if_false, pure, Except.pure]
    | @pair u v n m hu hv hhigh hlow =>
      have hnot : isLowSurrogate n = false := by
        simp only [isHighSurrogate, Bool.and_eq_true, decide_eq_true_eq] at hhigh
        simp only [isLowSurrogate, Bool.and_eq_false_iff, decide_eq_false_iff_not]
        omega
      have hv' : hex4 (v ++ rest) = .ok (m, rest) := hex4_eq_ok_iff.mpr ⟨_, hv, rfl⟩
      simp only [List.cons_append, List.append_assoc, escape, if_true, unicodeEscape,
        hex4_eq_ok_iff.mpr ⟨_, hu, rfl⟩, bind, Except.bind, hnot, hhigh, Bool.false_eq_true,
        if_false, expectByte, hv', hlow, pure, Except.pure, pairChar]

/-- Whatever reading makes of the bytes before the closing quote is what they spell. -/
theorem spells_of_stringBytes {fuel : Nat} {acc s bs rest : Bytes}
    (h : stringBytes fuel acc s = .ok (bs, rest)) :
    ∃ t cs, Spells t cs ∧ bs = acc.reverse ++ cs ∧ s = t ++ quote :: rest := by
  induction fuel generalizing acc s with
  | zero => cases h
  | succ fuel ih =>
    cases s with
    | nil => cases h
    | cons b s =>
      simp only [stringBytes] at h
      split at h
      · next hq =>
        cases h
        exact ⟨[], [], .nil, by simp, by rw [hq, List.nil_append]⟩
      next hq =>
      split at h
      · next hb =>
        subst hb
        split at h
        · next cs s he =>
          obtain ⟨e, hescape, rfl⟩ := escape_eq_ok_iff.mp he
          obtain ⟨t, ds, ht, rfl, rfl⟩ := ih h
          exact ⟨_, _, .escape hescape ht, by simp, by simp⟩
        · cases h
      next hb =>
      split at h
      · cases h
      · next hc =>
        obtain ⟨t, ds, ht, rfl, rfl⟩ := ih h
        exact ⟨_, _, .plain hq hb hc ht, by simp, rfl⟩

theorem stringBytes_of_spells {t cs : Bytes} (h : Spells t cs) (acc rest : Bytes) {fuel : Nat}
    (hf : t.length < fuel) :
    stringBytes fuel acc (t ++ quote :: rest) = .ok (acc.reverse ++ cs, rest) := by
  induction h generalizing acc fuel with
  | nil =>
    obtain ⟨fuel, rfl⟩ := Nat.exists_eq_add_of_lt hf
    simp [stringBytes]
  | plain hq hb hc _ ih =>
    rw [List.length_cons] at hf
    obtain ⟨fuel, rfl⟩ : ∃ k, fuel = k + 1 := ⟨fuel - 1, by omega⟩
    simp only [List.cons_append, stringBytes, hq, hb, hc, if_false]
    rw [ih _ (by omega)]
    simp
  | @escape e cs t bs he _ ih =>
    rw [List.length_cons, List.length_append] at hf
    obtain ⟨fuel, rfl⟩ : ∃ k, fuel = k + 1 := ⟨fuel - 1, by omega⟩
    have hq : backslash ≠ quote := by decide
    have hread : escape (e ++ (t ++ quote :: rest)) = .ok (cs, t ++ quote :: rest) :=
      escape_eq_ok_iff.mpr ⟨e, he, rfl⟩
    simp only [List.cons_append, List.append_assoc, stringBytes, hq, hread, if_true, if_false]
    rw [ih _ (by omega)]
    simp

theorem Spells.rawText {t cs : Bytes} (h : Spells t cs) : RawText t := by
  induction h with
  | nil => exact .nil
  | plain hq hb hc _ ih => exact .plain hq hb hc ih
  | escape he _ ih =>
    cases he with
    | letter hu hs => exact .letter hu (by rw [hs]; rfl) ih
    | unit hu => exact .unit hu ih
    | pair hu hv =>
      have htext := RawText.unit hu (.unit hv ih)
      simpa using htext

/-- What is read as a string spells it. -/
theorem spells_of_string {bound : Nat} {s rest : Bytes} {k : String}
    (h : string bound s = .ok (k, rest)) : ∃ t, Spells t (utf8 k) ∧ s = t ++ quote :: rest := by
  unfold string at h
  split at h
  · next bs s' hbytes =>
    split at h
    · next k' hk =>
      cases h
      obtain ⟨t, cs, ht, hcs, rfl⟩ := spells_of_stringBytes hbytes
      rw [List.reverse_nil, List.nil_append] at hcs
      subst hcs
      exact ⟨t, eq_utf8_of_ofUtf8? hk ▸ ht, rfl⟩
    · cases h
  · cases h

theorem string_of_spells {bound : Nat} {t : Bytes} {k : String} (ht : Spells t (utf8 k))
    (rest : Bytes) (hl : t.length ≤ bound) :
    string bound (t ++ quote :: rest) = .ok (k, rest) := by
  rw [string, stringBytes_of_spells ht [] rest (Nat.lt_succ_of_le hl)]
  simp only [List.reverse_nil, List.nil_append, ofUtf8?_utf8]

/-! ## Texts in UTF-8 -/

theorem ascii_of_isUnit {u : Bytes} {n : Nat} (h : IsUnit u n) : ∀ b ∈ u, b < 0x80 := by
  have hdigit : ∀ {b : UInt8} {k : Nat}, Text.Percent.hexValue? b = some k → b < 0x80 := by
    intro b k hb
    have hall : ∀ n < 256, 128 ≤ n → Text.Percent.hexValue? (UInt8.ofNat n) = none := by
      decide +kernel
    refine UInt8.not_le.mp fun hle => ?_
    have hnone := hall b.toNat b.toNat_lt hle
    rw [UInt8.ofNat_toNat, hb] at hnone
    cases hnone
  unfold IsUnit hex4 at h
  split at h
  · split at h
    · next hi hj hk hl =>
      obtain ⟨-, rfl⟩ := Prod.mk.inj (Except.ok.inj h)
      simp [hdigit hi, hdigit hj, hdigit hk, hdigit hl]
    · cases h
  · cases h

/-- An escape is ASCII and stands for one character. -/
theorem EscapeText.exists_char {e cs : Bytes} (h : EscapeText e cs) :
    (∃ c, cs = String.utf8EncodeChar c) ∧ ∀ b ∈ e, b < 0x80 := by
  cases h with
  | @letter c d hu hs =>
    have hall : ∀ n < 256, ∀ d, shortEscape? (UInt8.ofNat n) = some d →
        UInt8.ofNat n < 0x80 ∧ d < 0x80 := by
      intro n _ d
      unfold shortEscape?
      split_ifs with h₁ h₂ h₃ h₄ h₅ h₆ h₇ h₈ <;> intro hd <;> cases hd <;> simp_all <;> decide
    have hc := hall c.toNat c.toNat_lt d (by rwa [UInt8.ofNat_toNat])
    rw [UInt8.ofNat_toNat] at hc
    exact ⟨⟨_, (utf8EncodeChar_of_ascii hc.2).symm⟩, List.forall_mem_singleton.mpr hc.1⟩
  | unit hu => exact ⟨⟨_, rfl⟩, List.forall_mem_cons.mpr ⟨by decide, ascii_of_isUnit hu⟩⟩
  | pair hu hv =>
    refine ⟨⟨_, rfl⟩, List.forall_mem_cons.mpr ⟨by decide, fun b hb => ?_⟩⟩
    rcases List.mem_append.mp hb with hb | hb
    · exact ascii_of_isUnit hu b hb
    · rcases List.mem_cons.mp hb with rfl | hb
      · decide
      rcases List.mem_cons.mp hb with rfl | hb
      · decide
      · exact ascii_of_isUnit hv b hb

/-- The bytes inside of a character are spelled as they are. -/
theorem Spells.drop_inner {t ds bs : Bytes} (hd : ∀ d ∈ ds, isInner d = true)
    (h : Spells t (ds ++ bs)) : ∃ t', t = ds ++ t' ∧ Spells t' bs := by
  induction ds generalizing t with
  | nil => exact ⟨t, rfl, h⟩
  | cons d ds ih =>
    obtain ⟨hinner, hds⟩ := List.forall_mem_cons.mp hd
    rw [List.cons_append] at h
    generalize hcs : d :: (ds ++ bs) = cs at h
    cases h with
    | nil => cases hcs
    | plain hq hb hc h =>
      cases hcs
      obtain ⟨t', rfl, ht'⟩ := ih hds h
      exact ⟨t', rfl, ht'⟩
    | escape he h =>
      obtain ⟨⟨c, rfl⟩, -⟩ := he.exists_char
      obtain ⟨b, bs', hchar, houter, -⟩ := exists_utf8EncodeChar c
      rw [hchar, List.cons_append] at hcs
      rw [(List.cons.inj hcs).1, houter] at hinner
      cases hinner

theorem isUtf8_of_spells_chars {cs : List Char} {t : Bytes}
    (h : Spells t (cs.flatMap String.utf8EncodeChar)) : IsUtf8 t := by
  induction cs generalizing t with
  | nil =>
    generalize hbs : ([] : List Char).flatMap String.utf8EncodeChar = bs at h
    cases h with
    | nil => exact isUtf8_of_ascii (List.forall_mem_nil _)
    | plain => cases hbs
    | escape he =>
      obtain ⟨⟨c, rfl⟩, -⟩ := he.exists_char
      obtain ⟨b, bs', hchar, -⟩ := exists_utf8EncodeChar c
      rw [hchar] at hbs
      cases hbs
  | cons c cs ih =>
    rw [List.flatMap_cons] at h
    generalize hbs : String.utf8EncodeChar c ++ cs.flatMap String.utf8EncodeChar = bs at h
    cases h with
    | nil =>
      obtain ⟨b, bs', hchar, -⟩ := exists_utf8EncodeChar c
      rw [hchar] at hbs
      cases hbs
    | plain hq hb hc h =>
      obtain ⟨b, ds, hchar, -, hinner, -⟩ := exists_utf8EncodeChar c
      rw [hchar, List.cons_append] at hbs
      cases hbs
      obtain ⟨t', rfl, ht'⟩ := h.drop_inner hinner
      rw [← List.cons_append, ← hchar]
      exact (isUtf8_char c).append (ih ht')
    | escape he h =>
      obtain ⟨⟨c', rfl⟩, hascii⟩ := he.exists_char
      obtain ⟨rfl, rfl⟩ := utf8EncodeChar_append_inj hbs
      exact .cons (by decide) ((isUtf8_of_ascii hascii).append (ih h))

theorem isUtf8_of_spells {t : Bytes} {k : String} (h : Spells t (utf8 k)) : IsUtf8 t := by
  rw [utf8_eq_flatMap] at h
  exact isUtf8_of_spells_chars h

end RpcGateway.Json
