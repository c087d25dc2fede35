import RpcGateway.Json.Reader
import RpcGateway.Proofs.Collections

/-!
Tokens that are read and tokens that are skipped. A string or a number that is read ends where it
would end if it were skipped: reading decides more, but it does not consume more.
-/
namespace RpcGateway.Json

/-! ## Blanks, words and single bytes -/

theorem length_skipBlank_le (s : Bytes) : (skipBlank s).length ≤ s.length :=
  (List.dropWhile_sublist _).length_le

theorem length_lt_of_skipBlank {s r : Bytes} {b : UInt8} (h : skipBlank s = b :: r) :
    r.length < s.length := by
  have hle := length_skipBlank_le s
  rwa [h] at hle

theorem skipBlank_of_not_blank {b : UInt8} (r : Bytes) (hb : isBlank b = false) :
    skipBlank (b :: r) = b :: r :=
  List.dropWhile_cons_of_neg (by simp [hb])

/-- What follows blanks does not begin with one. -/
theorem skipBlank_skipBlank (s : Bytes) : skipBlank (skipBlank s) = skipBlank s := by
  induction s with
  | nil => rfl
  | cons b s ih =>
    by_cases hb : isBlank b
    · have hs : skipBlank (b :: s) = skipBlank s := List.dropWhile_cons_of_pos hb
      rw [hs, ih]
    · have hs := skipBlank_of_not_blank s (by simpa using hb)
      rw [hs, hs]

theorem eq_append_of_word {w s rest : Bytes} (h : word w s = .ok rest) : s = w ++ rest := by
  induction w generalizing s with
  | nil =>
    cases h
    rfl
  | cons b w ih =>
    cases s with
    | nil => cases h
    | cons c s =>
      simp only [word] at h
      split at h
      · next hc => rw [hc, List.cons_append, ← ih h]
      · cases h

theorem eq_cons_of_expectByte {b : UInt8} {s rest : Bytes} (h : expectByte b s = .ok rest) :
    s = b :: rest := by
  cases s with
  | nil => cases h
  | cons c s =>
    simp only [expectByte] at h
    split at h
    · next hc =>
      cases h
      rw [hc]
    · cases h

theorem length_of_afterColon {s rest : Bytes} (h : afterColon s = .ok rest) :
    rest.length < s.length :=
  length_lt_of_skipBlank (eq_cons_of_expectByte h)

theorem length_of_hex4 {s rest : Bytes} {n : Nat} (h : hex4 s = .ok (n, rest)) :
    s.length = rest.length + 4 := by
  unfold hex4 at h
  split at h
  · split at h
    · cases h
      rfl
    · cases h
  · cases h

/-- The character that a pair of surrogates stands for. -/
def pairChar (n m : Nat) : Char := Char.ofNat (0x10000 + (n - 0xD800) * 0x400 + (m - 0xDC00))

/-- The three forms of an escape: one letter, one unit, and a pair of surrogates. -/
theorem escape_cases {s rest bs : Bytes} (h : escape s = .ok (bs, rest)) :
    (∃ c d, c ≠ 0x75 ∧ shortEscape? c = some d ∧ bs = [d] ∧ s = c :: rest) ∨
    (∃ r n, isLowSurrogate n = false ∧ isHighSurrogate n = false ∧
      bs = String.utf8EncodeChar (Char.ofNat n) ∧ s = 0x75 :: r ∧ hex4 r = .ok (n, rest)) ∨
    (∃ r n u m, isHighSurrogate n = true ∧ isLowSurrogate m = true ∧
      bs = String.utf8EncodeChar (pairChar n m) ∧ s = 0x75 :: r ∧
      hex4 r = .ok (n, backslash :: 0x75 :: u) ∧ hex4 u = .ok (m, rest)) := by
  cases s with
  | nil => cases h
  | cons c r =>
    by_cases hc : c = 0x75
    · subst hc
      refine .inr ?_
      simp only [escape, if_true] at h
      obtain ⟨⟨n, t⟩, hn, h⟩ := exists_of_bind_eq_ok h
      dsimp only at h
      split at h
      · cases h
      next hlow =>
      split at h
      · next hhigh =>
        obtain ⟨t₁, ht₁, h⟩ := exists_of_bind_eq_ok h
        obtain ⟨t₂, ht₂, h⟩ := exists_of_bind_eq_ok h
        obtain ⟨⟨m, t₃⟩, hm, h⟩ := exists_of_bind_eq_ok h
        dsimp only at h
        split at h
        · next hlow' =>
          obtain ⟨rfl, rfl⟩ := Prod.mk.inj (Except.ok.inj h)
          refine .inr ⟨r, n, t₂, m, hhigh, hlow', rfl, rfl, ?_, hm⟩
          rw [hn, eq_cons_of_expectByte ht₁, eq_cons_of_expectByte ht₂]
        · cases h
      · next hhigh =>
        obtain ⟨rfl, rfl⟩ := Prod.mk.inj (Except.ok.inj h)
        exact .inl ⟨r, n, by simpa using hlow, by simpa using hhigh, rfl, rfl, hn⟩
    · simp only [escape, hc, if_false] at h
      cases he : shortEscape? c with
      | none => simp [he] at h
      | some d =>
        simp only [he] at h
        cases h
        exact .inl ⟨c, d, hc, he, rfl, rfl⟩

theorem skipString_quote (n : Nat) (s : Bytes) : skipString (n + 1) (quote :: s) = .ok s := rfl

theorem skipString_letter (n : Nat) {c : UInt8} (s : Bytes) (hc : c ≠ 0x75)
    (hs : (shortEscape? c).isSome) :
    skipString (n + 1) (backslash :: c :: s) = skipString n s := by
  have hq : backslash ≠ quote := by decide
  simp only [skipString, hq, hc, hs, if_true, if_false]

theorem skipString_unit (n : Nat) {u : Nat} {s rest : Bytes} (h : hex4 s = .ok (u, rest)) :
    skipString (n + 1) (backslash :: 0x75 :: s) = skipString n rest := by
  have hq : backslash ≠ quote := by decide
  simp only [skipString, hq, h, if_true, if_false]

theorem skipString_plain (n : Nat) {b : UInt8} (s : Bytes) (hq : b ≠ quote) (hb : b ≠ backslash)
    (hc : ¬ b < 0x20) : skipString (n + 1) (b :: s) = skipString n s := by
  simp only [skipString, hq, hb, hc, if_false]

/-- Skipping passes over an escape that is read: in two rounds over a pair of surrogates, in one over
any other character. -/
theorem skipString_escape {s bs t rest : Bytes} (h : escape s = .ok (bs, t))
    (hskip : ∀ n, t.length ≤ n → skipString n t = .ok rest) :
    t.length < s.length ∧ ∀ n, s.length < n → skipString n (backslash :: s) = .ok rest := by
  rcases escape_cases h with
    ⟨c, d, hc, hs, -, rfl⟩ | ⟨r, u, -, -, -, rfl, hu⟩ | ⟨r, u, r', v, -, -, -, rfl, hu, hv⟩
  · rw [List.length_cons]
    refine ⟨by omega, fun n hn => ?_⟩
    obtain ⟨n, rfl⟩ : ∃ k, n = k + 1 := ⟨n - 1, by omega⟩
    rw [skipString_letter n t hc (by rw [hs]; rfl), hskip n (by omega)]
  · have hlu := length_of_hex4 hu
    rw [List.length_cons]
    refine ⟨by omega, fun n hn => ?_⟩
    obtain ⟨n, rfl⟩ : ∃ k, n = k + 1 := ⟨n - 1, by omega⟩
    rw [skipString_unit n hu, hskip n (by omega)]
  · have hlu := length_of_hex4 hu
    have hlv := length_of_hex4 hv
    simp only [List.length_cons] at hlu ⊢
    refine ⟨by omega, fun n hn => ?_⟩
    obtain ⟨n, rfl⟩ : ∃ k, n = k + 2 := ⟨n - 2, by omega⟩
    rw [skipString_unit (n + 1) hu, skipString_unit n hv, hskip n (by omega)]

/-- Skipping takes at most one round a byte. -/
theorem skipString_of_stringBytes {fuel : Nat} {acc s bs rest : Bytes}
    (h : stringBytes fuel acc s = .ok (bs, rest)) :
    rest.length < s.length ∧ ∀ n, s.length ≤ n → skipString n s = .ok rest := by
  induction fuel generalizing acc s with
  | zero => cases h
  | succ fuel ih =>
    cases s with
    | nil => cases h
    | cons b s =>
      simp only [stringBytes] at h
      rw [List.length_cons]
      split at h
      · next hq =>
        cases h
        refine ⟨by omega, fun n hn => ?_⟩
        obtain ⟨n, rfl⟩ := Nat.exists_eq_add_of_le' hn
        rw [← Nat.add_assoc, hq, skipString_quote]
      split at h
      · next hb =>
        subst hb
        split at h
        · next es t he =>
          obtain ⟨hl, hskip⟩ := ih h
          obtain ⟨hlt, hescape⟩ := skipString_escape he hskip
          exact ⟨by omega, hescape⟩
        · cases h
      split at h
      · cases h
      · next hq hb hc =>
        obtain ⟨hl, hskip⟩ := ih h
        refine ⟨by omega, fun n hn => ?_⟩
        obtain ⟨n, rfl⟩ : ∃ k, n = k + 1 := ⟨n - 1, by omega⟩
        rw [skipString_plain n s hq hb hc, hskip n (by omega)]

theorem skipString_of_string {bound : Nat} {s rest : Bytes} {t : String}
    (h : string bound s = .ok (t, rest)) (hs : s.length ≤ bound) :
    rest.length < s.length ∧ skipString (bound + 1) s = .ok rest := by
  unfold string at h
  cases hb : stringBytes (bound + 1) [] s with
  | error e => simp [hb] at h
  | ok p =>
    obtain ⟨bs, r⟩ := p
    simp only [hb] at h
    split at h
    · cases h
      obtain ⟨hl, hskip⟩ := skipString_of_stringBytes hb
      exact ⟨hl, hskip _ (by omega)⟩
    · cases h

theorem rest_of_scaled {negative : Bool} {n : Nat} {e : Int} {s rest : Bytes} {v : Json}
    (h : scaled negative n e s = .ok (v, rest)) : rest = s := by
  unfold scaled at h
  split at h
  · cases h
    rfl
  · cases h

theorem skipDigits_of_cons {d : UInt8} (s : Bytes) (hd : isDigit d) :
    skipDigits (d :: s) = .ok ((d :: s).dropWhile isDigit) := if_pos hd

theorem length_dropWhile_digits {d : UInt8} (s : Bytes) (hd : isDigit d) :
    ((d :: s).dropWhile isDigit).length < (d :: s).length := by
  rw [List.dropWhile_cons_of_pos hd]
  exact Nat.lt_succ_of_le (List.dropWhile_sublist _).length_le

/-- An exponent without its letter: an optional sign and digits up to the rest. -/
inductive ExponentEnds (rest : Bytes) : Bytes → Prop
  | signed {sign d : UInt8} {s : Bytes} (hs : sign = 0x2B ∨ sign = 0x2D) (hd : isDigit d)
      (hr : (d :: s).dropWhile isDigit = rest) : ExponentEnds rest (sign :: d :: s)
  | plain {d : UInt8} {s : Bytes} (hd : isDigit d) (hr : (d :: s).dropWhile isDigit = rest) :
      ExponentEnds rest (d :: s)

theorem exponentEnds_of_exponent {negative : Bool} {n : Nat} {e : Int} {s rest : Bytes} {v : Json}
    (h : exponent negative n e s = .ok (v, rest)) : ExponentEnds rest s := by
  unfold exponent at h
  split at h
  next down t heq =>
  split at h
  · cases h
  next d t' =>
  split at h
  · cases h
  next hd =>
  have hd : isDigit d = true := by simpa using hd
  have hr : (d :: t').dropWhile isDigit = rest := by
    dsimp only at h
    split at h
    · split at h
      · cases h
      · cases h
        rfl
    · exact (rest_of_scaled h).symm
  split at heq
  · cases heq
    exact .signed (.inl rfl) hd hr
  · cases heq
    exact .signed (.inr rfl) hd hr
  · cases heq
    exact .plain hd hr

theorem skipExponent_of_ends {s rest : Bytes} {letter : UInt8} (h : ExponentEnds rest s)
    (hl : letter = 0x65 ∨ letter = 0x45) : skipExponent (letter :: s) = .ok rest := by
  cases h with
  | signed hs hd hr =>
    rcases hl with rfl | rfl <;> rcases hs with rfl | rfl <;>
      exact (skipDigits_of_cons _ hd).trans (congrArg _ hr)
  | @plain d s hd hr =>
    have hplus : d ≠ 0x2B := by rintro rfl; exact absurd hd (by decide)
    have hminus : d ≠ 0x2D := by rintro rfl; exact absurd hd (by decide)
    have hskip := (skipDigits_of_cons s hd).trans (congrArg _ hr)
    rcases hl with rfl | rfl <;> simpa [skipExponent, hplus, hminus] using hskip

theorem ExponentEnds.length_lt {s rest : Bytes} (h : ExponentEnds rest s) :
    rest.length < s.length := by
  cases h with
  | @signed sign d s hs hd hr =>
    have hl := length_dropWhile_digits s hd
    rw [hr] at hl
    exact Nat.lt_succ_of_lt hl
  | plain hd hr => exact hr ▸ length_dropWhile_digits _ hd

theorem skipExponent_of_exponent {negative : Bool} {n : Nat} {e : Int} {s rest : Bytes} {v : Json}
    {letter : UInt8} (h : exponent negative n e s = .ok (v, rest))
    (hl : letter = 0x65 ∨ letter = 0x45) :
    skipExponent (letter :: s) = .ok rest ∧ rest.length < (letter :: s).length := by
  have he := exponentEnds_of_exponent h
  exact ⟨skipExponent_of_ends he hl, Nat.lt_succ_of_lt he.length_lt⟩

/-- After the digits of a number: an exponent, or nothing that could begin one. -/
theorem skipExponent_of_other {s : Bytes} (h : ∀ r, s ≠ 0x65 :: r) (h' : ∀ r, s ≠ 0x45 :: r) :
    skipExponent s = .ok s := by
  unfold skipExponent
  split
  · next r => exact absurd rfl (h _)
  · next r => exact absurd rfl (h' _)
  · next r => exact absurd rfl (h _)
  · next r => exact absurd rfl (h' _)
  · next r => exact absurd rfl (h _)
  · next r => exact absurd rfl (h' _)
  · rfl

theorem skip_of_fraction {negative : Bool} {n : Nat} {e : Int} {s rest : Bytes} {v : Json}
    (h : fraction negative n e s = .ok (v, rest)) :
    (skipDigits s >>= skipExponent) = .ok rest ∧ rest.length < s.length := by
  cases s with
  | nil => cases h
  | cons d s =>
    by_cases hd : isDigit d
    · have hl := length_dropWhile_digits s hd
      have htake : ((d :: s).takeWhile isDigit).isEmpty = false := by
        rw [List.takeWhile_cons_of_pos hd]
        rfl
      simp only [fraction, htake] at h
      simp only [skipDigits_of_cons s hd]
      generalize (d :: s).dropWhile isDigit = t at h hl
      change skipExponent t = .ok rest ∧ _
      split at h
      · cases h
      split at h
      · obtain ⟨hs, hlt⟩ := skipExponent_of_exponent h (.inl rfl)
        exact ⟨hs, Nat.lt_trans hlt hl⟩
      · obtain ⟨hs, hlt⟩ := skipExponent_of_exponent h (.inr rfl)
        exact ⟨hs, Nat.lt_trans hlt hl⟩
      · next h65 h45 =>
        obtain rfl := rest_of_scaled h
        exact ⟨skipExponent_of_other h65 h45, hl⟩
    · have htake : ((d :: s).takeWhile isDigit).isEmpty = true := by
        rw [List.takeWhile_cons_of_neg hd]
        rfl
      simp [fraction, htake] at h

theorem skipNumber_of_number {negative : Bool} {s rest : Bytes} {v : Json}
    (h : number negative s = .ok (v, rest)) :
    skipNumber s = .ok rest ∧ rest.length < s.length := by
  unfold number at h
  split at h
  · cases h
  next d s =>
  split at h
  · cases h
  next hd =>
  have hd : isDigit d = true := by simpa using hd
  have hl := length_dropWhile_digits s hd
  dsimp only at h
  split at h
  · cases h
  next hzero =>
  simp only [skipNumber, hd, hzero, Bool.not_true, Bool.false_eq_true, if_false]
  generalize (d :: s).dropWhile isDigit = t at h hl
  split at h
  · obtain ⟨hs, hf⟩ := skip_of_fraction h
    exact ⟨hs, Nat.lt_trans (Nat.lt_succ_of_lt hf) hl⟩
  · obtain ⟨hs, hlt⟩ := skipExponent_of_exponent h (.inl rfl)
    exact ⟨hs, Nat.lt_trans hlt hl⟩
  · obtain ⟨hs, hlt⟩ := skipExponent_of_exponent h (.inr rfl)
    exact ⟨hs, Nat.lt_trans hlt hl⟩
  · next hpoint h65 h45 =>
    have hr : rest = t := by
      split at h
      · cases h
        rfl
      · exact rest_of_scaled h
    subst hr
    split
    · next r => exact absurd rfl (hpoint r)
    · exact ⟨skipExponent_of_other h65 h45, hl⟩

/-! ## Lengths -/

variable {bound : Nat} {s r rest : Bytes} {b : UInt8}

theorem length_of_skipString {fuel : Nat} (h : skipString fuel s = .ok rest) :
    rest.length < s.length := by
  induction fuel generalizing s with
  | zero => cases h
  | succ fuel ih =>
    cases s with
    | nil => cases h
    | cons b s =>
      rw [List.length_cons]
      simp only [skipString] at h
      split at h
      · cases h
        omega
      split at h
      · split at h
        · cases h
        next c r =>
        rw [List.length_cons]
        split at h
        · split at h
          · next n t hu =>
            have hlu := length_of_hex4 hu
            have := ih h
            omega
          · cases h
        split at h
        · have := ih h
          omega
        · cases h
      split at h
      · cases h
      · have := ih h
        omega

theorem length_of_skipDigits (h : skipDigits s = .ok rest) : rest.length < s.length := by
  unfold skipDigits at h
  split at h
  · cases h
  · split at h
    · next hd =>
      cases h
      exact length_dropWhile_digits _ hd
    · cases h

theorem length_of_skipExponent (h : skipExponent s = .ok rest) : rest.length ≤ s.length := by
  -- Every case with a letter ends with digits.
  have hd : ∀ {t}, skipDigits t = .ok rest → ∀ x y, rest.length ≤ (x :: y :: t).length ∧
      rest.length ≤ (x :: t).length := by
    intro t ht x y
    have hlt := length_of_skipDigits ht
    simp only [List.length_cons]
    omega
  unfold skipExponent at h
  split at h
  · exact (hd h _ _).1
  · exact (hd h _ _).1
  · exact (hd h _ _).1
  · exact (hd h _ _).1
  · exact (hd h 0 0).2
  · exact (hd h 0 0).2
  · cases h
    exact Nat.le_refl _

theorem length_of_skipNumber (h : skipNumber s = .ok rest) : rest.length < s.length := by
  unfold skipNumber at h
  split at h
  · cases h
  next d t =>
  split at h
  · cases h
  next hd =>
  have hl := length_dropWhile_digits t (by simpa using hd : isDigit d = true)
  split at h
  · cases h
  split at h
  · next r hr =>
    rw [hr, List.length_cons] at hl
    obtain ⟨u, hu, he⟩ := exists_of_bind_eq_ok h
    have hlu := length_of_skipDigits hu
    have hle := length_of_skipExponent he
    omega
  · have hle := length_of_skipExponent h
    omega

theorem length_of_skipScalar (h : skipScalar bound b r = .ok rest) : rest.length ≤ r.length := by
  have hw : ∀ {w}, word w r = .ok rest → rest.length ≤ r.length := by
    intro w hw
    have hl := congrArg List.length (eq_append_of_word hw)
    rw [List.length_append] at hl
    omega
  unfold skipScalar at h
  split at h
  · exact Nat.le_of_lt (length_of_skipString h)
  split at h
  · exact hw h
  split at h
  · exact hw h
  split at h
  · exact hw h
  split at h
  · exact Nat.le_of_lt (length_of_skipNumber h)
  split at h
  · exact Nat.le_of_lt_succ (length_of_skipNumber h)
  · cases h

theorem skipBlank_of_skipName (h : skipName bound s = .ok rest) :
    ∃ r, skipBlank s = quote :: r := by
  unfold skipName at h
  split at h
  · cases h
  next b r hs =>
  split at h
  · next hb => exact ⟨r, by rw [hs, hb]⟩
  · cases h

theorem skipName_skipBlank (s : Bytes) : skipName bound (skipBlank s) = skipName bound s := by
  rw [skipName, skipName, skipBlank_skipBlank]

theorem length_of_skipName (h : skipName bound s = .ok rest) : rest.length ≤ s.length := by
  unfold skipName at h
  split at h
  · cases h
  next b r hs =>
  have hls := length_lt_of_skipBlank hs
  split at h
  · obtain ⟨t, ht, hc⟩ := exists_of_bind_eq_ok h
    have hlt := length_of_skipString ht
    have hlc := length_of_afterColon hc
    omega
  · cases h

end RpcGateway.Json
