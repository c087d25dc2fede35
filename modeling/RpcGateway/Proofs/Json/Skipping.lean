import RpcGateway.Proofs.Json.SkippedTokens

/-!
What a reader takes is what would be skipped in its place. Skipping keeps a stack of the brackets
around it where reading recurses, so runs of the two are compared through the rounds that one value,
or the rest of one bracket, takes of a run.
-/
namespace RpcGateway.Json

/-! ## Values -/

/-- Skipping the value at the front of an input leads to the rest. It takes a round for each bracket
and each element, none of which is empty, so the length of the input bounds the rounds. -/
def SkipsTo (bound : Nat) (s rest : Bytes) : Prop :=
  ∃ rounds, rounds + rest.length ≤ s.length ∧ ∀ fuel stack,
    skipValue bound (fuel + rounds) stack s = skipAfter bound fuel stack rest

/-- Skipping to the end of the bracket around an element that was skipped leads to the rest. -/
def ClosesTo (bound : Nat) (bracket : Bracket) (s rest : Bytes) : Prop :=
  ∃ rounds, rounds + rest.length ≤ s.length ∧ ∀ fuel stack,
    skipAfter bound (fuel + rounds) (bracket :: stack) s = skipAfter bound fuel stack rest

variable {bound : Nat} {s t u r rest : Bytes} {b c : UInt8}

theorem skipAfter_nil (fuel : Nat) : skipAfter bound fuel [] s = .ok s := by
  cases fuel <;> rfl

theorem SkipsTo.length_le (h : SkipsTo bound s rest) : rest.length ≤ s.length := by
  obtain ⟨rounds, hl, -⟩ := h
  omega

theorem skip_of_skipsTo (h : SkipsTo bound s rest) (hs : s.length ≤ bound) :
    skip bound s = .ok rest := by
  obtain ⟨rounds, hl, hskip⟩ := h
  obtain ⟨fuel, hf⟩ : ∃ fuel, bound + 1 = fuel + rounds := ⟨bound + 1 - rounds, by omega⟩
  rw [skip, hf, hskip, skipAfter_nil]

/-- Only the input after blanks counts. -/
theorem skipValue_congr (fuel : Nat) (stack : List Bracket) (h : skipBlank s = skipBlank t) :
    skipValue bound fuel stack s = skipValue bound fuel stack t := by
  cases fuel with
  | zero => rfl
  | succ fuel => rw [skipValue, skipValue, h]

theorem SkipsTo.of_skipBlank (h : SkipsTo bound t rest) (hs : skipBlank s = t) :
    SkipsTo bound s rest := by
  obtain ⟨rounds, hl, hskip⟩ := h
  have hle := length_skipBlank_le s
  rw [hs] at hle
  refine ⟨rounds, Nat.le_trans hl hle, fun fuel stack => ?_⟩
  rw [← hskip, skipValue_congr]
  rw [← hs, skipBlank_skipBlank]

theorem skipsTo_scalar (hb : b ≠ openBracket) (hc : b ≠ openBrace)
    (hs : skipBlank s = b :: r) (h : skipScalar bound b r = .ok rest)
    (hl : rest.length ≤ r.length) : SkipsTo bound s rest := by
  have hle := length_lt_of_skipBlank hs
  refine ⟨1, by omega, fun fuel stack => ?_⟩
  simp only [skipValue, hs, hb, hc, h, if_false]

theorem skipsTo_empty_array (hs : skipBlank s = closeBracket :: rest) :
    SkipsTo bound (openBracket :: s) rest := by
  have hle := length_lt_of_skipBlank hs
  refine ⟨1, by rw [List.length_cons]; omega, fun fuel stack => ?_⟩
  have hblank : skipBlank (openBracket :: s) = openBracket :: s :=
    skipBlank_of_not_blank s (by decide)
  simp only [skipValue, hblank, hs, if_true]

/-- No value begins where an array ends. -/
theorem SkipsTo.start (h : SkipsTo bound s rest) :
    ∃ c r, skipBlank s = c :: r ∧ c ≠ closeBracket := by
  obtain ⟨rounds, -, hskip⟩ := h
  have hok := hskip 0 []
  rw [skipAfter_nil, Nat.zero_add] at hok
  cases rounds with
  | zero => cases hok
  | succ rounds =>
    cases hs : skipBlank s with
    | nil => simp [skipValue, hs] at hok
    | cons c r =>
      refine ⟨c, r, rfl, ?_⟩
      rintro rfl
      have hnone : skipScalar bound closeBracket r = .error .malformed := rfl
      have ha : closeBracket ≠ openBracket := by decide
      have ho : closeBracket ≠ openBrace := by decide
      simp [skipValue, hs, ha, ho, hnone] at hok

theorem skipsTo_array (hv : SkipsTo bound s t) (ht : ClosesTo bound .array t rest) :
    SkipsTo bound (openBracket :: s) rest := by
  obtain ⟨c, r, hs, hc⟩ := hv.start
  obtain ⟨n, hn, hvalue⟩ := hv
  obtain ⟨m, hm, htail⟩ := ht
  refine ⟨m + n + 1, by rw [List.length_cons]; omega, fun fuel stack => ?_⟩
  have hblank : skipBlank (openBracket :: s) = openBracket :: s :=
    skipBlank_of_not_blank s (by decide)
  have hsame : skipBlank (c :: r) = skipBlank s := by rw [← hs, skipBlank_skipBlank]
  rw [← htail, ← hvalue, ← Nat.add_assoc, ← Nat.add_assoc, ← skipValue_congr _ _ hsame]
  simp only [skipValue, hblank, hs, hc, if_true, if_false]

theorem closesTo_bracket (hs : skipBlank s = closeBracket :: rest) :
    ClosesTo bound .array s rest := by
  have hle := length_lt_of_skipBlank hs
  refine ⟨1, by omega, fun fuel stack => ?_⟩
  have hc : closeBracket ≠ comma := by decide
  simp only [skipAfter, hs, hc, if_true, if_false]

theorem closesTo_next (hs : skipBlank s = comma :: r) (hv : SkipsTo bound r t)
    (ht : ClosesTo bound .array t rest) : ClosesTo bound .array s rest := by
  obtain ⟨n, hn, hvalue⟩ := hv
  obtain ⟨m, hm, htail⟩ := ht
  have hle := length_lt_of_skipBlank hs
  refine ⟨m + n + 1, by omega, fun fuel stack => ?_⟩
  rw [← htail, ← hvalue, ← Nat.add_assoc, ← Nat.add_assoc]
  simp only [skipAfter, hs, if_true]

theorem skipsTo_empty_object (hs : skipBlank s = closeBrace :: rest) :
    SkipsTo bound (openBrace :: s) rest := by
  have hle := length_lt_of_skipBlank hs
  refine ⟨1, by rw [List.length_cons]; omega, fun fuel stack => ?_⟩
  have hblank : skipBlank (openBrace :: s) = openBrace :: s :=
    skipBlank_of_not_blank s (by decide)
  have hb : openBrace ≠ openBracket := by decide
  simp only [skipValue, hblank, hs, hb, if_true, if_false]

theorem skipsTo_object (hname : skipName bound s = .ok u) (hv : SkipsTo bound u t)
    (ht : ClosesTo bound .object t rest) : SkipsTo bound (openBrace :: s) rest := by
  have hu := length_of_skipName hname
  obtain ⟨r, hs⟩ := skipBlank_of_skipName hname
  obtain ⟨n, hn, hvalue⟩ := hv
  obtain ⟨m, hm, htail⟩ := ht
  refine ⟨m + n + 1, by rw [List.length_cons]; omega, fun fuel stack => ?_⟩
  have hblank : skipBlank (openBrace :: s) = openBrace :: s :=
    skipBlank_of_not_blank s (by decide)
  have hsame : skipName bound (quote :: r) = .ok u := by
    rw [← hname, skipName, skipName, hs, skipBlank_of_not_blank r (by decide)]
  have hb : openBrace ≠ openBracket := by decide
  have hq : quote ≠ closeBrace := by decide
  rw [← htail, ← hvalue, ← Nat.add_assoc, ← Nat.add_assoc]
  simp only [skipValue, hblank, hs, hb, hq, hsame, if_true, if_false]

theorem closesTo_brace (hs : skipBlank s = closeBrace :: rest) :
    ClosesTo bound .object s rest := by
  have hle := length_lt_of_skipBlank hs
  refine ⟨1, by omega, fun fuel stack => ?_⟩
  have hc : closeBrace ≠ comma := by decide
  simp only [skipAfter, hs, hc, if_true, if_false]

theorem closesTo_next_member (hs : skipBlank s = comma :: r) (hname : skipName bound r = .ok u)
    (hv : SkipsTo bound u t) (ht : ClosesTo bound .object t rest) :
    ClosesTo bound .object s rest := by
  have hu := length_of_skipName hname
  obtain ⟨n, hn, hvalue⟩ := hv
  obtain ⟨m, hm, htail⟩ := ht
  have hle := length_lt_of_skipBlank hs
  refine ⟨m + n + 1, by omega, fun fuel stack => ?_⟩
  rw [← htail, ← hvalue, ← Nat.add_assoc, ← Nat.add_assoc]
  simp only [skipAfter, hs, hname, if_true]

theorem skipName_of_string {k : String} (hs : skipBlank s = quote :: r)
    (hk : string bound r = .ok (k, t)) (hc : afterColon t = .ok u) (hr : r.length ≤ bound) :
    skipName bound s = .ok u := by
  obtain ⟨-, hskip⟩ := skipString_of_string hk hr
  simp only [skipName, hs, if_true, hskip]
  exact hc

/-! ## Arrays and objects -/

/-- Skipping from inside a bracket, at its start or behind an element, to behind its end. -/
def Inside (bound : Nat) (bracket : Bracket) (first : Bool) (s rest : Bytes) : Prop :=
  match first, bracket with
  | true, .array => SkipsTo bound (openBracket :: s) rest
  | true, .object => SkipsTo bound (openBrace :: s) rest
  | false, bracket => ClosesTo bound bracket s rest

variable {first : Bool}

theorem inside_array_end (hs : skipBlank s = closeBracket :: rest) :
    Inside bound .array first s rest := by
  cases first with
  | true => exact skipsTo_empty_array hs
  | false => exact closesTo_bracket hs

theorem inside_object_end (hs : skipBlank s = closeBrace :: rest) :
    Inside bound .object first s rest := by
  cases first with
  | true => exact skipsTo_empty_object hs
  | false => exact closesTo_brace hs

theorem nextItem_cases {more : Bool} (h : nextItem first s = .ok (more, t)) :
    (more = false ∧ ∃ r, t = closeBracket :: r ∧ skipBlank s = t) ∨
    (more = true ∧ ∃ c r, c ≠ closeBracket ∧ t = c :: r ∧
      ((first = true ∧ skipBlank s = t) ∨
        (first = false ∧ ∃ u, skipBlank s = comma :: u ∧ skipBlank u = t))) := by
  unfold nextItem at h
  split at h
  · cases h
  next b u hs =>
  split at h
  · next hb =>
    cases h
    exact .inl ⟨rfl, u, by rw [hb], hs⟩
  next hb =>
  split at h
  · next hf =>
    cases h
    exact .inr ⟨rfl, b, u, hb, rfl, .inl ⟨hf, hs⟩⟩
  next hf =>
  split at h
  · next hc =>
    subst hc
    split at h
    · cases h
    next c w hu =>
    split at h
    · cases h
    · next hcw =>
      cases h
      exact .inr ⟨rfl, c, w, hcw, rfl, .inr ⟨by simpa using hf, u, hs, hu⟩⟩
  · cases h

theorem inside_array_next (h : nextItem first s = .ok (true, r)) (hv : SkipsTo bound r t)
    (ht : ClosesTo bound .array t rest) : Inside bound .array first s rest := by
  rcases nextItem_cases h with ⟨hm, -⟩ | ⟨-, c, w, -, -, ⟨rfl, hs⟩ | ⟨rfl, u, hs, hu⟩⟩
  · cases hm
  · exact skipsTo_array (hv.of_skipBlank hs) ht
  · exact closesTo_next hs (hv.of_skipBlank hu) ht

theorem nextName_cases {name : Option String} (h : nextName bound first s = .ok (name, t)) :
    (name = none ∧ skipBlank s = closeBrace :: t) ∨
    (∃ k r, name = some k ∧ string bound r = .ok (k, t) ∧
      ((first = true ∧ skipBlank s = quote :: r) ∨
        (first = false ∧ ∃ u, skipBlank s = comma :: u ∧ skipBlank u = quote :: r))) := by
  -- Both places where a name may start read it alike.
  have hname : ∀ {r : Bytes}, ((string bound r).map fun p => (some p.1, p.2)) = .ok (name, t) →
      ∃ k, name = some k ∧ string bound r = .ok (k, t) := by
    intro r hr
    cases hk : string bound r with
    | error e => simp [hk, Except.map] at hr
    | ok p =>
      rw [hk] at hr
      cases hr
      exact ⟨_, rfl, rfl⟩
  unfold nextName at h
  split at h
  · cases h
  next b u hs =>
  split at h
  · next hb =>
    cases h
    exact .inl ⟨rfl, by rw [hs, hb]⟩
  refine .inr ?_
  split at h
  · next hf =>
    split at h
    · next hb =>
      obtain ⟨k, hk, hr⟩ := hname h
      exact ⟨k, u, hk, hr, .inl ⟨hf, by rw [hs, hb]⟩⟩
    · cases h
  next hf =>
  split at h
  · next hc =>
    subst hc
    split at h
    · cases h
    next c w hu =>
    split at h
    · next hc =>
      obtain ⟨k, hk, hr⟩ := hname h
      exact ⟨k, w, hk, hr, .inr ⟨by simpa using hf, u, hs, by rw [hu, hc]⟩⟩
    · cases h
  · cases h

theorem inside_object_next {k : String} (h : nextName bound first s = .ok (some k, r))
    (hu : afterColon r = .ok u) (hl : s.length ≤ bound) (hv : SkipsTo bound u t)
    (ht : ClosesTo bound .object t rest) : Inside bound .object first s rest := by
  rcases nextName_cases h with ⟨hk, -⟩ | ⟨k', w, -, hk, ⟨rfl, hs⟩ | ⟨rfl, x, hs, hx⟩⟩
  · cases hk
  · have hls := length_lt_of_skipBlank hs
    exact skipsTo_object (skipName_of_string hs hk hu (by omega)) hv ht
  · have hls := length_lt_of_skipBlank hs
    have hlx := length_lt_of_skipBlank hx
    exact closesTo_next_member hs (skipName_of_string hx hk hu (by omega)) hv ht

theorem skipBlank_of_nextName_none (h : nextName bound first s = .ok (none, t)) :
    skipBlank s = closeBrace :: t := by
  rcases nextName_cases h with ⟨-, hs⟩ | ⟨k, r, hk, -⟩
  · exact hs
  · cases hk

/-! ## One round of a loop -/

theorem skipBlank_of_endItems (h : endItems s = .ok rest) : skipBlank s = closeBracket :: rest := by
  unfold endItems at h
  split at h
  · cases h
  · next b r hs =>
    split at h
    · next hb =>
      cases h
      rw [hs, hb]
    · cases h

/-- The elements end here, or one more is read in front of the others. -/
theorem items_cases {α : Type} {element : Bytes → Reading α} {fuel : Nat} {acc xs : List α}
    (h : items element (fuel + 1) first acc s = .ok (xs, rest)) :
    (skipBlank s = closeBracket :: rest ∧ xs = acc.reverse) ∨
    (∃ t x r, nextItem first s = .ok (true, t) ∧ element t = .ok (x, r) ∧
      items element fuel false (x :: acc) r = .ok (xs, rest)) := by
  simp only [items] at h
  split at h
  · cases h
  · next t hn =>
    obtain ⟨r, hr, hx⟩ := exists_of_map_eq_ok h
    cases hx
    rcases nextItem_cases hn with ⟨-, w, rfl, hs⟩ | ⟨hm, -⟩
    · have hblank := skipBlank_of_endItems hr
      rw [← hs, skipBlank_skipBlank] at hblank
      exact .inl ⟨hblank, rfl⟩
    · cases hm
  · next t hn =>
    split at h
    · cases h
    · next x r hx => exact .inr ⟨t, x, r, hn, hx, h⟩

/-- The members end here, or one more is taken in front of the others. -/
theorem members_cases {σ : Type} {step : σ → String → Bytes → Reading σ} {fuel : Nat}
    {state state' : σ} (h : members bound step (fuel + 1) first state s = .ok (state', rest)) :
    (nextName bound first s = .ok (none, rest) ∧ state' = state) ∨
    (∃ name t state₁ r, nextName bound first s = .ok (some name, t) ∧
      step state name t = .ok (state₁, r) ∧
      members bound step fuel false state₁ r = .ok (state', rest)) := by
  simp only [members] at h
  split at h
  · cases h
  · next t hn =>
    cases h
    exact .inl ⟨hn, rfl⟩
  · next name t hn =>
    split at h
    · cases h
    · next state₁ r hr => exact .inr ⟨name, t, state₁, r, hn, hr, h⟩

/-! ## Readers -/

/-- What the reader takes is what would be skipped in its place. -/
def Skippable {α : Type} (bound : Nat) (read : Bytes → Reading α) : Prop :=
  ∀ {s x rest}, s.length ≤ bound → read s = .ok (x, rest) → SkipsTo bound s rest

theorem length_le_of_nextItem {more : Bool} (h : nextItem first s = .ok (more, t)) :
    t.length ≤ s.length := by
  have hs := length_skipBlank_le s
  rcases nextItem_cases h with ⟨-, r, -, hr⟩ | ⟨-, c, r, -, -, ⟨-, hr⟩ | ⟨-, u, hu, ht⟩⟩
  · rwa [hr] at hs
  · rwa [hr] at hs
  · have hls := length_lt_of_skipBlank hu
    have hlu := length_skipBlank_le u
    rw [ht] at hlu
    omega

theorem length_le_of_nextName {name : Option String} (h : nextName bound first s = .ok (name, t))
    (hl : s.length ≤ bound) : t.length ≤ s.length := by
  rcases nextName_cases h with ⟨-, hs⟩ | ⟨k, r, -, hk, ⟨-, hs⟩ | ⟨-, u, hs, hu⟩⟩
  · exact Nat.le_of_lt (length_lt_of_skipBlank hs)
  · have hls := length_lt_of_skipBlank hs
    have hlr := (skipString_of_string hk (by omega)).1
    omega
  · have hls := length_lt_of_skipBlank hs
    have hlu := length_lt_of_skipBlank hu
    have hlr := (skipString_of_string hk (by omega)).1
    omega

theorem inside_of_items {α : Type} {element : Bytes → Reading α} (he : Skippable bound element)
    {fuel : Nat} {acc xs : List α} (hl : s.length ≤ bound)
    (h : items element fuel first acc s = .ok (xs, rest)) : Inside bound .array first s rest := by
  induction fuel generalizing first acc s with
  | zero => cases h
  | succ fuel ih =>
    rcases items_cases h with ⟨hs, -⟩ | ⟨t, x, r, hn, hx, hrest⟩
    · exact inside_array_end hs
    · have hlt := length_le_of_nextItem hn
      have hv := he (by omega) hx
      have hlr := hv.length_le
      exact inside_array_next hn hv (ih (by omega) hrest)

theorem inside_of_members {σ : Type} {step : σ → String → Bytes → Reading σ}
    (hstep : ∀ {state state' name s rest}, s.length ≤ bound →
      step state name s = .ok (state', rest) → ∃ u, afterColon s = .ok u ∧ SkipsTo bound u rest)
    {fuel : Nat} {state state' : σ} (hl : s.length ≤ bound)
    (h : members bound step fuel first state s = .ok (state', rest)) :
    Inside bound .object first s rest := by
  induction fuel generalizing first state s with
  | zero => cases h
  | succ fuel ih =>
    rcases members_cases h with ⟨hn, -⟩ | ⟨name, t, state₁, r, hn, hr, hrest⟩
    · exact inside_object_end (skipBlank_of_nextName_none hn)
    · have hlt := length_le_of_nextName hn hl
      obtain ⟨u, hu, hv⟩ := hstep (by omega) hr
      have hlu := length_of_afterColon hu
      have hlr := hv.length_le
      exact inside_object_next hn hu hl hv (ih (by omega) hrest)

theorem ne_of_isDigit (hb : isDigit b = true) (hc : isDigit c = false) : b ≠ c := by
  rintro rfl
  rw [hb] at hc
  cases hc

theorem skipScalar_digit (hb : isDigit b = true) : skipScalar bound b r = skipNumber (b :: r) := by
  have hq : b ≠ quote := ne_of_isDigit hb rfl
  have hn : b ≠ 0x6E := ne_of_isDigit hb rfl
  have ht : b ≠ 0x74 := ne_of_isDigit hb rfl
  have hf : b ≠ 0x66 := ne_of_isDigit hb rfl
  have hm : b ≠ minus := ne_of_isDigit hb rfl
  simp only [skipScalar, hq, hn, ht, hf, hm, hb, if_true, if_false]

/-- The first letter of a word, with the word. -/
def WordStart (b : UInt8) (w : Bytes) : Prop :=
  (b = 0x6E ∧ w = nullWord) ∨ (b = 0x74 ∧ w = trueWord) ∨ (b = 0x66 ∧ w = falseWord)

/-- What a word stands for, by its first letter. -/
def wordValue (b : UInt8) : Json := if b = 0x6E then .null else .bool (decide (b = 0x74))

/-- The forms of a value that is read, by its first byte and what is behind it. -/
inductive ValueForm (bound : Nat) (array object : Bytes → Reading Json) (b : UInt8) (r : Bytes) :
    Json → Bytes → Prop
  | string {k : String} {rest : Bytes} (hb : b = quote) (h : string bound r = .ok (k, rest)) :
      ValueForm bound array object b r (.str k) rest
  | object {v : Json} {rest : Bytes} (hb : b = openBrace) (h : object r = .ok (v, rest)) :
      ValueForm bound array object b r v rest
  | array {v : Json} {rest : Bytes} (hb : b = openBracket) (h : array r = .ok (v, rest)) :
      ValueForm bound array object b r v rest
  | negative {v : Json} {rest : Bytes} (hb : b = minus) (h : number true r = .ok (v, rest)) :
      ValueForm bound array object b r v rest
  | digit {v : Json} {rest : Bytes} (hb : isDigit b = true)
      (h : number false (b :: r) = .ok (v, rest)) : ValueForm bound array object b r v rest
  | word {w rest : Bytes} (hw : WordStart b w) (h : word (w.drop 1) r = .ok rest) :
      ValueForm bound array object b r (wordValue b) rest

theorem valueWith_cases {array object : Bytes → Reading Json} {v : Json}
    (h : valueWith bound array object s = .ok (v, rest)) :
    ∃ b r, skipBlank s = b :: r ∧ ValueForm bound array object b r v rest := by
  unfold valueWith at h
  split at h
  · cases h
  next b r hs =>
  refine ⟨b, r, hs, ?_⟩
  have hword : ∀ {w : Bytes} {x : Json}, WordStart b w → x = wordValue b →
      ((word (w.drop 1) r).map fun t => (x, t)) = .ok (v, rest) →
        ValueForm bound array object b r v rest := by
    intro w x hw hx hr
    obtain ⟨t, ht, heq⟩ := exists_of_map_eq_ok hr
    cases heq
    rw [hx]
    exact .word hw ht
  split at h
  · next hb =>
    obtain ⟨⟨k, t⟩, hk, hx⟩ := exists_of_map_eq_ok h
    cases hx
    exact .string hb hk
  split at h
  · next hb => exact .object hb h
  split at h
  · next hb => exact .array hb h
  split at h
  · next hb => exact .negative hb h
  split at h
  · next hb => exact .digit hb h
  split at h
  · next hb => exact hword (.inl ⟨hb, rfl⟩) (by rw [hb]; rfl) h
  split at h
  · next hb => exact hword (.inr (.inl ⟨hb, rfl⟩)) (by rw [hb]; rfl) h
  split at h
  · next hb => exact hword (.inr (.inr ⟨hb, rfl⟩)) (by rw [hb]; rfl) h
  · cases h

theorem skipsTo_word {w : Bytes} (hw : WordStart b w) (hs : skipBlank s = b :: r)
    (h : word (w.drop 1) r = .ok rest) : SkipsTo bound s rest := by
  have hl := congrArg List.length (eq_append_of_word h)
  rw [List.length_append] at hl
  rcases hw with ⟨rfl, rfl⟩ | ⟨rfl, rfl⟩ | ⟨rfl, rfl⟩ <;>
    exact skipsTo_scalar (by decide) (by decide) hs h (by omega)

theorem skipsTo_of_valueWith {array object : Bytes → Reading Json} {v : Json}
    (ha : ∀ {r rest v}, r.length ≤ bound → array r = .ok (v, rest) →
      SkipsTo bound (openBracket :: r) rest)
    (ho : ∀ {r rest v}, r.length ≤ bound → object r = .ok (v, rest) →
      SkipsTo bound (openBrace :: r) rest)
    (hl : s.length ≤ bound) (h : valueWith bound array object s = .ok (v, rest)) :
    SkipsTo bound s rest := by
  obtain ⟨b, r, hs, hform⟩ := valueWith_cases h
  have hls := length_lt_of_skipBlank hs
  cases hform with
  | string hb hk =>
    subst hb
    obtain ⟨hlt, hskip⟩ := skipString_of_string hk (by omega)
    exact skipsTo_scalar (by decide) (by decide) hs hskip (by omega)
  | object hb h =>
    subst hb
    exact (ho (by omega) h).of_skipBlank hs
  | array hb h =>
    subst hb
    exact (ha (by omega) h).of_skipBlank hs
  | negative hb h =>
    subst hb
    obtain ⟨hskip, hlt⟩ := skipNumber_of_number h
    exact skipsTo_scalar (by decide) (by decide) hs hskip (by omega)
  | digit hd h =>
    obtain ⟨hskip, hlt⟩ := skipNumber_of_number h
    rw [List.length_cons] at hlt
    rw [← skipScalar_digit hd] at hskip
    exact skipsTo_scalar (ne_of_isDigit hd rfl) (ne_of_isDigit hd rfl) hs hskip (by omega)
  | word hw h => exact skipsTo_word hw hs h

theorem skipsTo_of_freeMember {element : Bytes → Reading Json} (he : Skippable bound element)
    {before after : List (String × Json)} {name : String} (hl : s.length ≤ bound)
    (h : freeMember element before name s = .ok (after, rest)) :
    ∃ u, afterColon s = .ok u ∧ SkipsTo bound u rest := by
  unfold freeMember at h
  split at h
  · cases h
  next u hu =>
  obtain ⟨⟨v, t⟩, hv, hx⟩ := exists_of_map_eq_ok h
  cases hx
  have hlt := length_of_afterColon hu
  exact ⟨u, hu, he (by omega) hv⟩

theorem skippable_value (depth : Nat) : Skippable bound (value bound depth) := by
  induction depth with
  | zero =>
    intro s v rest hl h
    exact skipsTo_of_valueWith (fun _ h => by cases h) (fun _ h => by cases h) hl h
  | succ depth ih =>
    intro s v rest hl h
    refine skipsTo_of_valueWith (fun hr h => ?_) (fun hr h => ?_) hl h
    · obtain ⟨⟨vs, t⟩, hi, hx⟩ := exists_of_map_eq_ok h
      cases hx
      have hin : Inside bound .array true _ _ := inside_of_items ih hr hi
      exact hin
    · obtain ⟨⟨ms, t⟩, hi, hx⟩ := exists_of_map_eq_ok h
      cases hx
      have hin : Inside bound .object true _ _ :=
        inside_of_members (skipsTo_of_freeMember ih) hr hi
      exact hin

theorem skippable_stringValue : Skippable bound (stringValue bound) := by
  intro s t rest hl h
  unfold stringValue at h
  split at h
  · cases h
  next b r hs =>
  have hls := length_lt_of_skipBlank hs
  split at h
  · next hb =>
    subst hb
    obtain ⟨hlt, hskip⟩ := skipString_of_string h (by omega)
    exact skipsTo_scalar (by decide) (by decide) hs hskip (by omega)
  · cases h

theorem skippable_int32Value : Skippable bound (int32Value bound) := by
  intro s i rest hl h
  unfold int32Value at h
  split at h
  · cases h
  · next j r hv =>
    have hs := skipsTo_of_valueWith (fun _ h => by cases h) (fun _ h => by cases h) hl hv
    split at h
    · cases h
      exact hs
    · cases h
  · cases h

theorem skippable_optional {α : Type} {read : Bytes → Reading α} (hr : Skippable bound read) :
    Skippable bound (optional read) := by
  intro s x rest hl h
  have hls := length_skipBlank_le s
  unfold optional at h
  split at h
  · cases h
  next b r hs =>
  rw [hs] at hls
  split at h
  · next hb =>
    obtain ⟨t, ht, hx⟩ := exists_of_map_eq_ok h
    cases hx
    exact skipsTo_word (.inl ⟨hb, rfl⟩) hs ht
  · obtain ⟨⟨y, t⟩, hy, hx⟩ := exists_of_map_eq_ok h
    cases hx
    exact (hr (by omega) hy).of_skipBlank hs

/-! ## Rounds -/

/-- The first round of a run over a value, and the run behind it. -/
inductive ValueRound (bound fuel : Nat) (stack : List Bracket) (s rest : Bytes) : Prop
  | scalar {b : UInt8} {r t : Bytes} (hb : b ≠ openBracket) (hc : b ≠ openBrace)
      (hs : skipBlank s = b :: r) (h : skipScalar bound b r = .ok t)
      (hrun : skipAfter bound fuel stack t = .ok rest)
  | emptyArray {r t : Bytes} (hs : skipBlank s = openBracket :: r)
      (hr : skipBlank r = closeBracket :: t) (hrun : skipAfter bound fuel stack t = .ok rest)
  | array {r t : Bytes} (hs : skipBlank s = openBracket :: r) (hr : skipBlank r = t)
      (hrun : skipValue bound fuel (.array :: stack) t = .ok rest)
  | emptyObject {r t : Bytes} (hs : skipBlank s = openBrace :: r)
      (hr : skipBlank r = closeBrace :: t) (hrun : skipAfter bound fuel stack t = .ok rest)
  | object {r t : Bytes} (hs : skipBlank s = openBrace :: r) (hname : skipName bound r = .ok t)
      (hrun : skipValue bound fuel (.object :: stack) t = .ok rest)

theorem skipValue_cases {fuel : Nat} {stack : List Bracket}
    (h : skipValue bound (fuel + 1) stack s = .ok rest) : ValueRound bound fuel stack s rest := by
  simp only [skipValue] at h
  split at h
  · cases h
  next b r hs =>
  split at h
  · next hb =>
    subst hb
    split at h
    · cases h
    next c u hr =>
    split at h
    · next hc => exact .emptyArray hs (hc ▸ hr) h
    · exact .array hs hr h
  split at h
  · next hb =>
    subst hb
    split at h
    · cases h
    next c u hr =>
    split at h
    · next hc => exact .emptyObject hs (hc ▸ hr) h
    split at h
    · next t ht =>
      rw [← hr, skipName_skipBlank] at ht
      exact .object hs ht h
    · cases h
  · next hb hc =>
    split at h
    · next t ht => exact .scalar hb hc hs ht h
    · cases h

/-- The first round of a run behind an element of a bracket, and the run behind it. -/
inductive AfterRound (bound fuel : Nat) (stack : List Bracket) (s rest : Bytes) : Bracket → Prop
  | next {r : Bytes} (hs : skipBlank s = comma :: r)
      (hrun : skipValue bound fuel (.array :: stack) r = .ok rest) :
      AfterRound bound fuel stack s rest .array
  | bracket {r : Bytes} (hs : skipBlank s = closeBracket :: r)
      (hrun : skipAfter bound fuel stack r = .ok rest) : AfterRound bound fuel stack s rest .array
  | nextMember {r t : Bytes} (hs : skipBlank s = comma :: r) (hname : skipName bound r = .ok t)
      (hrun : skipValue bound fuel (.object :: stack) t = .ok rest) :
      AfterRound bound fuel stack s rest .object
  | brace {r : Bytes} (hs : skipBlank s = closeBrace :: r)
      (hrun : skipAfter bound fuel stack r = .ok rest) : AfterRound bound fuel stack s rest .object

theorem skipAfter_cases {fuel : Nat} {bracket : Bracket} {stack : List Bracket}
    (h : skipAfter bound (fuel + 1) (bracket :: stack) s = .ok rest) :
    AfterRound bound fuel stack s rest bracket := by
  cases bracket with
  | array =>
    simp only [skipAfter] at h
    split at h
    · cases h
    next b r hs =>
    split at h
    · next hb => exact .next (hb ▸ hs) h
    split at h
    · next hb => exact .bracket (hb ▸ hs) h
    · cases h
  | object =>
    simp only [skipAfter] at h
    split at h
    · cases h
    next b r hs =>
    split at h
    · next hb =>
      split at h
      · next t ht => exact .nextMember (hb ▸ hs) ht h
      · cases h
    split at h
    · next hb => exact .brace (hb ▸ hs) h
    · cases h

/-! ## What is skipped -/

/-- Two relations of an input and a rest, over a value and over what is left of a bracket, that
hold of all that is skipped: there is a condition for each way that a run can go on. -/
structure Skimmed (bound : Nat) (V : Bytes → Bytes → Prop) (C : Bracket → Bytes → Bytes → Prop) :
    Prop where
  blanks {s t rest : Bytes} : V t rest → skipBlank s = t → V s rest
  scalar {s r rest : Bytes} {b : UInt8} : b ≠ openBracket → b ≠ openBrace →
    skipBlank s = b :: r → skipScalar bound b r = .ok rest → V s rest
  emptyArray {s rest : Bytes} : skipBlank s = closeBracket :: rest → V (openBracket :: s) rest
  array {s t rest : Bytes} : V s t → C .array t rest → V (openBracket :: s) rest
  bracket {s rest : Bytes} : skipBlank s = closeBracket :: rest → C .array s rest
  next {s r t rest : Bytes} : skipBlank s = comma :: r → V r t → C .array t rest →
    C .array s rest
  emptyObject {s rest : Bytes} : skipBlank s = closeBrace :: rest → V (openBrace :: s) rest
  object {s u t rest : Bytes} : skipName bound s = .ok u → V u t → C .object t rest →
    V (openBrace :: s) rest
  brace {s rest : Bytes} : skipBlank s = closeBrace :: rest → C .object s rest
  nextMember {s r u t rest : Bytes} : skipBlank s = comma :: r → skipName bound r = .ok u →
    V u t → C .object t rest → C .object s rest

/-- The rounds of a run belong to the value at the front and then to the brackets around it. -/
theorem Skimmed.of_skipValue {V : Bytes → Bytes → Prop} {C : Bracket → Bytes → Bytes → Prop}
    (hskim : Skimmed bound V C) {fuel : Nat} :
    (∀ {stack s rest}, skipValue bound fuel stack s = .ok rest →
      ∃ t n, n < fuel ∧ V s t ∧ skipAfter bound n stack t = .ok rest) ∧
    (∀ {bracket stack s rest}, skipAfter bound fuel (bracket :: stack) s = .ok rest →
      ∃ t n, n < fuel ∧ C bracket s t ∧ skipAfter bound n stack t = .ok rest) := by
  induction fuel using Nat.strongRecOn with
  | _ fuel ih =>
  cases fuel with
  | zero =>
    refine ⟨fun h => ?_, fun {bracket _ _ _} h => ?_⟩
    · cases h
    · cases bracket <;> cases h
  | succ fuel =>
    -- A run over an element goes on to the end of the bracket around it.
    have helement : ∀ {bracket stack s rest},
        skipValue bound fuel (bracket :: stack) s = .ok rest → ∃ t u n,
          n < fuel + 1 ∧ V s t ∧ C bracket t u ∧ skipAfter bound n stack u = .ok rest := by
      intro bracket stack s rest h
      obtain ⟨t, n, hn, hv, ht⟩ := (ih fuel (by omega)).1 h
      obtain ⟨u, m, hm, hc, hu⟩ := (ih n (by omega)).2 ht
      exact ⟨t, u, m, by omega, hv, hc, hu⟩
    refine ⟨fun {stack s rest} h => ?_, fun {bracket stack s rest} h => ?_⟩
    · cases skipValue_cases h with
      | scalar hb hc hs ht hrun => exact ⟨_, fuel, by omega, hskim.scalar hb hc hs ht, hrun⟩
      | emptyArray hs hr hrun =>
        exact ⟨_, fuel, by omega, hskim.blanks (hskim.emptyArray hr) hs, hrun⟩
      | array hs hr hrun =>
        obtain ⟨t, u, n, hn, hv, hc, hrun⟩ := helement hrun
        have harray := hskim.array (hskim.blanks hv hr) hc
        exact ⟨u, n, hn, hskim.blanks harray hs, hrun⟩
      | emptyObject hs hr hrun =>
        exact ⟨_, fuel, by omega, hskim.blanks (hskim.emptyObject hr) hs, hrun⟩
      | object hs hname hrun =>
        obtain ⟨t, u, n, hn, hv, hc, hrun⟩ := helement hrun
        have hobject := hskim.object hname hv hc
        exact ⟨u, n, hn, hskim.blanks hobject hs, hrun⟩
    · cases skipAfter_cases h with
      | next hs hrun =>
        obtain ⟨t, u, n, hn, hv, hc, hrun⟩ := helement hrun
        exact ⟨u, n, hn, hskim.next hs hv hc, hrun⟩
      | bracket hs hrun => exact ⟨_, fuel, by omega, hskim.bracket hs, hrun⟩
      | nextMember hs hname hrun =>
        obtain ⟨t, u, n, hn, hv, hc, hrun⟩ := helement hrun
        exact ⟨u, n, hn, hskim.nextMember hs hname hv hc, hrun⟩
      | brace hs hrun => exact ⟨_, fuel, by omega, hskim.brace hs, hrun⟩

theorem Skimmed.of_skip {V : Bytes → Bytes → Prop} {C : Bracket → Bytes → Bytes → Prop}
    (hskim : Skimmed bound V C) (h : skip bound s = .ok rest) : V s rest := by
  obtain ⟨t, n, -, hv, ht⟩ := hskim.of_skipValue.1 h
  rw [skipAfter_nil] at ht
  cases ht
  exact hv

theorem skimmed_skipsTo : Skimmed bound (SkipsTo bound) (ClosesTo bound) where
  blanks h hs := h.of_skipBlank hs
  scalar hb hc hs h := skipsTo_scalar hb hc hs h (length_of_skipScalar h)
  emptyArray := skipsTo_empty_array
  array := skipsTo_array
  bracket := closesTo_bracket
  next := closesTo_next
  emptyObject := skipsTo_empty_object
  object := skipsTo_object
  brace := closesTo_brace
  nextMember := closesTo_next_member

theorem skipsTo_of_skip (h : skip bound s = .ok rest) : SkipsTo bound s rest :=
  skimmed_skipsTo.of_skip h

end RpcGateway.Json
