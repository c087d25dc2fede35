import RpcGateway.Proofs.Json.Numbers

/-!
The grammar of JSON over bytes. What is skipped as a value is a text of this grammar, and each such
text is skipped to its end. The grammar does not look at the bytes between quotes any closer than
skipping does: they need not be UTF-8.
-/
namespace RpcGateway.Json

/-! ## Blanks -/

/-- Any number of JSON's blanks. -/
def IsBlanks (w : Bytes) : Prop := ∀ b ∈ w, isBlank b = true

theorem isBlanks_nil : IsBlanks [] := List.forall_mem_nil _

theorem skipBlank_append {w : Bytes} (hw : IsBlanks w) (s : Bytes) :
    skipBlank (w ++ s) = skipBlank s :=
  List.dropWhile_append_of_pos hw

/-- What follows blanks is behind some blanks. -/
theorem exists_blanks {s t : Bytes} (h : skipBlank s = t) : ∃ w, IsBlanks w ∧ s = w ++ t := by
  refine ⟨s.takeWhile isBlank, fun b hb => List.all_eq_true.mp List.all_takeWhile b hb, ?_⟩
  rw [← h]
  exact List.takeWhile_append_dropWhile.symm

theorem stopsNumber_blanks {w s : Bytes} (hw : IsBlanks w) (hs : StopsNumber s) :
    StopsNumber (w ++ s) := by
  cases w with
  | nil => exact hs
  | cons b w =>
    intro c hc
    cases hc
    have hb : ((b = 0x20 ∨ b = 0x0A) ∨ b = 0x09) ∨ b = 0x0D := by
      simpa [isBlank] using hw b List.mem_cons_self
    rcases hb with ((rfl | rfl) | rfl) | rfl <;> decide

/-! ## Strings -/

/-- Four hexadecimal digits and their value. -/
def IsUnit (u : Bytes) (n : Nat) : Prop := hex4 u = .ok (n, [])

/-- Four hexadecimal digits are read, whatever follows them. -/
theorem hex4_eq_ok_iff {s rest : Bytes} {n : Nat} :
    hex4 s = .ok (n, rest) ↔ ∃ u, IsUnit u n ∧ s = u ++ rest := by
  constructor
  · intro h
    unfold hex4 at h
    split at h
    · next a b c d s =>
      split at h
      · next i j k l hi hj hk hl =>
        cases h
        exact ⟨[a, b, c, d], by simp only [IsUnit, hex4, hi, hj, hk, hl], rfl⟩
      · cases h
    · cases h
  · rintro ⟨u, hu, rfl⟩
    unfold IsUnit hex4 at hu
    split at hu
    · next a b c d s =>
      split at hu
      · next i j k l hi hj hk hl =>
        obtain ⟨rfl, rfl⟩ := Prod.mk.inj (Except.ok.inj hu)
        simp only [List.cons_append, List.nil_append, hex4, hi, hj, hk, hl]
      · cases hu
    · cases hu

/-- What may stand between the quotes of a string: plain bytes and escapes. -/
inductive RawText : Bytes → Prop
  | nil : RawText []
  | plain {b : UInt8} {t : Bytes} (hq : b ≠ quote) (hb : b ≠ backslash) (hc : ¬ b < 0x20)
      (ht : RawText t) : RawText (b :: t)
  | letter {c : UInt8} {t : Bytes} (hu : c ≠ 0x75) (hs : (shortEscape? c).isSome)
      (ht : RawText t) : RawText (backslash :: c :: t)
  | unit {u t : Bytes} {n : Nat} (hu : IsUnit u n) (ht : RawText t) :
      RawText (backslash :: 0x75 :: (u ++ t))

theorem skipString_raw {t : Bytes} (ht : RawText t) (rest : Bytes) {n : Nat} (hn : t.length < n) :
    skipString n (t ++ quote :: rest) = .ok rest := by
  induction ht generalizing n with
  | nil =>
    obtain ⟨n, rfl⟩ := Nat.exists_eq_add_of_lt hn
    exact skipString_quote _ rest
  | plain hq hb hc _ ih =>
    rw [List.length_cons] at hn
    obtain ⟨n, rfl⟩ : ∃ k, n = k + 1 := ⟨n - 1, by omega⟩
    rw [List.cons_append, skipString_plain n _ hq hb hc, ih (by omega)]
  | letter hu hs _ ih =>
    rw [List.length_cons, List.length_cons] at hn
    obtain ⟨n, rfl⟩ : ∃ k, n = k + 1 := ⟨n - 1, by omega⟩
    rw [List.cons_append, List.cons_append, skipString_letter n _ hu hs, ih (by omega)]
  | unit hu _ ih =>
    rw [List.length_cons, List.length_cons, List.length_append] at hn
    obtain ⟨n, rfl⟩ : ∃ k, n = k + 1 := ⟨n - 1, by omega⟩
    rw [List.cons_append, List.cons_append, List.append_assoc,
      skipString_unit n (hex4_eq_ok_iff.mpr ⟨_, hu, rfl⟩), ih (by omega)]

theorem raw_of_skipString {fuel : Nat} {s rest : Bytes} (h : skipString fuel s = .ok rest) :
    ∃ t, RawText t ∧ s = t ++ quote :: rest := by
  induction fuel generalizing s with
  | zero => cases h
  | succ fuel ih =>
    cases s with
    | nil => cases h
    | cons b s =>
      simp only [skipString] at h
      split at h
      · next hq =>
        cases h
        exact ⟨[], .nil, by rw [hq, List.nil_append]⟩
      next hq =>
      split at h
      · next hb =>
        subst hb
        split at h
        · cases h
        next c r =>
        split at h
        · next hu =>
          subst hu
          split at h
          · next n r' hn =>
            obtain ⟨u, hunit, rfl⟩ := hex4_eq_ok_iff.mp hn
            obtain ⟨t, ht, rfl⟩ := ih h
            exact ⟨_, .unit hunit ht, by simp⟩
          · cases h
        next hu =>
        split at h
        · next hs =>
          obtain ⟨t, ht, rfl⟩ := ih h
          exact ⟨_, .letter hu hs ht, rfl⟩
        · cases h
      next hb =>
      split at h
      · cases h
      · next hc =>
        obtain ⟨t, ht, rfl⟩ := ih h
        exact ⟨_, .plain hq hb hc ht, rfl⟩

/-! ## Values -/

/-- What stands in front of an element: a comma, unless it is the first. -/
def lead (first : Bool) : Bytes := if first then [] else [comma]

/-- Elements in a row, from the first of all or from a later one on. -/
def joined (first : Bool) : List Bytes → Bytes
  | [] => []
  | t :: ts => lead first ++ (t ++ joined false ts)

/-- A value with the blanks around it. -/
structure ElementText where
  before : Bytes
  value : Bytes
  after : Bytes
  isBlanks_before : IsBlanks before
  isBlanks_after : IsBlanks after

def ElementText.text (e : ElementText) : Bytes := e.before ++ (e.value ++ e.after)

/-- A value behind a name and a colon, with the blanks around all of them. -/
structure MemberText extends ElementText where
  front : Bytes
  name : Bytes
  gap : Bytes
  isBlanks_front : IsBlanks front
  rawText_name : RawText name
  isBlanks_gap : IsBlanks gap

def MemberText.text (m : MemberText) : Bytes :=
  m.front ++ quote :: (m.name ++ quote :: (m.gap ++ colon :: m.toElementText.text))

/-- An array. The blanks in front are those of an array without elements. -/
def arrayText (w : Bytes) (es : List ElementText) : Bytes :=
  openBracket :: (w ++ (joined true (es.map ElementText.text) ++ [closeBracket]))

def objectText (w : Bytes) (ms : List MemberText) : Bytes :=
  openBrace :: (w ++ (joined true (ms.map MemberText.text) ++ [closeBrace]))

/-- A value without blanks around it. -/
inductive IsValue : Bytes → Prop
  | word {b : UInt8} {t : Bytes} (ht : WordStart b t) : IsValue t
  | number (negative : Bool) {t : Bytes} (ht : NumberText t) : IsValue (signed negative t)
  | string {t : Bytes} (ht : RawText t) : IsValue (quote :: (t ++ [quote]))
  | array {w : Bytes} {es : List ElementText} (hw : IsBlanks w)
      (he : ∀ e ∈ es, IsValue e.value) : IsValue (arrayText w es)
  | object {w : Bytes} {ms : List MemberText} (hw : IsBlanks w)
      (hm : ∀ m ∈ ms, IsValue m.value) : IsValue (objectText w ms)

/-- A value begins with a byte that is neither a blank nor the end of a bracket. -/
theorem IsValue.exists_cons {t : Bytes} (h : IsValue t) :
    ∃ b r, t = b :: r ∧ isBlank b = false ∧ b ≠ closeBracket ∧ b ≠ closeBrace := by
  cases h with
  | word ht =>
    rcases ht with ⟨-, rfl⟩ | ⟨-, rfl⟩ | ⟨-, rfl⟩ <;>
      exact ⟨_, _, rfl, by decide, by decide, by decide⟩
  | number negative ht =>
    obtain ⟨d, r, rfl, hd⟩ := ht.exists_cons
    cases negative with
    | true => exact ⟨_, _, rfl, by decide, by decide, by decide⟩
    | false =>
      exact ⟨d, r, rfl, not_isBlank_of_isDigit hd, ne_of_isDigit hd rfl, ne_of_isDigit hd rfl⟩
  | string => exact ⟨_, _, rfl, by decide, by decide, by decide⟩
  | array => exact ⟨_, _, rfl, by decide, by decide, by decide⟩
  | object => exact ⟨_, _, rfl, by decide, by decide, by decide⟩

theorem IsValue.skipBlank_append {t : Bytes} (h : IsValue t) (s : Bytes) :
    skipBlank (t ++ s) = t ++ s := by
  obtain ⟨b, r, rfl, hb, -⟩ := h.exists_cons
  exact skipBlank_of_not_blank _ hb

/-! ## Values are skipped -/

theorem stopsNumber_cons {b : UInt8} (s : Bytes)
    (hb : b = comma ∨ b = closeBracket ∨ b = closeBrace) : StopsNumber (b :: s) := by
  intro c hc
  cases hc
  rcases hb with rfl | rfl | rfl <;> decide

/-- What follows an element cannot continue a number. -/
theorem stopsNumber_joined (texts : List Bytes) (rest : Bytes) {b : UInt8}
    (hb : b = closeBracket ∨ b = closeBrace) : StopsNumber (joined false texts ++ b :: rest) := by
  cases texts with
  | nil => exact stopsNumber_cons _ (.inr hb)
  | cons t texts => exact stopsNumber_cons _ (.inl rfl)

/-- There are no more elements than bytes, as each but the first has a comma. -/
theorem length_le_joined (first : Bool) (texts : List Bytes) (b : UInt8) (rest : Bytes) :
    texts.length ≤ (joined first texts ++ b :: rest).length := by
  have hlater : ∀ ts : List Bytes, ts.length < (joined false ts ++ b :: rest).length := by
    intro ts
    induction ts with
    | nil => exact Nat.succ_pos _
    | cons t ts ih =>
      simp only [joined, lead, Bool.false_eq_true, if_false, List.length_append,
        List.length_cons] at ih ⊢
      omega
  cases texts with
  | nil => exact Nat.zero_le _
  | cons t ts =>
    have hts := hlater ts
    simp only [joined, List.length_append, List.length_cons] at hts ⊢
    omega

theorem length_le_length_joined {t : Bytes} {ts : List Bytes} (h : t ∈ ts) (first : Bool) :
    t.length ≤ (joined first ts).length := by
  induction h generalizing first with
  | head ts =>
    simp only [joined, List.length_append]
    omega
  | tail u _ ih =>
    have hle := ih false
    simp only [joined, List.length_append]
    omega

/-- Elements take as much room in any order. -/
theorem length_joined_of_perm {ts us : List Bytes} (h : ts.Perm us) (first : Bool) :
    (joined first ts).length = (joined first us).length := by
  induction h generalizing first with
  | nil => rfl
  | cons t _ ih => simp only [joined, List.length_append, ih]
  | swap t u ts =>
    simp only [joined, List.length_append]
    omega
  | trans _ _ ih ih' => exact (ih first).trans (ih' first)

/-- A text that is one value whatever follows it, unless that continues a number. -/
def ValueText (t : Bytes) : Prop :=
  ∀ bound rest, (t ++ rest).length ≤ bound → StopsNumber rest → SkipsTo bound (t ++ rest) rest

section Skipped
variable {bound : Nat} {w s t u rest : Bytes}

theorem SkipsTo.blanks_append (hw : IsBlanks w) (h : SkipsTo bound s rest) :
    SkipsTo bound (w ++ s) rest := by
  obtain ⟨rounds, hl, hskip⟩ := h
  refine ⟨rounds, by rw [List.length_append]; omega, fun fuel stack => ?_⟩
  rw [← hskip, skipValue_congr _ _ (skipBlank_append hw s)]

theorem ClosesTo.blanks_append {bracket : Bracket} (hw : IsBlanks w)
    (h : ClosesTo bound bracket s rest) : ClosesTo bound bracket (w ++ s) rest := by
  obtain ⟨rounds, hl, hskip⟩ := h
  refine ⟨rounds, by rw [List.length_append]; omega, fun fuel stack => ?_⟩
  rw [← hskip]
  cases hf : fuel + rounds with
  | zero => cases bracket <;> rfl
  | succ n => cases bracket <;> simp only [skipAfter, skipBlank_append hw]

theorem skipName_blanks_append (hw : IsBlanks w) (s : Bytes) :
    skipName bound (w ++ s) = skipName bound s := by
  rw [skipName, skipName, skipBlank_append hw]

/-- An array goes on with an element, behind blanks and at its place. -/
theorem inside_array_cons (first : Bool) (hw : IsBlanks w) (hv : SkipsTo bound s t)
    (ht : Inside bound .array false t rest) :
    Inside bound .array first (w ++ (lead first ++ s)) rest := by
  cases first with
  | true => exact skipsTo_array (hv.blanks_append hw) ht
  | false =>
    exact ClosesTo.blanks_append hw
      (closesTo_next (skipBlank_of_not_blank s (by decide)) hv ht)

theorem inside_object_cons (first : Bool) (hw : IsBlanks w) (hname : skipName bound s = .ok u)
    (hv : SkipsTo bound u t) (ht : Inside bound .object false t rest) :
    Inside bound .object first (w ++ (lead first ++ s)) rest := by
  cases first with
  | true => exact skipsTo_object ((skipName_blanks_append hw s).trans hname) hv ht
  | false =>
    exact ClosesTo.blanks_append hw
      (closesTo_next_member (skipBlank_of_not_blank s (by decide)) hname hv ht)

theorem skipBlank_blanks_cons {b : UInt8} (hw : IsBlanks w) (hb : isBlank b = false) (s : Bytes) :
    skipBlank (w ++ b :: s) = b :: s := by
  rw [skipBlank_append hw, skipBlank_of_not_blank s hb]

theorem inside_elements {es : List ElementText} (he : ∀ e ∈ es, ValueText e.value) (first : Bool)
    (hw : IsBlanks w)
    (hl : (w ++ (joined first (es.map ElementText.text) ++ closeBracket :: rest)).length ≤ bound) :
    Inside bound .array first
      (w ++ (joined first (es.map ElementText.text) ++ closeBracket :: rest)) rest := by
  induction es generalizing first w with
  | nil => exact inside_array_end (skipBlank_blanks_cons hw (by decide) rest)
  | cons e es ih =>
    have hstop := stopsNumber_blanks e.isBlanks_after
      (stopsNumber_joined (es.map ElementText.text) rest (.inl rfl))
    simp only [List.map_cons, joined, ElementText.text, List.append_assoc] at hl ⊢
    rw [List.length_append, List.length_append, List.length_append] at hl
    have hv := he e List.mem_cons_self bound _ (by omega) hstop
    have hlt := hv.length_le
    refine inside_array_cons first hw (hv.blanks_append e.isBlanks_before) ?_
    exact ih (fun x hx => he x (List.mem_cons_of_mem e hx)) false e.isBlanks_after (by omega)

theorem skipName_text (m : MemberText) (hl : m.name.length ≤ bound) :
    skipName bound (m.text ++ s) = .ok (m.toElementText.text ++ s) := by
  have hquote : ∀ r, skipBlank (m.front ++ quote :: r) = quote :: r :=
    skipBlank_blanks_cons m.isBlanks_front (by decide)
  have hskip := fun r => skipString_raw m.rawText_name r (Nat.lt_succ_of_le hl)
  have hcolon : ∀ r, skipBlank (m.gap ++ colon :: r) = colon :: r :=
    skipBlank_blanks_cons m.isBlanks_gap (by decide)
  simp only [MemberText.text, List.append_assoc, List.cons_append, skipName, hquote, if_true, hskip,
    bind, Except.bind, hcolon, expectByte]

theorem inside_members {ms : List MemberText} (hm : ∀ m ∈ ms, ValueText m.value) (first : Bool)
    (hw : IsBlanks w)
    (hl : (w ++ (joined first (ms.map MemberText.text) ++ closeBrace :: rest)).length ≤ bound) :
    Inside bound .object first
      (w ++ (joined first (ms.map MemberText.text) ++ closeBrace :: rest)) rest := by
  induction ms generalizing first w with
  | nil => exact inside_object_end (skipBlank_blanks_cons hw (by decide) rest)
  | cons m ms ih =>
    have hstop := stopsNumber_blanks m.isBlanks_after
      (stopsNumber_joined (ms.map MemberText.text) rest (.inr rfl))
    rw [List.map_cons, joined, List.append_assoc, List.append_assoc] at hl ⊢
    have hlen : m.name.length ≤ bound ∧
        (m.toElementText.text ++
          (joined false (ms.map MemberText.text) ++ closeBrace :: rest)).length ≤ bound := by
      simp only [MemberText.text, List.length_append, List.length_cons] at hl ⊢
      omega
    have hname := skipName_text (s := joined false (ms.map MemberText.text) ++ closeBrace :: rest)
      m hlen.1
    have hvalue := hlen.2
    simp only [ElementText.text, List.append_assoc] at hname hvalue
    rw [List.length_append] at hvalue
    have hv := hm m List.mem_cons_self bound _ (by omega) hstop
    have hlt := hv.length_le
    refine inside_object_cons first hw hname (hv.blanks_append m.isBlanks_before) ?_
    exact ih (fun x hx => hm x (List.mem_cons_of_mem m hx)) false m.isBlanks_after (by omega)

end Skipped

theorem valueText_number {negative : Bool} {t : Bytes} (ht : NumberText t) :
    ValueText (signed negative t) :=
  fun _ _ _ hr => skipsTo_number negative ht hr

theorem word_append (w rest : Bytes) : word w (w ++ rest) = .ok rest := by
  induction w with
  | nil => rfl
  | cons b w ih => simpa [word] using ih

theorem valueText_word {b : UInt8} {w : Bytes} (hw : WordStart b w) : ValueText w := by
  intro bound rest _ _
  have hcons : w = b :: w.drop 1 := by
    rcases hw with ⟨rfl, rfl⟩ | ⟨rfl, rfl⟩ | ⟨rfl, rfl⟩ <;> rfl
  have hblank : isBlank b = false := by
    rcases hw with ⟨rfl, -⟩ | ⟨rfl, -⟩ | ⟨rfl, -⟩ <;> rfl
  rw [hcons]
  exact skipsTo_word hw (skipBlank_of_not_blank _ hblank) (word_append (w.drop 1) rest)

theorem valueText_string {t : Bytes} (ht : RawText t) : ValueText (quote :: (t ++ [quote])) := by
  intro bound rest hl _
  rw [List.cons_append, List.append_assoc, List.singleton_append] at hl ⊢
  simp only [List.length_cons, List.length_append] at hl
  have hskip := skipString_raw ht rest (by omega : t.length < bound + 1)
  exact skipsTo_scalar (by decide) (by decide) (skipBlank_of_not_blank _ (by decide)) hskip
    (by rw [List.length_append, List.length_cons]; omega)

theorem valueText_array {w : Bytes} {es : List ElementText} (hw : IsBlanks w)
    (he : ∀ e ∈ es, ValueText e.value) : ValueText (arrayText w es) := by
  intro bound rest hl _
  simp only [arrayText, List.cons_append, List.append_assoc, List.nil_append] at hl ⊢
  exact inside_elements he true hw (Nat.le_of_succ_le hl)

theorem valueText_object {w : Bytes} {ms : List MemberText} (hw : IsBlanks w)
    (hm : ∀ m ∈ ms, ValueText m.value) : ValueText (objectText w ms) := by
  intro bound rest hl _
  simp only [objectText, List.cons_append, List.append_assoc, List.nil_append] at hl ⊢
  exact inside_members hm true hw (Nat.le_of_succ_le hl)

/-- Every value of the grammar is skipped to its end. -/
theorem IsValue.valueText {t : Bytes} (h : IsValue t) : ValueText t := by
  induction h with
  | word ht => exact valueText_word ht
  | number negative ht => exact valueText_number ht
  | string ht => exact valueText_string ht
  | array hw _ ih => exact valueText_array hw ih
  | object hw _ ih => exact valueText_object hw ih

/-! ## Texts between an input and a rest -/

/-- Blanks and a text with the property stand between an input and a rest. -/
def Spans (V : Bytes → Prop) (s rest : Bytes) : Prop :=
  ∃ w t, IsBlanks w ∧ V t ∧ s = w ++ (t ++ rest)

/-- A name with the property and a colon stand between an input and a rest. -/
def SpansName (N : Bytes → Prop) (s rest : Bytes) : Prop :=
  ∃ front name gap, IsBlanks front ∧ RawText name ∧ N name ∧ IsBlanks gap ∧
    s = front ++ quote :: (name ++ quote :: (gap ++ colon :: rest))

/-- From inside an array, at its start or behind an element, elements with the property and the end
of the array stand between an input and a rest. -/
def SpansItems (P : List ElementText → Prop) (first : Bool) (s rest : Bytes) : Prop :=
  ∃ w es, IsBlanks w ∧ P es ∧
    s = w ++ (joined first (es.map ElementText.text) ++ closeBracket :: rest)

def SpansMembers (P : List MemberText → Prop) (first : Bool) (s rest : Bytes) : Prop :=
  ∃ w ms, IsBlanks w ∧ P ms ∧
    s = w ++ (joined first (ms.map MemberText.text) ++ closeBrace :: rest)

theorem joined_cons_append (first : Bool) (t : Bytes) (ts : List Bytes) (s : Bytes) :
    joined first (t :: ts) ++ s = lead first ++ (t ++ (joined false ts ++ s)) := by
  rw [joined, List.append_assoc, List.append_assoc]

section Spans
variable {V N : Bytes → Prop} {s t u r rest : Bytes} {first : Bool}

theorem Spans.of_skipBlank (h : Spans V t rest) (hs : skipBlank s = t) : Spans V s rest := by
  obtain ⟨w, v, hw, hv, rfl⟩ := h
  obtain ⟨w', hw', rfl⟩ := exists_blanks hs
  refine ⟨w' ++ w, v, fun b hb => ?_, hv, by simp⟩
  exact (List.mem_append.mp hb).elim (hw' b) (hw b)

theorem Spans.mono {V' : Bytes → Prop} (hV : ∀ {t}, V t → V' t) (h : Spans V s rest) :
    Spans V' s rest := by
  obtain ⟨w, v, hw, hv, rfl⟩ := h
  exact ⟨w, v, hw, hV hv, rfl⟩

section Items
variable {P P' : List ElementText → Prop}

theorem SpansItems.nil (hp : P []) (hs : skipBlank s = closeBracket :: rest) :
    SpansItems P first s rest := by
  obtain ⟨w, hw, rfl⟩ := exists_blanks hs
  exact ⟨w, [], hw, hp, rfl⟩

theorem SpansItems.cons_first (hP : ∀ {e es}, V (ElementText.value e) → P es → P' (e :: es))
    (hv : Spans V s t) (hc : SpansItems P false t rest) : SpansItems P' true s rest := by
  obtain ⟨w, v, hw, hv, rfl⟩ := hv
  obtain ⟨w', es, hw', hp, rfl⟩ := hc
  refine ⟨[], ⟨w, v, w', hw, hw'⟩ :: es, isBlanks_nil, hP hv hp, ?_⟩
  rw [List.map_cons, joined_cons_append]
  simp [ElementText.text, lead]

theorem SpansItems.cons_next (hP : ∀ {e es}, V (ElementText.value e) → P es → P' (e :: es))
    (hs : skipBlank s = comma :: r) (hv : Spans V r t) (hc : SpansItems P false t rest) :
    SpansItems P' false s rest := by
  obtain ⟨w₀, hw₀, rfl⟩ := exists_blanks hs
  obtain ⟨w, v, hw, hv, rfl⟩ := hv
  obtain ⟨w', es, hw', hp, rfl⟩ := hc
  refine ⟨w₀, ⟨w, v, w', hw, hw'⟩ :: es, hw₀, hP hv hp, ?_⟩
  rw [List.map_cons, joined_cons_append]
  simp [ElementText.text, lead]

theorem SpansItems.exists_arrayText (h : SpansItems P true s rest) :
    ∃ w es, IsBlanks w ∧ P es ∧ openBracket :: s = arrayText w es ++ rest := by
  obtain ⟨w, es, hw, hp, rfl⟩ := h
  exact ⟨w, es, hw, hp, by simp [arrayText]⟩

end Items

section Members
variable {P P' : List MemberText → Prop}

theorem SpansMembers.nil (hp : P []) (hs : skipBlank s = closeBrace :: rest) :
    SpansMembers P first s rest := by
  obtain ⟨w, hw, rfl⟩ := exists_blanks hs
  exact ⟨w, [], hw, hp, rfl⟩

/-- A name, the value behind it and what follows are a member and further ones. -/
theorem exists_member (hP : ∀ {m : MemberText} {ms}, N m.name → V m.value → P ms → P' (m :: ms))
    (hn : SpansName N s u) (hv : Spans V u t) (hc : SpansMembers P false t rest) :
    ∃ m ms, P' (m :: ms) ∧
      s = m.text ++ (joined false (ms.map MemberText.text) ++ closeBrace :: rest) := by
  obtain ⟨front, name, gap, hfront, hraw, hname, hgap, rfl⟩ := hn
  obtain ⟨w, v, hw, hv, rfl⟩ := hv
  obtain ⟨w', ms, hw', hp, rfl⟩ := hc
  let m : MemberText := ⟨⟨w, v, w', hw, hw'⟩, front, name, gap, hfront, hraw, hgap⟩
  exact ⟨m, ms, hP hname hv hp, by simp [m, MemberText.text, ElementText.text]⟩

theorem SpansMembers.cons_first
    (hP : ∀ {m : MemberText} {ms}, N m.name → V m.value → P ms → P' (m :: ms))
    (hn : SpansName N s u) (hv : Spans V u t) (hc : SpansMembers P false t rest) :
    SpansMembers P' true s rest := by
  obtain ⟨m, ms, hp, rfl⟩ := exists_member hP hn hv hc
  exact ⟨[], m :: ms, isBlanks_nil, hp, by rw [List.map_cons, joined_cons_append]; rfl⟩

theorem SpansMembers.cons_next
    (hP : ∀ {m : MemberText} {ms}, N m.name → V m.value → P ms → P' (m :: ms))
    (hs : skipBlank s = comma :: r) (hn : SpansName N r u) (hv : Spans V u t)
    (hc : SpansMembers P false t rest) : SpansMembers P' false s rest := by
  obtain ⟨w₀, hw₀, rfl⟩ := exists_blanks hs
  obtain ⟨m, ms, hp, rfl⟩ := exists_member hP hn hv hc
  exact ⟨w₀, m :: ms, hw₀, hp, by rw [List.map_cons, joined_cons_append]; rfl⟩

theorem SpansMembers.exists_objectText (h : SpansMembers P true s rest) :
    ∃ w ms, IsBlanks w ∧ P ms ∧ openBrace :: s = objectText w ms ++ rest := by
  obtain ⟨w, ms, hw, hp, rfl⟩ := h
  exact ⟨w, ms, hw, hp, by simp [objectText]⟩

end Members

end Spans

/-! ## What is skipped is a value -/

def AllValues (es : List ElementText) : Prop := ∀ e ∈ es, IsValue e.value

def AllMemberValues (ms : List MemberText) : Prop := ∀ m ∈ ms, IsValue m.value

/-- Further elements and the end of their bracket stand between an input and a rest. -/
def SpansClose : Bracket → Bytes → Bytes → Prop
  | .array => SpansItems AllValues false
  | .object => SpansMembers AllMemberValues false

theorem value_of_skipScalar {bound : Nat} {b : UInt8} {r rest : Bytes}
    (h : skipScalar bound b r = .ok rest) : ∃ t, IsValue t ∧ b :: r = t ++ rest := by
  have hword : ∀ {w : Bytes}, WordStart b w → word (w.drop 1) r = .ok rest →
      ∃ t, IsValue t ∧ b :: r = t ++ rest := by
    intro w hw hr
    refine ⟨w, .word hw, ?_⟩
    rw [eq_append_of_word hr]
    rcases hw with ⟨rfl, rfl⟩ | ⟨rfl, rfl⟩ | ⟨rfl, rfl⟩ <;> rfl
  unfold skipScalar at h
  split at h
  · next hb =>
    subst hb
    obtain ⟨t, ht, rfl⟩ := raw_of_skipString h
    exact ⟨_, .string ht, by simp⟩
  split at h
  · next hb => exact hword (.inl ⟨hb, rfl⟩) h
  split at h
  · next hb => exact hword (.inr (.inl ⟨hb, rfl⟩)) h
  split at h
  · next hb => exact hword (.inr (.inr ⟨hb, rfl⟩)) h
  split at h
  · next hb =>
    subst hb
    obtain ⟨t, ht, rfl⟩ := text_of_skipNumber h
    exact ⟨_, .number true ht, rfl⟩
  split at h
  · obtain ⟨t, ht, heq⟩ := text_of_skipNumber h
    exact ⟨_, .number false ht, heq⟩
  · cases h

theorem spansName_of_skipName {bound : Nat} {s rest : Bytes} (h : skipName bound s = .ok rest) :
    SpansName (fun _ => True) s rest := by
  unfold skipName at h
  split at h
  · cases h
  next b r hs =>
  split at h
  · next hb =>
    subst hb
    obtain ⟨t, ht, hc⟩ := exists_of_bind_eq_ok h
    obtain ⟨front, hfront, rfl⟩ := exists_blanks hs
    obtain ⟨name, hname, rfl⟩ := raw_of_skipString ht
    obtain ⟨gap, hgap, rfl⟩ := exists_blanks (eq_cons_of_expectByte hc)
    exact ⟨front, name, gap, hfront, hname, trivial, hgap, rfl⟩
  · cases h

theorem SpansItems.spans_array {s rest : Bytes} (h : SpansItems AllValues true s rest) :
    Spans IsValue (openBracket :: s) rest := by
  obtain ⟨w, es, hw, he, heq⟩ := h.exists_arrayText
  exact ⟨[], _, isBlanks_nil, .array hw he, heq⟩

theorem SpansMembers.spans_object {s rest : Bytes} (h : SpansMembers AllMemberValues true s rest) :
    Spans IsValue (openBrace :: s) rest := by
  obtain ⟨w, ms, hw, hm, heq⟩ := h.exists_objectText
  exact ⟨[], _, isBlanks_nil, .object hw hm, heq⟩

theorem skimmed_grammar (bound : Nat) : Skimmed bound (Spans IsValue) SpansClose where
  blanks h hs := h.of_skipBlank hs
  scalar := by
    intro s r rest b _ _ hs h
    obtain ⟨w, hw, rfl⟩ := exists_blanks hs
    obtain ⟨t, ht, heq⟩ := value_of_skipScalar h
    exact ⟨w, t, hw, ht, by rw [heq]⟩
  emptyArray hs := SpansItems.spans_array (.nil (List.forall_mem_nil _) hs)
  array hv hc := SpansItems.spans_array
    (.cons_first (fun h hs => List.forall_mem_cons.mpr ⟨h, hs⟩) hv hc)
  bracket hs := SpansItems.nil (List.forall_mem_nil _) hs
  next hs hv hc := SpansItems.cons_next (fun h hs => List.forall_mem_cons.mpr ⟨h, hs⟩) hs hv hc
  emptyObject hs := SpansMembers.spans_object (.nil (List.forall_mem_nil _) hs)
  object hn hv hc := SpansMembers.spans_object (.cons_first
    (fun _ h hs => List.forall_mem_cons.mpr ⟨h, hs⟩) (spansName_of_skipName hn) hv hc)
  brace hs := SpansMembers.nil (List.forall_mem_nil _) hs
  nextMember hs hn hv hc := SpansMembers.cons_next
    (fun _ h hs => List.forall_mem_cons.mpr ⟨h, hs⟩) hs (spansName_of_skipName hn) hv hc

/-- Whatever is skipped is a value of the grammar, behind blanks. -/
theorem spans_of_skip {bound : Nat} {s rest : Bytes} (h : skip bound s = .ok rest) :
    Spans IsValue s rest :=
  (skimmed_grammar bound).of_skip h

end RpcGateway.Json
