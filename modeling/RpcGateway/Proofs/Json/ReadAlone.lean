import RpcGateway.Proofs.Json.Spelling

/-!
Values that are read alone. What a reader makes of a value, be it a fault, depends neither on the
blanks in front nor on what follows, so an array or an object is read by what its elements and
members are read as by themselves.
-/
namespace RpcGateway.Json

/-- What a reader makes of a text with nothing behind it. -/
def outcome {α : Type} (read : Bytes → Reading α) (t : Bytes) : Except Fault α :=
  (read t).map Prod.fst

/-- What follows a text does not matter to the reader, unless it continues a number. -/
def Settles {α : Type} (bound : Nat) (read : Bytes → Reading α) (t : Bytes) : Prop :=
  ∀ rest, (t ++ rest).length ≤ bound → StopsNumber rest →
    read (t ++ rest) = (outcome read t).map (·, rest)

/-- Neither what follows a value matters to the reader nor the blanks in front of it. -/
structure Local {α : Type} (bound : Nat) (read : Bytes → Reading α) : Prop where
  blanks : ∀ s, read (skipBlank s) = read s
  settles : ∀ {t}, IsValue t → Settles bound read t

section Local
variable {α β : Type} {bound : Nat} {read : Bytes → Reading α} {t : Bytes}

theorem length_alone_le {rest : Bytes} (h : (t ++ rest).length ≤ bound) :
    (t ++ []).length ≤ bound := by
  rw [List.length_append] at h
  rw [List.append_nil]
  omega

theorem Settles.alone {rest : Bytes} (h : Settles bound read t)
    (hl : (t ++ rest).length ≤ bound) : read t = (outcome read t).map (·, []) := by
  have halone := h [] (length_alone_le hl) stopsNumber_nil
  rwa [List.append_nil] at halone

theorem settles_of_forall (o : Except Fault α)
    (h : ∀ rest, (t ++ rest).length ≤ bound → StopsNumber rest →
      read (t ++ rest) = o.map (·, rest)) : Settles bound read t := by
  intro rest hl hr
  have halone := h [] (length_alone_le hl) stopsNumber_nil
  rw [List.append_nil] at halone
  rw [h rest hl hr, outcome, halone]
  cases o <;> rfl

theorem settles_error (e : Fault) (t : Bytes) :
    Settles bound (fun _ => (.error e : Reading α)) t :=
  fun _ _ _ => rfl

theorem Settles.map (f : α → β) (h : Settles bound read t) :
    Settles bound (fun s => (read s).map fun p => (f p.1, p.2)) t := by
  refine settles_of_forall ((outcome read t).map f) fun rest hl hr => ?_
  rw [h rest hl hr]
  cases outcome read t <;> rfl

theorem Local.map (f : α → β) (h : Local bound read) :
    Local bound fun s => (read s).map fun p => (f p.1, p.2) :=
  ⟨fun s => by rw [h.blanks], fun ht => (h.settles ht).map f⟩

theorem Local.blanks_append (h : Local bound read) {w : Bytes} (hw : IsBlanks w) (s : Bytes) :
    read (w ++ s) = read s := by
  rw [← h.blanks, skipBlank_append hw, h.blanks]

end Local

/-! ## Strings -/

/-- Reads the second escape of a pair. -/
def lowUnit (high : Nat) (s : Bytes) : Except Fault (Bytes × Bytes) := do
  let s ← expectByte backslash s
  let s ← expectByte 0x75 s
  let (low, s) ← hex4 s
  if isLowSurrogate low then return (String.utf8EncodeChar (pairChar high low), s)
  else .error .malformed

/-- In front of the rest of a string and its closing quote a reader fails, or it takes a part of that
rest, and what follows the quote does not matter to it. -/
def Decides (read : Bytes → Reading Bytes) (t : Bytes) : Prop :=
  (∀ rest, read (t ++ quote :: rest) = .error .malformed) ∨
    ∃ bs u, RawText u ∧ ∀ rest, read (t ++ quote :: rest) = .ok (bs, u ++ quote :: rest)

theorem Decides.congr {read read' : Bytes → Reading Bytes} {t u : Bytes} (h : Decides read t)
    (heq : ∀ rest, read' (u ++ quote :: rest) = read (t ++ quote :: rest)) : Decides read' u := by
  rcases h with hfault | ⟨bs, v, hv, hread⟩
  · exact .inl fun rest => (heq rest).trans (hfault rest)
  · exact .inr ⟨bs, v, hv, fun rest => (heq rest).trans (hread rest)⟩

theorem decides_lowUnit {t : Bytes} (ht : RawText t) (high : Nat) : Decides (lowUnit high) t := by
  cases ht with
  | nil => exact .inl fun rest => rfl
  | plain _ hb =>
    refine .inl fun rest => ?_
    simp only [lowUnit, List.cons_append, expectByte, hb, if_false]
    rfl
  | letter hc =>
    refine .inl fun rest => ?_
    simp only [lowUnit, List.cons_append, expectByte, bind, Except.bind, hc, if_true, if_false]
  | @unit u t low hunit ht =>
    have hhex : ∀ s, hex4 (u ++ s) = .ok (low, s) := fun s => hex4_eq_ok_iff.mpr ⟨u, hunit, rfl⟩
    cases hlow : isLowSurrogate low with
    | false =>
      refine .inl fun rest => ?_
      simp only [lowUnit, List.cons_append, List.append_assoc, expectByte, if_true, bind,
        Except.bind, hhex, hlow, Bool.false_eq_true, if_false]
    | true =>
      refine .inr ⟨String.utf8EncodeChar (pairChar high low), t, ht, fun rest => ?_⟩
      simp only [lowUnit, List.cons_append, List.append_assoc, expectByte, if_true, bind,
        Except.bind, hhex, hlow]
      rfl

theorem decides_unicodeEscape {u t : Bytes} {n : Nat} (hunit : IsUnit u n) (ht : RawText t) :
    Decides unicodeEscape (u ++ t) := by
  have hhex : ∀ s, hex4 (u ++ s) = .ok (n, s) := fun s => hex4_eq_ok_iff.mpr ⟨u, hunit, rfl⟩
  cases hlow : isLowSurrogate n with
  | true =>
    refine .inl fun rest => ?_
    simp only [List.append_assoc, unicodeEscape, hhex, bind, Except.bind, hlow, if_true]
  | false =>
  cases hhigh : isHighSurrogate n with
  | false =>
    refine .inr ⟨String.utf8EncodeChar (Char.ofNat n), t, ht, fun rest => ?_⟩
    simp only [List.append_assoc, unicodeEscape, hhex, bind, Except.bind, hlow, hhigh,
      Bool.false_eq_true, if_false]
    rfl
  | true =>
    -- A high surrogate needs a low one behind it.
    refine (decides_lowUnit ht n).congr fun rest => ?_
    simp only [List.append_assoc, unicodeEscape, hhex, bind, Except.bind, hlow, hhigh,
      Bool.false_eq_true, if_true, if_false]
    rfl

theorem decides_escape {t : Bytes} (ht : RawText (backslash :: t)) : Decides escape t := by
  cases ht with
  | plain _ hb => exact absurd rfl hb
  | @letter c t hc hs ht =>
    obtain ⟨d, hd⟩ := Option.isSome_iff_exists.mp hs
    refine .inr ⟨[d], t, ht, fun rest => ?_⟩
    simp only [List.cons_append, escape, hc, if_false, hd]
  | unit hunit ht =>
    refine (decides_unicodeEscape hunit ht).congr fun rest => ?_
    simp only [List.cons_append, escape, if_true]

/-- The bytes of a string are found, or a fault, before what follows its closing quote is seen. -/
theorem exists_stringBytes {t : Bytes} (ht : RawText t) (fuel : Nat) (acc : Bytes) :
    ∃ o : Except Fault Bytes, ∀ rest, stringBytes fuel acc (t ++ quote :: rest) =
      o.map (·, rest) := by
  induction fuel generalizing t acc with
  | zero => exact ⟨.error .truncated, fun rest => rfl⟩
  | succ fuel ih =>
    have hescape : ∀ u, RawText (backslash :: u) → ∃ o : Except Fault Bytes, ∀ rest,
        stringBytes (fuel + 1) acc (backslash :: u ++ quote :: rest) = o.map (·, rest) := by
      intro u hu
      have hq : backslash ≠ quote := by decide
      rcases decides_escape hu with hfault | ⟨bs, v, hv, hread⟩
      · refine ⟨.error .malformed, fun rest => ?_⟩
        simp only [List.cons_append, stringBytes, hq, hfault, if_true, if_false]
        rfl
      · obtain ⟨o, ho⟩ := ih hv (bs.reverse ++ acc)
        refine ⟨o, fun rest => ?_⟩
        simp only [List.cons_append, stringBytes, hq, hread, if_true, if_false]
        exact ho rest
    cases ht with
    | nil => exact ⟨.ok acc.reverse, fun rest => rfl⟩
    | @plain b t hq hb hc ht =>
      obtain ⟨o, ho⟩ := ih ht (b :: acc)
      refine ⟨o, fun rest => ?_⟩
      simp only [List.cons_append, stringBytes, hq, hb, hc, if_false]
      exact ho rest
    | letter hc hs ht => exact hescape _ (.letter hc hs ht)
    | unit hunit ht => exact hescape _ (.unit hunit ht)

theorem string_raw {bound : Nat} {t : Bytes} (ht : RawText t) (rest : Bytes) :
    string bound (t ++ quote :: rest) =
      (outcome (string bound) (t ++ [quote])).map (·, rest) := by
  obtain ⟨o, ho⟩ := exists_stringBytes ht (bound + 1) []
  rw [outcome, string, string, ho, ho]
  cases o with
  | error e => rfl
  | ok bs =>
    simp only [Except.map]
    cases ofUtf8? bs <;> rfl

/-- A string that is read is what its text spells. -/
theorem outcome_string_eq_ok_iff {bound : Nat} {t : Bytes} {k : String} (ht : RawText t)
    (hl : t.length ≤ bound) :
    outcome (string bound) (t ++ [quote]) = .ok k ↔ Spells t (utf8 k) := by
  constructor
  · intro h
    obtain ⟨⟨k', rest⟩, hread, heq⟩ := exists_of_map_eq_ok h
    obtain rfl : k' = k := heq
    obtain ⟨t', ht', htext⟩ := spells_of_string hread
    -- Both texts end at the first quote that is not escaped.
    have hskip := skipString_raw ht [] (Nat.lt_succ_of_le (Nat.le_max_left t.length t'.length))
    have hskip' := skipString_raw ht'.rawText rest
      (Nat.lt_succ_of_le (Nat.le_max_right t.length t'.length))
    rw [htext, hskip'] at hskip
    cases hskip
    rwa [List.append_cancel_right htext]
  · intro h
    rw [outcome, string_of_spells h [] hl]
    rfl

/-! ## Values -/

section Values
variable {bound : Nat} {t : Bytes} {array object : Bytes → Reading Json}

/-- A reader of what is left of an array, be it from its first element on, settles on it. -/
def SettlesInArray {α : Type} (bound : Nat) (first : Bool) (read : Bytes → Reading α) : Prop :=
  ∀ w (es : List ElementText), IsBlanks w → AllValues es →
    Settles bound read (w ++ (joined first (es.map ElementText.text) ++ [closeBracket]))

def SettlesInObject {α : Type} (bound : Nat) (read : Bytes → Reading α) : Prop :=
  ∀ w (ms : List MemberText), IsBlanks w → AllMemberValues ms →
    Settles bound read (w ++ (joined true (ms.map MemberText.text) ++ [closeBrace]))

theorem settles_valueWith (ha : SettlesInArray bound true array) (ho : SettlesInObject bound object)
    (ht : IsValue t) : Settles bound (valueWith bound array object) t := by
  cases ht with
  | @word b t hw =>
    refine settles_of_forall (.ok (wordValue b)) fun rest _ _ => ?_
    rcases hw with ⟨rfl, rfl⟩ | ⟨rfl, rfl⟩ | ⟨rfl, rfl⟩ <;> rfl
  | @number negative t hn =>
    obtain ⟨o, ho⟩ := steady_number negative hn
    refine settles_of_forall o fun rest _ hr => ?_
    rw [valueWith_number negative hn]
    exact ho rest hr
  | @string t hraw =>
    refine settles_of_forall ((outcome (string bound) (t ++ [quote])).map .str)
      fun rest _ _ => ?_
    have hblank : ∀ s, skipBlank (quote :: s) = quote :: s := fun _ => rfl
    simp only [List.cons_append, List.append_assoc, List.nil_append, valueWith, hblank, if_true,
      string_raw hraw]
    cases outcome (string bound) (t ++ [quote]) <;> rfl
  | array hw he =>
    have hread : ∀ s, valueWith bound array object (openBracket :: s) = array s := fun _ => rfl
    have hinside := ha _ _ hw he
    exact settles_of_forall _ fun rest hl hr =>
      (hread _).trans (hinside rest (Nat.le_of_succ_le hl) hr)
  | object hw hm =>
    have hread : ∀ s, valueWith bound array object (openBrace :: s) = object s := fun _ => rfl
    have hinside := ho _ _ hw hm
    exact settles_of_forall _ fun rest hl hr =>
      (hread _).trans (hinside rest (Nat.le_of_succ_le hl) hr)

theorem valueWith_skipBlank (s : Bytes) :
    valueWith bound array object (skipBlank s) = valueWith bound array object s := by
  simp only [valueWith, skipBlank_skipBlank]

theorem local_valueWith (ha : SettlesInArray bound true array) (ho : SettlesInObject bound object) :
    Local bound (valueWith bound array object) :=
  ⟨valueWith_skipBlank, settles_valueWith ha ho⟩

end Values

/-! ## Elements and members -/

section Loops
variable {bound : Nat} {w s rest : Bytes}

theorem nextItem_text (first : Bool) (hw : IsBlanks w) (e : ElementText) (hv : IsValue e.value) :
    nextItem first (w ++ (lead first ++ (e.text ++ s))) =
      .ok (true, e.value ++ (e.after ++ s)) := by
  obtain ⟨b, r, hvalue, hb, hclose⟩ : ∃ b r, e.value ++ (e.after ++ s) = b :: r ∧
      isBlank b = false ∧ b ≠ closeBracket := by
    obtain ⟨b, r, hcons, hb, hclose, -⟩ := hv.exists_cons
    exact ⟨b, r ++ (e.after ++ s), by rw [hcons, List.cons_append], hb, hclose⟩
  have hskip := skipBlank_blanks_cons e.isBlanks_before hb r
  rw [ElementText.text, List.append_assoc, List.append_assoc, hvalue]
  cases first with
  | true =>
    simp only [lead, if_true, List.nil_append, nextItem, skipBlank_append hw, hskip, hclose,
      if_false]
  | false =>
    have hcomma : comma ≠ closeBracket := by decide
    have hlead : ∀ u, skipBlank (w ++ comma :: u) = comma :: u :=
      skipBlank_blanks_cons hw (by decide)
    simp only [lead, Bool.false_eq_true, if_false, List.cons_append, List.nil_append, nextItem,
      hlead, hskip, hclose, hcomma, if_true]

theorem nextItem_end (first : Bool) (hw : IsBlanks w) (rest : Bytes) :
    nextItem first (w ++ closeBracket :: rest) = .ok (false, closeBracket :: rest) := by
  have hclose := skipBlank_blanks_cons hw (by decide : isBlank closeBracket = false) rest
  simp only [nextItem, hclose, if_true]

/-- The elements of an array are read each by itself. -/
theorem items_texts {α : Type} {element : Bytes → Reading α} (he : Local bound element)
    {es : List ElementText} (hes : AllValues es) {fuel : Nat} (hfuel : es.length < fuel)
    (first : Bool) (acc : List α) (hw : IsBlanks w)
    (hl : (w ++ (joined first (es.map ElementText.text) ++ closeBracket :: rest)).length ≤ bound) :
    items element fuel first acc
        (w ++ (joined first (es.map ElementText.text) ++ closeBracket :: rest)) =
      (es.mapM fun e => outcome element e.value).map fun xs => (acc.reverse ++ xs, rest) := by
  induction es generalizing fuel first acc w with
  | nil =>
    obtain ⟨fuel, rfl⟩ : ∃ k, fuel = k + 1 := ⟨fuel - 1, by omega⟩
    have hend : endItems (closeBracket :: rest) = .ok rest := rfl
    simp only [List.map_nil, joined, List.nil_append, items, nextItem_end first hw, hend,
      List.mapM_nil, Except.map, pure, Except.pure, List.append_nil]
  | cons e es ih =>
    obtain ⟨fuel, rfl⟩ : ∃ k, fuel = k + 1 := ⟨fuel - 1, by omega⟩
    obtain ⟨hv, hes⟩ := List.forall_mem_cons.mp hes
    have hstop := stopsNumber_blanks e.isBlanks_after
      (stopsNumber_joined (es.map ElementText.text) rest (.inl rfl))
    rw [List.map_cons, joined_cons_append] at hl ⊢
    simp only [ElementText.text, List.append_assoc] at hl
    rw [List.length_append, List.length_append, List.length_append, List.length_append] at hl
    rw [List.length_cons] at hfuel
    have hread := he.settles hv _ (by rw [List.length_append]; omega) hstop
    simp only [items, nextItem_text first hw e hv, hread, List.mapM_cons]
    cases outcome element e.value with
    | error f => rfl
    | ok x =>
      simp only [Except.map]
      rw [ih hes (by omega) false (x :: acc) e.isBlanks_after (by omega)]
      cases es.mapM fun e => outcome element e.value with
      | error f => rfl
      | ok xs => simp [Except.map, bind, Except.bind, pure, Except.pure]

/-- What stands behind the name of a member, up to the end of its value. -/
def MemberText.tail (m : MemberText) : Bytes := m.gap ++ colon :: (m.before ++ m.value)

theorem nextName_text (first : Bool) (hw : IsBlanks w) (m : MemberText) :
    nextName bound first (w ++ (lead first ++ (m.text ++ s))) =
      (outcome (string bound) (m.name ++ [quote])).map
        fun k => (some k, m.tail ++ (m.after ++ s)) := by
  have hfront : ∀ r, skipBlank (m.front ++ quote :: r) = quote :: r :=
    skipBlank_blanks_cons m.isBlanks_front (by decide)
  have hquote : quote ≠ closeBrace := by decide
  have hcomma : comma ≠ closeBrace := by decide
  have hlead : ∀ u, skipBlank (w ++ comma :: u) = comma :: u :=
    skipBlank_blanks_cons hw (by decide)
  simp only [MemberText.text, ElementText.text, MemberText.tail, List.append_assoc,
    List.cons_append]
  cases first with
  | true =>
    simp only [lead, if_true, List.nil_append, nextName, skipBlank_append hw, hfront, hquote,
      if_false, string_raw m.rawText_name]
    cases outcome (string bound) (m.name ++ [quote]) <;> rfl
  | false =>
    simp only [lead, Bool.false_eq_true, if_false, List.cons_append, List.nil_append, nextName,
      hlead, hcomma, if_true, hfront, string_raw m.rawText_name]
    cases outcome (string bound) (m.name ++ [quote]) <;> rfl

/-- What a member by itself makes of the state of a loop over members. -/
def memberEffect {σ : Type} (bound : Nat) (step : σ → String → Bytes → Reading σ) (state : σ)
    (m : MemberText) : Except Fault σ :=
  (outcome (string bound) (m.name ++ [quote])).bind fun k => outcome (step state k) m.tail

/-- Each member settles on what it makes of the state. -/
def LocalStep {σ : Type} (bound : Nat) (step : σ → String → Bytes → Reading σ) : Prop :=
  ∀ state k (m : MemberText), IsValue m.value → Settles bound (step state k) m.tail

/-- The members of an object take effect one after the other, each by itself. -/
theorem members_texts {σ : Type} {step : σ → String → Bytes → Reading σ}
    (hstep : LocalStep bound step) {ms : List MemberText} (hms : AllMemberValues ms) {fuel : Nat}
    (hfuel : ms.length < fuel) (first : Bool) (state : σ) (hw : IsBlanks w)
    (hl : (w ++ (joined first (ms.map MemberText.text) ++ closeBrace :: rest)).length ≤ bound) :
    members bound step fuel first state
        (w ++ (joined first (ms.map MemberText.text) ++ closeBrace :: rest)) =
      (ms.foldlM (memberEffect bound step) state).map (·, rest) := by
  induction ms generalizing fuel first state w with
  | nil =>
    obtain ⟨fuel, rfl⟩ : ∃ k, fuel = k + 1 := ⟨fuel - 1, by omega⟩
    have hclose := skipBlank_blanks_cons hw (by decide : isBlank closeBrace = false) rest
    simp only [List.map_nil, joined, List.nil_append, members, nextName, hclose, if_true,
      List.foldlM_nil, Except.map, pure, Except.pure]
  | cons m ms ih =>
    obtain ⟨fuel, rfl⟩ : ∃ k, fuel = k + 1 := ⟨fuel - 1, by omega⟩
    obtain ⟨hv, hms⟩ := List.forall_mem_cons.mp hms
    have hstop := stopsNumber_blanks m.isBlanks_after
      (stopsNumber_joined (ms.map MemberText.text) rest (.inr rfl))
    rw [List.map_cons, joined_cons_append] at hl ⊢
    have hlen : (m.tail ++ (m.after ++
        (joined false (ms.map MemberText.text) ++ closeBrace :: rest))).length ≤ bound := by
      simp only [MemberText.text, ElementText.text, MemberText.tail, List.length_append,
        List.length_cons] at hl ⊢
      omega
    rw [List.length_cons] at hfuel
    simp only [members, nextName_text first hw m, List.foldlM_cons, memberEffect]
    cases outcome (string bound) (m.name ++ [quote]) with
    | error f => rfl
    | ok k =>
      simp only [Except.map, Except.bind, hstep state k m hv _ hlen hstop]
      cases outcome (step state k) m.tail with
      | error f => rfl
      | ok next =>
        rw [List.length_append] at hlen
        exact ih hms (by omega) false next m.isBlanks_after (by omega)

end Loops

/-! ## Readers of values -/

section Readers
variable {bound : Nat}

theorem settlesInArray_items {α β : Type} {element : Bytes → Reading α} (he : Local bound element)
    (f : List α → β) :
    SettlesInArray bound true fun s =>
      (items element (bound + 1) true [] s).map fun p => (f p.1, p.2) := by
  intro w es hw hes
  refine settles_of_forall ((es.mapM fun e => outcome element e.value).map f)
    fun rest hl _ => ?_
  simp only [List.append_assoc, List.cons_append, List.nil_append] at hl ⊢
  have hcount := length_le_joined true (es.map ElementText.text) closeBracket rest
  rw [List.length_map] at hcount
  rw [List.length_append] at hl
  rw [items_texts he hes (by omega) true [] hw (by rw [List.length_append]; omega)]
  cases es.mapM fun e => outcome element e.value <;> rfl

theorem settlesInObject_members {σ β : Type} {step : σ → String → Bytes → Reading σ}
    (hstep : LocalStep bound step) (state : σ) (f : σ → Except Fault β) :
    SettlesInObject bound fun s =>
      (members bound step (bound + 1) true state s).bind fun p => (f p.1).map (·, p.2) := by
  intro w ms hw hms
  refine settles_of_forall ((ms.foldlM (memberEffect bound step) state).bind f)
    fun rest hl _ => ?_
  simp only [List.append_assoc, List.cons_append, List.nil_append] at hl ⊢
  have hcount := length_le_joined true (ms.map MemberText.text) closeBrace rest
  rw [List.length_map] at hcount
  rw [List.length_append] at hl
  rw [members_texts hstep hms (by omega) true state hw (by rw [List.length_append]; omega)]
  cases ms.foldlM (memberEffect bound step) state <;> rfl

theorem afterColon_tail (m : MemberText) (rest : Bytes) :
    afterColon (m.tail ++ rest) = .ok (m.before ++ (m.value ++ rest)) := by
  simp only [MemberText.tail, List.append_assoc, List.cons_append, afterColon,
    skipBlank_blanks_cons m.isBlanks_gap (by decide : isBlank colon = false)]
  rfl

theorem outcome_behindColon {α : Type} {read : Bytes → Reading α} (hread : Local bound read)
    (m : MemberText) :
    outcome (fun s =>
      match afterColon s with
      | .error e => .error e
      | .ok s => read s) m.tail = outcome read m.value := by
  have hcolon := afterColon_tail m []
  rw [List.append_nil, List.append_nil] at hcolon
  simp only [outcome, hcolon, hread.blanks_append m.isBlanks_before]

/-- A value behind a colon is read as by itself. -/
theorem settles_behindColon {α : Type} {read : Bytes → Reading α} (hread : Local bound read)
    {m : MemberText} (hv : IsValue m.value) :
    Settles bound (fun s =>
      match afterColon s with
      | .error e => .error e
      | .ok s => read s) m.tail := by
  refine settles_of_forall (outcome read m.value) fun rest hl hr => ?_
  simp only [afterColon_tail, hread.blanks_append m.isBlanks_before]
  simp only [MemberText.tail, List.length_append, List.length_cons] at hl
  exact hread.settles hv rest (by rw [List.length_append]; omega) hr

theorem localStep_freeMember {element : Bytes → Reading Json} (he : Local bound element) :
    LocalStep bound (freeMember element) := by
  intro before k m hv
  exact settles_behindColon (he.map fun v => putMember k v before) hv

theorem local_value (depth : Nat) : Local bound (value bound depth) := by
  induction depth with
  | zero =>
    exact local_valueWith (fun _ _ _ _ => settles_error _ _) (fun _ _ _ _ => settles_error _ _)
  | succ depth ih =>
    refine local_valueWith (settlesInArray_items ih Json.arr) ?_
    have hsame : (fun s =>
        (members bound (freeMember (value bound depth)) (bound + 1) true [] s).map
          fun p => (Json.obj p.1, p.2)) = fun s =>
        (members bound (freeMember (value bound depth)) (bound + 1) true [] s).bind
          fun p => (Except.ok (Json.obj p.1)).map (·, p.2) := by
      funext s
      cases members bound (freeMember (value bound depth)) (bound + 1) true [] s <;> rfl
    rw [hsame]
    exact settlesInObject_members (localStep_freeMember ih) [] fun ms => .ok (Json.obj ms)

/-- Where arrays and objects are not wanted their bracket is enough to refuse them. -/
theorem local_scalar :
    Local bound (valueWith bound (fun _ => .error .mismatch) (fun _ => .error .mismatch)) :=
  local_valueWith (fun _ _ _ _ => settles_error _ _) (fun _ _ _ _ => settles_error _ _)

/-- The fault of a value of another kind than the wanted one is that of the value by itself. -/
theorem settles_unexpected {α : Type} {t : Bytes} (ht : IsValue t) :
    Settles bound (fun s => (.error (unexpected bound s) : Reading α)) t := by
  refine settles_of_forall (.error (unexpected bound t)) fun rest hl hr => ?_
  have hscalar : Settles bound _ t := local_scalar.settles ht
  rw [unexpected, unexpected, hscalar rest hl hr, hscalar.alone hl]
  cases outcome _ t <;> rfl

theorem settles_of_unexpected {α : Type} {read : Bytes → Reading α} {t : Bytes} (ht : IsValue t)
    (h : ∀ rest, read (t ++ rest) = .error (unexpected bound (t ++ rest))) :
    Settles bound read t := by
  intro rest hl hr
  have halone := h []
  rw [List.append_nil] at halone
  rw [outcome, halone, h]
  exact settles_unexpected ht rest hl hr

theorem unexpected_skipBlank (s : Bytes) : unexpected bound (skipBlank s) = unexpected bound s := by
  rw [unexpected, unexpected, valueWith_skipBlank]

theorem local_stringValue : Local bound (stringValue bound) := by
  refine ⟨fun s => by simp only [stringValue, skipBlank_skipBlank, unexpected_skipBlank], ?_⟩
  intro t ht
  have hother : (∀ r, t ≠ quote :: r) → Settles bound (stringValue bound) t := by
    intro hne
    obtain ⟨b, r, rfl, hb, -⟩ := ht.exists_cons
    have hquote : b ≠ quote := fun h => hne r (by rw [h])
    refine settles_of_unexpected ht fun rest => ?_
    have hblank : skipBlank (b :: (r ++ rest)) = b :: (r ++ rest) := skipBlank_of_not_blank _ hb
    simp only [stringValue, List.cons_append, hblank, hquote, if_false]
  cases ht with
  | @string t hraw =>
    refine settles_of_forall (outcome (string bound) (t ++ [quote])) fun rest _ _ => ?_
    have hblank : ∀ s, skipBlank (quote :: s) = quote :: s := fun _ => rfl
    simp only [List.cons_append, List.append_assoc, List.nil_append, stringValue, hblank, if_true,
      string_raw hraw]
  | word hw =>
    refine hother fun r h => ?_
    rcases hw with ⟨-, rfl⟩ | ⟨-, rfl⟩ | ⟨-, rfl⟩ <;> cases h
  | number negative hn => exact hother fun r => signed_ne hn (by decide) (by decide)
  | array => exact hother fun r h => by cases h
  | object => exact hother fun r h => by cases h

theorem local_int32Value : Local bound (int32Value bound) := by
  refine ⟨fun s => by simp only [int32Value, valueWith_skipBlank], fun {t} ht => ?_⟩
  have hscalar : Settles bound _ t := local_scalar.settles ht
  intro rest hl hr
  rw [outcome, int32Value, int32Value, hscalar rest hl hr, hscalar.alone hl]
  cases outcome (valueWith bound (fun _ => .error .mismatch) fun _ => .error .mismatch) t with
  | error e => rfl
  | ok v =>
    cases v with
    | int i =>
      simp only [Except.map]
      split <;> rfl
    | _ => rfl

/-- Of all values only the word `null` begins as it does. -/
theorem IsValue.eq_nullWord {r : Bytes} (h : IsValue (0x6E :: r)) : 0x6E :: r = nullWord := by
  generalize ht : 0x6E :: r = t at h
  cases h with
  | word hw => rcases hw with ⟨-, rfl⟩ | ⟨-, rfl⟩ | ⟨-, rfl⟩ <;> first | rfl | cases ht
  | number negative hn => exact absurd ht.symm (signed_ne hn (by decide) (by decide))
  | string => cases ht
  | array => cases ht
  | object => cases ht

theorem local_optional {α : Type} {read : Bytes → Reading α} (hread : Local bound read) :
    Local bound (optional read) := by
  refine ⟨fun s => by simp only [optional, skipBlank_skipBlank], fun {t} ht => ?_⟩
  obtain ⟨b, r, rfl, hblank, -⟩ := ht.exists_cons
  by_cases hb : b = 0x6E
  · subst hb
    rw [ht.eq_nullWord]
    exact settles_of_forall (.ok none) fun rest _ _ => rfl
  · refine settles_of_forall ((outcome read (b :: r)).map some) fun rest hl hr => ?_
    have hvalue := hread.settles ht rest hl hr
    have hskip : skipBlank (b :: (r ++ rest)) = b :: (r ++ rest) :=
      skipBlank_of_not_blank _ hblank
    simp only [List.cons_append] at hvalue
    simp only [optional, List.cons_append, hskip, hb, if_false, hvalue]
    cases outcome read (b :: r) <;> rfl

theorem local_skip {σ : Type} (state : σ) :
    Local bound fun s => (skip bound s).map (state, ·) := by
  refine ⟨fun s => ?_, fun {t} ht => ?_⟩
  · rw [skip, skip, skipValue_congr _ _ (skipBlank_skipBlank s)]
  · refine settles_of_forall (.ok state) fun rest hl hr => ?_
    rw [skip_of_skipsTo (ht.valueText bound rest hl hr) hl]
    rfl

end Readers

end RpcGateway.Json
