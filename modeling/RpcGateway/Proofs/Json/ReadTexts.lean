import RpcGateway.Proofs.Json.Spelling

/-!
The texts that readers take. A value that is read is JSON in UTF-8, behind blanks. Members that are
read one after the other are named in UTF-8, and their values are what the reader of each takes.
-/
namespace RpcGateway.Json
open Text

/-- A value in UTF-8. -/
structure IsJson (t : Bytes) : Prop where
  isValue : IsValue t
  isUtf8 : IsUtf8 t

/-- Whatever the reader takes has the property. -/
def Takes {α : Type} (V : Bytes → Prop) (read : Bytes → Reading α) : Prop :=
  ∀ {s x rest}, read s = .ok (x, rest) → Spans V s rest

/-! ## UTF-8 -/

theorem lt_of_isDigit {b : UInt8} (h : isDigit b = true) : b < 0x80 := by
  simp only [isDigit, Bool.and_eq_true, decide_eq_true_eq] at h
  exact UInt8.lt_of_le_of_lt h.2 (by decide)

theorem isUtf8_blanks {w : Bytes} (hw : IsBlanks w) : IsUtf8 w := by
  refine isUtf8_of_ascii fun b hb => ?_
  have hblank : ((b = 0x20 ∨ b = 0x0A) ∨ b = 0x09) ∨ b = 0x0D := by simpa [isBlank] using hw b hb
  rcases hblank with ((rfl | rfl) | rfl) | rfl <;> decide

theorem isUtf8_run {ds : Bytes} (hd : IsRun ds) : IsUtf8 ds :=
  isUtf8_of_ascii fun d h => lt_of_isDigit (hd.digits d h)

theorem isUtf8_exponent {t : Bytes} (ht : ExponentText t) : IsUtf8 t := by
  cases ht with
  | signed down he => exact (isUtf8_run he).cons (by cases down <;> decide)
  | plain he => exact isUtf8_run he

theorem isUtf8_scale {t : Bytes} (ht : ScaleText t) : IsUtf8 t := by
  cases ht with
  | none => exact isUtf8_of_ascii (List.forall_mem_nil _)
  | exponent hl h => exact (isUtf8_exponent h).cons (by rcases hl with rfl | rfl <;> decide)

theorem isUtf8_number {t : Bytes} (ht : NumberText t) : IsUtf8 t := by
  cases ht with
  | whole hd _ ht => exact (isUtf8_run hd).append (isUtf8_scale ht)
  | fraction hd _ hf ht =>
    exact (isUtf8_run hd).append (((isUtf8_run hf).append (isUtf8_scale ht)).cons (by decide))

theorem isUtf8_joined (first : Bool) {ts : List Bytes} (h : ∀ t ∈ ts, IsUtf8 t) :
    IsUtf8 (joined first ts) := by
  induction ts generalizing first with
  | nil => exact isUtf8_of_ascii (List.forall_mem_nil _)
  | cons t ts ih =>
    obtain ⟨ht, hts⟩ := List.forall_mem_cons.mp h
    have hlead : IsUtf8 (lead first) := by
      cases first with
      | true => exact isUtf8_of_ascii (List.forall_mem_nil _)
      | false => exact isUtf8_of_ascii (List.forall_mem_singleton.mpr (by decide))
    exact hlead.append (ht.append (ih false hts))

theorem ElementText.isUtf8_text {e : ElementText} (h : IsUtf8 e.value) : IsUtf8 e.text :=
  (isUtf8_blanks e.isBlanks_before).append (h.append (isUtf8_blanks e.isBlanks_after))

theorem MemberText.isUtf8_text {m : MemberText} (hn : IsUtf8 m.name) (hv : IsUtf8 m.value) :
    IsUtf8 m.text := by
  have hvalue := (ElementText.isUtf8_text hv).cons (by decide : colon < 0x80)
  have hgap := ((isUtf8_blanks m.isBlanks_gap).append hvalue).cons (by decide : quote < 0x80)
  exact (isUtf8_blanks m.isBlanks_front).append ((hn.append hgap).cons (by decide))

theorem isUtf8_bracketed {w t : Bytes} {b c : UInt8} (hb : b < 0x80) (hc : c < 0x80)
    (hw : IsBlanks w) (ht : IsUtf8 t) : IsUtf8 (b :: (w ++ (t ++ [c]))) := by
  have hend : IsUtf8 [c] := isUtf8_of_ascii (List.forall_mem_singleton.mpr hc)
  exact ((isUtf8_blanks hw).append (ht.append hend)).cons hb

theorem isJson_array {w : Bytes} {es : List ElementText} (hw : IsBlanks w)
    (he : ∀ e ∈ es, IsJson e.value) : IsJson (arrayText w es) := by
  refine ⟨.array hw fun e h => (he e h).isValue, ?_⟩
  refine isUtf8_bracketed (by decide) (by decide) hw (isUtf8_joined _ fun t ht => ?_)
  obtain ⟨e, hmem, rfl⟩ := List.mem_map.mp ht
  exact e.isUtf8_text (he e hmem).isUtf8

/-! ## Named members -/

/-- What stands between the quotes of a name spells it. -/
def MemberText.Named (m : MemberText) (k : String) : Prop := Spells m.name (utf8 k)

/-- Each member has a name, and a value that may stand under that name. -/
def Wanted (V : String → Bytes → Prop) (ms : List MemberText) : Prop :=
  ∀ m ∈ ms, ∃ k, m.Named k ∧ V k m.value

theorem isJson_object {w : Bytes} {ms : List MemberText} (hw : IsBlanks w)
    (hm : Wanted (fun _ => IsJson) ms) : IsJson (objectText w ms) := by
  refine ⟨.object hw fun m h => ?_, ?_⟩
  · obtain ⟨k, -, hv⟩ := hm m h
    exact hv.isValue
  · refine isUtf8_bracketed (by decide) (by decide) hw (isUtf8_joined _ fun t ht => ?_)
    obtain ⟨m, hmem, rfl⟩ := List.mem_map.mp ht
    obtain ⟨k, hk, hv⟩ := hm m hmem
    exact m.isUtf8_text (isUtf8_of_spells hk) hv.isUtf8

section Reading
variable {bound : Nat} {s t u r rest : Bytes} {b : UInt8} {first : Bool}

theorem spansName_of_string {k : String} (hs : skipBlank s = quote :: r)
    (hk : string bound r = .ok (k, t)) (hc : afterColon t = .ok u) :
    SpansName (Spells · (utf8 k)) s u := by
  obtain ⟨front, hfront, rfl⟩ := exists_blanks hs
  obtain ⟨name, hname, rfl⟩ := spells_of_string hk
  obtain ⟨gap, hgap, rfl⟩ := exists_blanks (eq_cons_of_expectByte hc)
  exact ⟨front, name, gap, hfront, hname.rawText, hname, hgap, rfl⟩

/-! ## Loops -/

theorem spansItems_of_items {α : Type} {V : Bytes → Prop} {element : Bytes → Reading α}
    (he : Takes V element) {fuel : Nat} {acc xs : List α}
    (h : items element fuel first acc s = .ok (xs, rest)) :
    SpansItems (fun es => ∀ e ∈ es, V e.value) first s rest := by
  induction fuel generalizing first acc s with
  | zero => cases h
  | succ fuel ih =>
    rcases items_cases h with ⟨hs, -⟩ | ⟨t, x, r, hn, hx, hrest⟩
    · exact .nil (List.forall_mem_nil _) hs
    · have hv := he hx
      have hcons : ∀ {e : ElementText} {es : List ElementText}, V e.value →
          (∀ e ∈ es, V e.value) → ∀ x ∈ e :: es, V x.value :=
        fun h hs => List.forall_mem_cons.mpr ⟨h, hs⟩
      rcases nextItem_cases hn with ⟨hm, -⟩ | ⟨-, c, w, -, -, ⟨rfl, hs⟩ | ⟨rfl, u, hs, hu⟩⟩
      · cases hm
      · exact .cons_first hcons (hv.of_skipBlank hs) (ih hrest)
      · exact .cons_next hcons hs (hv.of_skipBlank hu) (ih hrest)

/-- Members that are read one after the other, each by what the step makes of its name. -/
theorem spansMembers_of_members {σ : Type} {V : String → Bytes → Prop}
    {step : σ → String → Bytes → Reading σ}
    (hstep : ∀ {state state' k s rest}, step state k s = .ok (state', rest) →
      ∃ u, afterColon s = .ok u ∧ Spans (V k) u rest)
    {fuel : Nat} {state state' : σ}
    (h : members bound step fuel first state s = .ok (state', rest)) :
    SpansMembers (Wanted V) first s rest := by
  induction fuel generalizing first state s with
  | zero => cases h
  | succ fuel ih =>
    rcases members_cases h with ⟨hn, -⟩ | ⟨name, t, state₁, r, hn, hr, hrest⟩
    · exact .nil (List.forall_mem_nil _) (skipBlank_of_nextName_none hn)
    · obtain ⟨u, hu, hv⟩ := hstep hr
      have hcons : ∀ {m : MemberText} {ms : List MemberText}, Spells m.name (utf8 name) →
          V name m.value → Wanted V ms → Wanted V (m :: ms) :=
        fun hn hv hms => List.forall_mem_cons.mpr ⟨⟨name, hn, hv⟩, hms⟩
      rcases nextName_cases hn with ⟨hk, -⟩ | ⟨k, w, hk, hstring, ⟨rfl, hs⟩ | ⟨rfl, x, hs, hx⟩⟩
      · cases hk
      · cases hk
        exact .cons_first hcons (spansName_of_string hs hstring hu) hv (ih hrest)
      · cases hk
        exact .cons_next hcons hs (spansName_of_string hx hstring hu) hv (ih hrest)

/-! ## Values -/

theorem spans_string {k : String} (hs : skipBlank s = quote :: r)
    (hk : string bound r = .ok (k, rest)) : Spans IsJson s rest := by
  obtain ⟨w, hw, rfl⟩ := exists_blanks hs
  obtain ⟨t, ht, rfl⟩ := spells_of_string hk
  have hend : IsUtf8 [quote] := isUtf8_of_ascii (List.forall_mem_singleton.mpr (by decide))
  have hutf8 := ((isUtf8_of_spells ht).append hend).cons (by decide : quote < 0x80)
  exact ⟨w, _, hw, ⟨.string ht.rawText, hutf8⟩, by simp⟩

theorem spans_word {w : Bytes} (hw : WordStart b w) (hs : skipBlank s = b :: r)
    (h : word (w.drop 1) r = .ok rest) : Spans IsJson s rest := by
  obtain ⟨w', hw', rfl⟩ := exists_blanks hs
  have hascii : w.all (· < 0x80) = true := by
    rcases hw with ⟨-, rfl⟩ | ⟨-, rfl⟩ | ⟨-, rfl⟩ <;> rfl
  have hutf8 : IsUtf8 w :=
    isUtf8_of_ascii fun d hd => of_decide_eq_true (List.all_eq_true.mp hascii d hd)
  have hcons : b :: w.drop 1 = w := by
    rcases hw with ⟨rfl, rfl⟩ | ⟨rfl, rfl⟩ | ⟨rfl, rfl⟩ <;> rfl
  refine ⟨w', w, hw', ⟨.word hw, hutf8⟩, ?_⟩
  rw [eq_append_of_word h, ← List.cons_append, hcons]

theorem spans_number {negative : Bool} {v : Json} (h : number negative s = .ok (v, rest)) :
    ∃ t, IsJson (signed negative t) ∧ s = t ++ rest := by
  obtain ⟨hskip, -⟩ := skipNumber_of_number h
  obtain ⟨t, ht, rfl⟩ := text_of_skipNumber hskip
  refine ⟨t, ⟨.number negative ht, ?_⟩, rfl⟩
  cases negative with
  | true => exact (isUtf8_number ht).cons (by decide)
  | false => exact isUtf8_number ht

theorem spans_of_valueWith {array object : Bytes → Reading Json} {v : Json}
    (ha : ∀ {r rest v}, array r = .ok (v, rest) → Spans IsJson (openBracket :: r) rest)
    (ho : ∀ {r rest v}, object r = .ok (v, rest) → Spans IsJson (openBrace :: r) rest)
    (h : valueWith bound array object s = .ok (v, rest)) : Spans IsJson s rest := by
  obtain ⟨b, r, hs, hform⟩ := valueWith_cases h
  cases hform with
  | string hb hk => exact spans_string (hb ▸ hs) hk
  | object hb h =>
    subst hb
    exact (ho h).of_skipBlank hs
  | array hb h =>
    subst hb
    exact (ha h).of_skipBlank hs
  | negative hb hn =>
    subst hb
    obtain ⟨w, hw, rfl⟩ := exists_blanks hs
    obtain ⟨t, ht, rfl⟩ := spans_number hn
    exact ⟨w, _, hw, ht, rfl⟩
  | digit _ hn =>
    obtain ⟨w, hw, rfl⟩ := exists_blanks hs
    obtain ⟨t, ht, heq⟩ := spans_number hn
    exact ⟨w, t, hw, ht, by rw [heq]⟩
  | word hw h => exact spans_word hw hs h

theorem spans_array_of_items {α : Type} {element : Bytes → Reading α} (he : Takes IsJson element)
    {fuel : Nat} {xs : List α} (h : items element fuel true [] s = .ok (xs, rest)) :
    Spans IsJson (openBracket :: s) rest := by
  obtain ⟨w, es, hw, hes, heq⟩ := (spansItems_of_items he h).exists_arrayText
  exact ⟨[], _, isBlanks_nil, isJson_array hw hes, heq⟩

theorem exists_of_freeMember {element : Bytes → Reading Json} (he : Takes IsJson element)
    {before after : List (String × Json)} {k : String}
    (h : freeMember element before k s = .ok (after, rest)) :
    ∃ u, afterColon s = .ok u ∧ Spans IsJson u rest := by
  unfold freeMember at h
  split at h
  · cases h
  next u hu =>
  obtain ⟨⟨v, t⟩, hv, hx⟩ := exists_of_map_eq_ok h
  cases hx
  exact ⟨u, hu, he hv⟩

theorem takes_value (depth : Nat) : Takes IsJson (value bound depth) := by
  induction depth with
  | zero =>
    intro s v rest h
    exact spans_of_valueWith (fun h => by cases h) (fun h => by cases h) h
  | succ depth ih =>
    intro s v rest h
    refine spans_of_valueWith (fun h => ?_) (fun h => ?_) h
    · obtain ⟨⟨vs, t⟩, hi, hx⟩ := exists_of_map_eq_ok h
      cases hx
      exact spans_array_of_items ih hi
    · obtain ⟨⟨ms, t⟩, hi, hx⟩ := exists_of_map_eq_ok h
      cases hx
      obtain ⟨w, ms, hw, hms, heq⟩ :=
        (spansMembers_of_members (exists_of_freeMember ih) hi).exists_objectText
      exact ⟨[], _, isBlanks_nil, isJson_object hw hms, heq⟩

theorem takes_stringValue : Takes IsJson (stringValue bound) := by
  intro s k rest h
  unfold stringValue at h
  split at h
  · cases h
  next b r hs =>
  split at h
  · next hb => exact spans_string (hb ▸ hs) h
  · cases h

theorem takes_int32Value : Takes IsJson (int32Value bound) := by
  intro s i rest h
  unfold int32Value at h
  split at h
  · cases h
  · next j r hv =>
    split at h
    · cases h
      exact spans_of_valueWith (fun h => by cases h) (fun h => by cases h) hv
    · cases h
  · cases h

theorem takes_optional {α : Type} {V : Bytes → Prop} {read : Bytes → Reading α}
    (hV : ∀ {t}, IsJson t → V t) (hr : Takes V read) : Takes V (optional read) := by
  intro s x rest h
  unfold optional at h
  split at h
  · cases h
  next b r hs =>
  split at h
  · next hb =>
    obtain ⟨t, ht, hx⟩ := exists_of_map_eq_ok h
    cases hx
    exact (spans_word (.inl ⟨hb, rfl⟩) hs ht).mono hV
  · obtain ⟨⟨y, t⟩, hy, hx⟩ := exists_of_map_eq_ok h
    cases hx
    exact (hr hy).of_skipBlank hs

end Reading

end RpcGateway.Json
