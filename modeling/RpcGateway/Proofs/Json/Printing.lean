import RpcGateway.Envelope.Printer
import RpcGateway.Proofs.Json.Spelling

/-!
Printed texts are values: what follows a value that was printed is where skipping it leads, and
printed strings are read back.
-/
namespace RpcGateway.Json
open Number

/-! ## Strings -/

theorem hexValue?_hexDigit {n : Nat} (hn : n < 16) :
    Text.Percent.hexValue? (hexDigit n) = some n := by
  have hall : ∀ n < 16, Text.Percent.hexValue? (hexDigit n) = some n := by decide
  exact hall n hn

theorem hex4_hexDigit (b : UInt8) (s : Bytes) :
    hex4 (0x30 :: 0x30 :: hexDigit (b.toNat / 16) :: hexDigit (b.toNat % 16) :: s) =
      .ok (b.toNat, s) := by
  have hlt := b.toNat_lt
  have hhigh := hexValue?_hexDigit (n := b.toNat / 16) (by omega)
  have hlow := hexValue?_hexDigit (n := b.toNat % 16) (by omega)
  have hzero : Text.Percent.hexValue? 0x30 = some 0 := rfl
  have hsum : ((0 * 16 + 0) * 16 + b.toNat / 16) * 16 + b.toNat % 16 = b.toNat := by omega
  simp only [hex4, hzero, hhigh, hlow, hsum]

theorem spells_control {b : UInt8} {t bs : Bytes} (hb : b < 0x20) (h : Spells t bs) :
    Spells ([backslash, 0x75, 0x30, 0x30, hexDigit (b.toNat / 16), hexDigit (b.toNat % 16)] ++ t)
      (b :: bs) := by
  have hlt : b.toNat < 0x20 := hb
  have hlow : isLowSurrogate b.toNat = false := by
    simp [isLowSurrogate]
    omega
  have hhigh : isHighSurrogate b.toNat = false := by
    simp [isHighSurrogate]
    omega
  have hunit : IsUnit [0x30, 0x30, hexDigit (b.toNat / 16), hexDigit (b.toNat % 16)] b.toNat :=
    hex4_hexDigit b []
  have hspells := Spells.escape (.unit hunit hlow hhigh) h
  rwa [utf8EncodeChar_of_ascii (UInt8.lt_trans hb (by decide))] at hspells

/-- What is written for a byte spells it. -/
theorem spells_escapeByte (b : UInt8) {t bs : Bytes} (h : Spells t bs) :
    Spells (escapeByte b ++ t) (b :: bs) := by
  have hletter : ∀ c d : UInt8, c ≠ 0x75 → shortEscape? c = some d → b = d →
      Spells ([backslash, c] ++ t) (b :: bs) := by
    rintro c d hu hs rfl
    exact .escape (.letter hu hs) h
  unfold escapeByte
  split
  · next hb => exact hletter quote quote (by decide) rfl hb
  split
  · next hb => exact hletter backslash backslash (by decide) rfl hb
  split
  · next hq hb hp => exact .plain hq hb (UInt8.not_lt.mpr hp) h
  next hc =>
  split
  · next hb => exact hletter 0x62 0x08 (by decide) rfl hb
  split
  · next hb => exact hletter 0x74 0x09 (by decide) rfl hb
  split
  · next hb => exact hletter 0x6E 0x0A (by decide) rfl hb
  split
  · next hb => exact hletter 0x66 0x0C (by decide) rfl hb
  split
  · next hb => exact hletter 0x72 0x0D (by decide) rfl hb
  · exact spells_control (UInt8.not_le.mp hc) h

theorem spells_escaped (bs : Bytes) : Spells (bs.flatMap escapeByte) bs := by
  induction bs with
  | nil => exact .nil
  | cons b bs ih =>
    rw [List.flatMap_cons]
    exact spells_escapeByte b ih

theorem printString_append (t : String) (rest : Bytes) :
    printString t ++ rest = quote :: ((utf8 t).flatMap escapeByte ++ quote :: rest) := by
  simp [printString]

/-- A string that is written is read back. -/
theorem string_escaped {bound : Nat} (t : String) (rest : Bytes)
    (hl : ((utf8 t).flatMap escapeByte ++ quote :: rest).length ≤ bound) :
    string bound ((utf8 t).flatMap escapeByte ++ quote :: rest) = .ok (t, rest) := by
  rw [List.length_append] at hl
  exact string_of_spells (spells_escaped _) rest (by omega)

/-! ## Printed values -/

/-- A member as it is printed. -/
def printMember (m : Member) : Bytes := printString m.1 ++ colon :: m.2

theorem intercalate_eq (ts : List Bytes) : [comma].intercalate ts = joined true ts := by
  induction ts with
  | nil => rfl
  | cons t ts ih =>
    cases ts with
    | nil => rfl
    | cons u ts =>
      rw [List.intercalate, List.intersperse_cons_cons, List.flatten_cons, List.flatten_cons,
        ← List.intercalate, ih]
      rfl

theorem printRecord_eq (members : List Member) :
    printRecord members = openBrace :: joined true (members.map printMember) ++ [closeBrace] :=
  congrArg (fun text => openBrace :: text ++ [closeBrace]) (intercalate_eq _)

theorem printItems_eq (vs : List Json) : printItems vs = joined true (vs.map print) := by
  induction vs with
  | nil => rfl
  | cons v vs ih =>
    cases vs with
    | nil => simp [printItems, joined, lead]
    | cons w vs =>
      rw [printItems, ih]
      · rfl
      · simp

/-- A member of a free object as it is printed. -/
def printedMember (m : String × Json) : Member := (m.1, m.2.print)

theorem printMembers_eq (ms : List (String × Json)) :
    printMembers ms = joined true ((ms.map printedMember).map printMember) := by
  induction ms with
  | nil => rfl
  | cons m ms ih =>
    cases ms with
    | nil => simp [printMembers, joined, lead, printMember, printedMember]
    | cons n ms =>
      rw [printMembers, ih]
      · simp [joined, lead, printMember, printedMember]
      · simp

theorem print_arr (items : List Json) :
    (arr items).print = openBracket :: joined true (items.map print) ++ [closeBracket] := by
  rw [print, printItems_eq]

theorem print_obj (members : List (String × Json)) :
    (obj members).print = printRecord (members.map printedMember) := by
  rw [print, printMembers_eq, printRecord_eq]

/-- What follows the name of a printed member is shorter than what the member begins. -/
theorem length_member (first : Bool) (m : Member) (ts : List Bytes) (s : Bytes) :
    (m.2 ++ (joined false ts ++ s)).length < (joined first (printMember m :: ts) ++ s).length := by
  simp only [joined, printMember, List.length_append, List.length_cons]
  omega

/-! ## Skipping what was printed -/

/-- An element as it is printed, without blanks. -/
def ElementText.printed (t : Bytes) : ElementText := ⟨[], t, [], isBlanks_nil, isBlanks_nil⟩

theorem ElementText.text_printed (t : Bytes) : (ElementText.printed t).text = t :=
  List.append_nil t

def MemberText.printed (m : Member) : MemberText :=
  ⟨.printed m.2, [], (utf8 m.1).flatMap escapeByte, [], isBlanks_nil, (spells_escaped _).rawText,
    isBlanks_nil⟩

theorem MemberText.text_printed (m : Member) : (MemberText.printed m).text = printMember m := by
  simp [MemberText.text, MemberText.printed, ElementText.text_printed, printMember, printString]

theorem arrayText_printed (texts : List Bytes) :
    arrayText [] (texts.map .printed) = openBracket :: joined true texts ++ [closeBracket] := by
  have hmap : (texts.map ElementText.printed).map ElementText.text = texts := by
    simp [Function.comp_def, ElementText.text_printed]
  rw [arrayText, hmap]
  rfl

theorem objectText_printed (members : List Member) :
    objectText [] (members.map .printed) = printRecord members := by
  have hmap : (members.map MemberText.printed).map MemberText.text = members.map printMember := by
    simp [Function.comp_def, MemberText.text_printed]
  rw [objectText, hmap, printRecord_eq]
  rfl

theorem isValue_record {members : List Member} (ht : ∀ m ∈ members, IsValue m.2) :
    IsValue (printRecord members) := by
  rw [← objectText_printed]
  refine .object isBlanks_nil fun m hm => ?_
  obtain ⟨n, hn, rfl⟩ := List.mem_map.mp hm
  exact ht n hn

theorem isValue_printString (t : String) : IsValue (printString t) :=
  .string (spells_escaped _).rawText

theorem isValue_printInt (i : Int) : IsValue (printInt i) := by
  rw [printInt_eq]
  exact .number _ (numberText_digits _)

/-- Induction on values, with the elements of arrays and the members of objects. -/
@[induction_eliminator]
theorem induct {P : Json → Prop} (null : P .null) (bool : ∀ b, P (.bool b)) (int : ∀ i, P (.int i))
    (double : ∀ x, P (.double x)) (str : ∀ s, P (.str s))
    (arr : ∀ items : List Json, (∀ v ∈ items, P v) → P (.arr items))
    (obj : ∀ members : List (String × Json), (∀ m ∈ members, P m.2) → P (.obj members))
    (v : Json) : P v :=
  @Json.rec P (fun items => ∀ v ∈ items, P v) (fun members => ∀ m ∈ members, P m.2)
    (fun m => P m.2) null bool int double str arr obj (List.forall_mem_nil _)
    (fun _ _ hv hvs => List.forall_mem_cons.mpr ⟨hv, hvs⟩) (List.forall_mem_nil _)
    (fun _ _ hm hms => List.forall_mem_cons.mpr ⟨hm, hms⟩) (fun _ _ hv => hv) v

theorem isValue_print (v : Json) : IsValue v.print := by
  induction v with
  | null => exact .word (.inl ⟨rfl, rfl⟩)
  | bool b =>
    cases b with
    | true => exact .word (.inr (.inl ⟨rfl, rfl⟩))
    | false => exact .word (.inr (.inr ⟨rfl, rfl⟩))
  | int i => exact isValue_printInt i
  | double x =>
    rw [print]
    split
    · next hf =>
      obtain ⟨t, ht, heq⟩ := printDouble_eq hf
      rw [heq]
      exact .number _ ht
    · exact .word (.inl ⟨rfl, rfl⟩)
  | str s => exact isValue_printString s
  | arr items ih =>
    rw [print_arr, ← arrayText_printed]
    refine .array isBlanks_nil fun e he => ?_
    obtain ⟨t, ht, rfl⟩ := List.mem_map.mp he
    obtain ⟨v, hv, rfl⟩ := List.mem_map.mp ht
    exact ih v hv
  | obj members ih =>
    rw [print_obj]
    refine isValue_record fun m hm => ?_
    obtain ⟨n, hn, rfl⟩ := List.mem_map.mp hm
    exact ih n hn

end RpcGateway.Json
