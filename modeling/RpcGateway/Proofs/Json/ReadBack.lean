import Mathlib.Data.String.Basic
import RpcGateway.Proofs.Json.Objects
import RpcGateway.Proofs.Json.Printing
import RpcGateway.Proofs.Json.ReadAlone

/-!
Reading back what was printed. A value that was read has integers of 64 bits, object names in
ascending order and a bounded depth; its text is read back as that value, save for the numbers that
are not integers, each of which is read as its own text would be.
-/
namespace RpcGateway.Json
open Number

/-! ## Values that were read -/

/-- A value as it is read where so many arrays and objects may be open. -/
inductive Canonical : Nat → Json → Prop
  | null {depth : Nat} : Canonical depth .null
  | bool {depth : Nat} (b : Bool) : Canonical depth (.bool b)
  | int {depth : Nat} {i : Int} (hi : IsWord i) : Canonical depth (.int i)
  | double {depth : Nat} (x : Double) : Canonical depth (.double x)
  | str {depth : Nat} (s : String) : Canonical depth (.str s)
  | arr {depth : Nat} {items : List Json} (hv : ∀ v ∈ items, Canonical depth v) :
      Canonical (depth + 1) (.arr items)
  | obj {depth : Nat} {members : List (String × Json)}
      (hs : members.Pairwise (fun m n => m.1 < n.1)) (hv : ∀ m ∈ members, Canonical depth m.2) :
      Canonical (depth + 1) (.obj members)

theorem putMember_of_lt {k : String} (v : Json) {ms : List (String × Json)}
    (h : ∀ m ∈ ms, m.1 < k) : putMember k v ms = ms ++ [(k, v)] := by
  induction ms with
  | nil => rfl
  | cons n ms ih =>
    have hn : n.1 < k := h n List.mem_cons_self
    rw [putMember, if_neg hn.ne', if_neg (lt_asymm hn),
      ih fun m hm => h m (List.mem_cons_of_mem n hm)]
    rfl

/-- What holds of every element that is read holds of all elements of an array. -/
theorem forall_items {α : Type} {P : α → Prop} {element : Bytes → Reading α}
    (he : ∀ {s x rest}, element s = .ok (x, rest) → P x) {fuel : Nat} {first : Bool}
    {acc xs : List α} {s rest : Bytes} (hacc : ∀ x ∈ acc, P x)
    (h : items element fuel first acc s = .ok (xs, rest)) :
    ∀ x ∈ xs, P x := by
  induction fuel generalizing first acc s with
  | zero => cases h
  | succ fuel ih =>
    rcases items_cases h with ⟨-, rfl⟩ | ⟨t, x, r, -, hx, hrest⟩
    · exact fun x hx => hacc x (List.mem_reverse.mp hx)
    · exact ih (List.forall_mem_cons.mpr ⟨he hx, hacc⟩) hrest

/-- What every member keeps holds after all members. -/
theorem invariant_members {σ : Type} {P : σ → Prop} {bound : Nat}
    {step : σ → String → Bytes → Reading σ}
    (hstep : ∀ {state state' name s rest}, P state → step state name s = .ok (state', rest) →
      P state') {fuel : Nat} {first : Bool} {state state' : σ} {s rest : Bytes} (hp : P state)
    (h : members bound step fuel first state s = .ok (state', rest)) : P state' := by
  induction fuel generalizing first state s with
  | zero => cases h
  | succ fuel ih =>
    rcases members_cases h with ⟨-, rfl⟩ | ⟨name, t, state₁, r, -, hr, hrest⟩
    · exact hp
    · exact ih (hstep hp hr) hrest

theorem canonical_of_number {negative : Bool} {depth : Nat} {s rest : Bytes} {v : Json}
    (h : number negative s = .ok (v, rest)) : Canonical depth v := by
  rcases kind_of_number h with ⟨i, rfl, hi⟩ | ⟨x, rfl⟩
  · exact .int hi
  · exact .double x

theorem canonical_wordValue {depth : Nat} (b : UInt8) : Canonical depth (wordValue b) := by
  unfold wordValue
  split
  · exact .null
  · exact .bool _

theorem canonical_of_valueWith {bound depth : Nat} {array object : Bytes → Reading Json}
    (ha : ∀ {r v rest}, array r = .ok (v, rest) → Canonical depth v)
    (ho : ∀ {r v rest}, object r = .ok (v, rest) → Canonical depth v) {s rest : Bytes} {v : Json}
    (h : valueWith bound array object s = .ok (v, rest)) : Canonical depth v := by
  obtain ⟨b, r, -, hform⟩ := valueWith_cases h
  cases hform with
  | string => exact .str _
  | object _ h => exact ho h
  | array _ h => exact ha h
  | negative _ h => exact canonical_of_number h
  | digit _ h => exact canonical_of_number h
  | word => exact canonical_wordValue b

/-- The members of a free object as they are read. -/
structure OrderedMembers (depth : Nat) (members : List (String × Json)) : Prop where
  ascending : members.Pairwise (fun m n => m.1 < n.1)
  canonical : ∀ m ∈ members, Canonical depth m.2

theorem orderedMembers_freeMember {depth : Nat} {element : Bytes → Reading Json}
    (he : ∀ {s v rest}, element s = .ok (v, rest) → Canonical depth v)
    {before after : List (String × Json)} {name : String} {s rest : Bytes}
    (hb : OrderedMembers depth before) (h : freeMember element before name s = .ok (after, rest)) :
    OrderedMembers depth after := by
  unfold freeMember at h
  split at h
  · cases h
  obtain ⟨⟨v, t⟩, hv, hx⟩ := exists_of_map_eq_ok h
  cases hx
  refine ⟨pairwise_putMember name v hb.ascending, fun m hm => ?_⟩
  rcases mem_putMember hm with rfl | hm
  · exact he hv
  · exact hb.canonical m hm

theorem canonical_of_value {bound depth : Nat} {s rest : Bytes} {v : Json}
    (h : value bound depth s = .ok (v, rest)) : Canonical depth v := by
  induction depth generalizing s rest v with
  | zero => exact canonical_of_valueWith (fun h => by cases h) (fun h => by cases h) h
  | succ depth ih =>
    refine canonical_of_valueWith (fun h => ?_) (fun h => ?_) h
    · obtain ⟨⟨vs, t⟩, hi, hx⟩ := exists_of_map_eq_ok h
      cases hx
      exact .arr (forall_items ih (List.forall_mem_nil _) hi)
    · obtain ⟨⟨ms, t⟩, hi, hx⟩ := exists_of_map_eq_ok h
      cases hx
      obtain ⟨hs, hv⟩ := invariant_members (P := OrderedMembers depth)
        (orderedMembers_freeMember ih) ⟨List.Pairwise.nil, List.forall_mem_nil _⟩ hi
      exact .obj hs hv

/-! ## Arrays and objects that were printed -/

/-- Reading a value gives the outcome, whatever follows its text. -/
def ReadsAs (depth : Nat) (t : Bytes) (o : Except Fault Json) : Prop :=
  ∀ bound rest, (t ++ rest).length ≤ bound → StopsNumber rest →
    value bound depth (t ++ rest) = o.map (·, rest)

theorem ReadsAs.outcome_eq {depth : Nat} {t : Bytes} {o : Except Fault Json}
    (h : ReadsAs depth t o) {bound : Nat} (hl : t.length ≤ bound) :
    outcome (value bound depth) t = o := by
  have hread := h bound [] (by rwa [List.append_nil]) stopsNumber_nil
  rw [List.append_nil] at hread
  rw [outcome, hread]
  cases o <;> rfl

section Printed
variable {bound depth : Nat} {rest : Bytes} {f : Json → Except Fault Json}

theorem readsAs_arr {vs : List Json} (hf : ∀ v ∈ vs, ReadsAs depth v.print (f v)) :
    ReadsAs (depth + 1) (arr vs).print ((vs.mapM f).map arr) := by
  intro bound rest hl _
  let es := vs.map fun v => ElementText.printed v.print
  have htexts : es.map ElementText.text = vs.map print := by
    simp [es, Function.comp_def, ElementText.text_printed]
  have hvalues : AllValues es := by
    intro e he
    obtain ⟨v, -, rfl⟩ := List.mem_map.mp he
    exact isValue_print v
  have hcount := length_le_joined true (vs.map print) closeBracket rest
  rw [List.length_map] at hcount
  rw [print_arr, List.append_assoc, List.cons_append, List.singleton_append] at hl ⊢
  rw [List.length_cons] at hl
  have hread : ∀ v ∈ vs, outcome (value bound depth) v.print = f v := by
    intro v hv
    have hle := length_le_length_joined (List.mem_map_of_mem (f := print) hv) true
    rw [List.length_append] at hl
    exact (hf v hv).outcome_eq (by omega)
  have hfuel : es.length < bound + 1 := by
    rw [List.length_map]
    omega
  have hinside : ([] ++ (joined true (es.map ElementText.text) ++
      closeBracket :: rest)).length ≤ bound := by
    rw [htexts]
    exact Nat.le_of_succ_le hl
  have hitems := items_texts (local_value depth) hvalues hfuel true [] isBlanks_nil hinside
  have hloop : ∀ s, value bound (depth + 1) (openBracket :: s) =
      (items (value bound depth) (bound + 1) true [] s).map fun p => (.arr p.1, p.2) := fun _ => rfl
  rw [htexts, List.nil_append] at hitems
  rw [hloop, hitems, List.mapM_map, ← mapM_congr hread]
  dsimp only [Function.comp_def, ElementText.printed]
  cases vs.mapM fun v => outcome (value bound depth) v.print <;> rfl

theorem afterColon_colon (s : Bytes) : afterColon (colon :: s) = .ok s := rfl

theorem nextName_printed (first : Bool) (m : Member) (s : Bytes)
    (hl : (printMember m ++ s).length ≤ bound) :
    nextName bound first (lead first ++ (printMember m ++ s)) =
      .ok (some m.1, colon :: (m.2 ++ s)) := by
  simp only [printMember, printString, List.length_append, List.length_cons] at hl
  have hname : ((utf8 m.1).flatMap escapeByte).length ≤ bound := by omega
  have hspells := spells_escaped (utf8 m.1)
  have hread := (outcome_string_eq_ok_iff hspells.rawText hname).mpr hspells
  have htext :
      nextName bound first ([] ++ (lead first ++ ((MemberText.printed m).text ++ s))) = _ :=
    nextName_text first isBlanks_nil (.printed m)
  rw [MemberText.text_printed] at htext
  exact htext.trans (congrArg _ hread)

/-- The loop over members reaches the value of the next one that was printed. -/
theorem members_cons {σ : Type} (step : σ → String → Bytes → Reading σ) (fuel : Nat) (first : Bool)
    (state : σ) (m : Member) (ts : List Bytes)
    (hl : (joined first (printMember m :: ts) ++ closeBrace :: rest).length ≤ bound) :
    members bound step (fuel + 1) first state
        (joined first (printMember m :: ts) ++ closeBrace :: rest) =
      (step state m.1 (colon :: (m.2 ++ (joined false ts ++ closeBrace :: rest)))).bind
        fun p => members bound step fuel false p.1 p.2 := by
  rw [joined, List.append_assoc, List.append_assoc] at hl ⊢
  rw [List.length_append] at hl
  have hname := nextName_printed first m _ (Nat.le_trans (Nat.le_add_left _ _) hl)
  simp only [members, hname]
  cases step state m.1 (colon :: (m.2 ++ (joined false ts ++ closeBrace :: rest))) <;> rfl

theorem members_nil {σ : Type} (step : σ → String → Bytes → Reading σ) (fuel : Nat) (first : Bool)
    (state : σ) :
    members bound step (fuel + 1) first state (joined first [] ++ closeBrace :: rest) =
      .ok (state, rest) := rfl

/-- A member whose value gives an outcome. -/
def memberAs (f : Json → Except Fault Json) (m : String × Json) : Except Fault (String × Json) :=
  (f m.2).map (m.1, ·)

theorem members_printed {ms : List (String × Json)}
    (hf : ∀ m ∈ ms, ReadsAs depth m.2.print (f m.2)) {fuel : Nat} (hfuel : ms.length < fuel)
    (first : Bool) {acc : List (String × Json)}
    (hs : (acc.map (·.1) ++ ms.map (·.1)).Pairwise (· < ·))
    (hl : (joined first ((ms.map printedMember).map printMember) ++
      closeBrace :: rest).length ≤ bound) :
    members bound (freeMember (value bound depth)) fuel first acc
        (joined first ((ms.map printedMember).map printMember) ++ closeBrace :: rest) =
      (ms.mapM (memberAs f)).map fun ws => (acc ++ ws, rest) := by
  induction ms generalizing fuel first acc with
  | nil =>
    obtain ⟨fuel, rfl⟩ : ∃ k, fuel = k + 1 := ⟨fuel - 1, by omega⟩
    rw [List.map_nil, List.map_nil, members_nil, List.mapM_nil]
    simp only [Except.map, pure, Except.pure, List.append_nil]
  | cons m ms ih =>
    obtain ⟨fuel, rfl⟩ : ∃ k, fuel = k + 1 := ⟨fuel - 1, by omega⟩
    rw [List.map_cons, List.map_cons] at hl ⊢
    rw [List.length_cons] at hfuel
    have hstop := stopsNumber_joined ((ms.map printedMember).map printMember) rest (.inr rfl)
    have hlm := length_member first (printedMember m) ((ms.map printedMember).map printMember)
      (closeBrace :: rest)
    have hlength := Nat.le_of_lt (Nat.lt_of_lt_of_le hlm hl)
    have hskip := (isValue_print m.2).valueText bound _ hlength hstop
    have hread := hf m List.mem_cons_self bound _ hlength hstop
    have hlt := hskip.length_le
    rw [members_cons _ _ _ _ _ _ hl, List.mapM_cons]
    simp only [freeMember, afterColon_colon, printedMember, hread, memberAs]
    cases f m.2 with
    | error e => rfl
    | ok w =>
      have hlast : ∀ n ∈ acc, n.1 < m.1 := by
        intro n hn
        rw [List.map_cons, List.pairwise_append] at hs
        exact hs.2.2 n.1 (List.mem_map_of_mem hn) m.1 List.mem_cons_self
      simp only [Except.map, Except.bind, putMember_of_lt w hlast]
      have hrest : (joined false ((ms.map printedMember).map printMember) ++
          closeBrace :: rest).length ≤ bound :=
        Nat.le_trans hlt hlength
      rw [ih (fun n hn => hf n (List.mem_cons_of_mem m hn)) (by omega) false (by simpa using hs)
        hrest]
      cases ms.mapM (memberAs f) with
      | error e => rfl
      | ok ws => simp [Except.map, bind, Except.bind, pure, Except.pure]

theorem readsAs_obj {ms : List (String × Json)} (hf : ∀ m ∈ ms, ReadsAs depth m.2.print (f m.2))
    (hs : ms.Pairwise (fun m n => m.1 < n.1)) :
    ReadsAs (depth + 1) (obj ms).print ((ms.mapM (memberAs f)).map obj) := by
  intro bound rest hl _
  rw [print_obj, printRecord_eq, List.append_assoc, List.cons_append,
    List.singleton_append] at hl ⊢
  have hcount := length_le_joined true ((ms.map printedMember).map printMember) closeBrace rest
  rw [List.length_map, List.length_map] at hcount
  rw [List.length_cons] at hl
  have hloop : ∀ s, value bound (depth + 1) (openBrace :: s) =
      (members bound (freeMember (value bound depth)) (bound + 1) true [] s).map
        fun p => (.obj p.1, p.2) := fun _ => rfl
  rw [hloop, members_printed hf (by omega) true (by simpa [List.pairwise_map] using hs) (by omega)]
  cases ms.mapM (memberAs f) <;> rfl

end Printed

/-! ## Reading back -/

/-- A number that is not an integer stands in a value. -/
inductive Holds (x : Double) : Json → Prop
  | double : Holds x (.double x)
  | arr {items : List Json} {v : Json} (hv : v ∈ items) (h : Holds x v) : Holds x (.arr items)
  | obj {members : List (String × Json)} {m : String × Json} (hm : m ∈ members)
      (h : Holds x m.2) : Holds x (.obj members)

/-- The text of a value denotes it. -/
def ReadsBack (v : Json) : Prop := parse v.print = .ok v

/-- What the text of a value is read as. -/
def reread (depth : Nat) (v : Json) : Except Fault Json :=
  (value v.print.length depth v.print).map (·.1)

theorem ReadsAs.reread_eq {depth : Nat} {v : Json} {o : Except Fault Json}
    (h : ReadsAs depth v.print o) : reread depth v = o := by
  exact h.outcome_eq (Nat.le_refl _)

theorem ReadsAs.parse_eq {v : Json} {o : Except Fault Json} (h : ReadsAs maxDepth v.print o) :
    parse v.print = o := by
  have hread := h v.print.length [] (by rw [List.append_nil]) stopsNumber_nil
  rw [List.append_nil] at hread
  rw [parse, entire, hread]
  cases o <;> rfl

/-- Where nothing is nested the depth does not matter. -/
theorem readsAs_scalar {t : Bytes} {o : Except Fault Json}
    (h : ∀ bound rest array object, (t ++ rest).length ≤ bound → StopsNumber rest →
      valueWith bound array object (t ++ rest) = o.map (·, rest)) (depth : Nat) :
    ReadsAs depth t o := by
  intro bound rest hl hr
  cases depth <;> exact h bound rest _ _ hl hr

theorem exists_readsAs_double (x : Double) :
    ∃ o : Except Fault Json, ∀ depth, ReadsAs depth (print (.double x)) o := by
  by_cases hf : x.isFinite
  · obtain ⟨t, ht, heq⟩ := printDouble_eq hf
    obtain ⟨o, ho⟩ := steady_number x.isNegative ht
    refine ⟨o, readsAs_scalar fun bound rest array object _ hr => ?_⟩
    rw [print, if_pos hf, heq, valueWith_number x.isNegative ht]
    exact ho rest hr
  · refine ⟨.ok .null, readsAs_scalar fun bound rest array object _ _ => ?_⟩
    rw [print, if_neg hf]
    rfl

theorem readsAs_str (s : String) (depth : Nat) : ReadsAs depth (print (.str s)) (.ok (.str s)) := by
  refine readsAs_scalar (fun bound rest array object hl _ => ?_) depth
  rw [print, printString_append] at hl ⊢
  have hread := string_escaped s rest (Nat.le_of_succ_le hl)
  have hblank : ∀ t, skipBlank (quote :: t) = quote :: t := fun _ => rfl
  simp only [valueWith, hblank, if_true, hread, Except.map]

theorem readsAs_int {i : Int} (hi : IsWord i) (depth : Nat) :
    ReadsAs depth (print (.int i)) (.ok (.int i)) := by
  refine readsAs_scalar (fun bound rest array object _ hr => ?_) depth
  rw [print, value_printInt hi bound hr]
  rfl

theorem readsAs_word (depth : Nat) {v : Json} (hv : v = .null ∨ ∃ b, v = .bool b) :
    ReadsAs depth v.print (.ok v) := by
  refine readsAs_scalar (fun bound rest array object _ _ => ?_) depth
  rcases hv with rfl | ⟨b, rfl⟩
  · rfl
  · cases b <;> rfl

/-- The text of a value is read to its end, whatever follows it. What it is read as is the value
itself exactly if each of its numbers that are not integers is read back. -/
structure Rereads (depth : Nat) (v : Json) : Prop where
  reads : ReadsAs depth v.print (reread depth v)
  self : reread depth v = .ok v ↔ ∀ x, v.Holds x → (Json.double x).ReadsBack

/-- Without such a number nothing is left to show but that the value is read back. -/
theorem rereads_of_readsAs {depth : Nat} {v : Json} (h : ReadsAs depth v.print (.ok v))
    (hx : ∀ x, ¬ v.Holds x) : Rereads depth v := by
  have heq := h.reread_eq
  exact ⟨heq ▸ h, iff_of_true heq fun x hv => absurd hv (hx x)⟩

theorem rereads_double (depth : Nat) (x : Double) : Rereads depth (.double x) := by
  obtain ⟨o, ho⟩ := exists_readsAs_double x
  have heq := (ho depth).reread_eq
  refine ⟨heq ▸ ho depth, ?_⟩
  have hback : (Json.double x).ReadsBack ↔ o = .ok (.double x) := by
    rw [ReadsBack, (ho maxDepth).parse_eq]
  rw [heq, ← hback]
  constructor
  · intro h y hy
    cases hy
    exact h
  · intro h
    exact h x .double

theorem rereads_arr {depth : Nat} {vs : List Json} (h : ∀ v ∈ vs, Rereads depth v) :
    Rereads (depth + 1) (.arr vs) := by
  have hread := readsAs_arr fun v hv => (h v hv).reads
  have heq : (vs.mapM (reread depth)).map arr = .ok (arr vs) ↔
      ∀ v ∈ vs, reread depth v = .ok v := by
    rw [← mapM_eq_self_iff]
    cases vs.mapM (reread depth) <;> simp [Except.map]
  refine ⟨hread.reread_eq ▸ hread, ?_⟩
  rw [hread.reread_eq, heq]
  constructor
  · intro hself x hx
    cases hx with
    | arr hv hx => exact (h _ hv).self.mp (hself _ hv) x hx
  · intro hback v hv
    exact (h v hv).self.mpr fun x hx => hback x (.arr hv hx)

theorem rereads_obj {depth : Nat} {ms : List (String × Json)}
    (hs : ms.Pairwise (fun m n => m.1 < n.1)) (h : ∀ m ∈ ms, Rereads depth m.2) :
    Rereads (depth + 1) (.obj ms) := by
  have hread := readsAs_obj (fun m hm => (h m hm).reads) hs
  have hmember : ∀ m, memberAs (reread depth) m = .ok m ↔ reread depth m.2 = .ok m.2 := by
    intro m
    rw [memberAs]
    cases reread depth m.2 <;> simp [Except.map, Prod.ext_iff]
  have heq : (ms.mapM (memberAs (reread depth))).map obj = .ok (obj ms) ↔
      ∀ m ∈ ms, reread depth m.2 = .ok m.2 := by
    simp only [← hmember]
    rw [← mapM_eq_self_iff]
    cases ms.mapM (memberAs (reread depth)) <;> simp [Except.map]
  refine ⟨hread.reread_eq ▸ hread, ?_⟩
  rw [hread.reread_eq, heq]
  constructor
  · intro hself x hx
    cases hx with
    | obj hm hx => exact (h _ hm).self.mp (hself _ hm) x hx
  · intro hback m hm
    exact (h m hm).self.mpr fun x hx => hback x (.obj hm hx)

/-- The text of a value that was read is read again. -/
theorem Canonical.rereads {depth : Nat} {v : Json} (h : Canonical depth v) : Rereads depth v := by
  induction h with
  | null => exact rereads_of_readsAs (readsAs_word _ (.inl rfl)) fun _ h => nomatch h
  | bool b => exact rereads_of_readsAs (readsAs_word _ (.inr ⟨b, rfl⟩)) fun _ h => nomatch h
  | int hi => exact rereads_of_readsAs (readsAs_int hi _) fun _ h => nomatch h
  | double x => exact rereads_double _ x
  | str s => exact rereads_of_readsAs (readsAs_str s _) fun _ h => nomatch h
  | arr _ ih => exact rereads_arr ih
  | obj hs _ ih => exact rereads_obj hs ih

end RpcGateway.Json
