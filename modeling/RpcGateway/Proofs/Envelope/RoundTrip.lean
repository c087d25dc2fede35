import RpcGateway.Proofs.Envelope.Printed

/-!
Envelopes that are read back as they were written. Reading a printed record takes its members one
after the other, so what each member does to the reader's draft is stated once, and the text as a
whole is the chain of these steps.
-/
namespace RpcGateway
open Json Number

/-! ## Values that their text gives back -/

namespace Json

mutual

/-- How many arrays and objects are open at once where a value is deepest. -/
def nesting : Json → Nat
  | .arr items => nestingOfItems items + 1
  | .obj members => nestingOfMembers members + 1
  | _ => 0

def nestingOfItems : List Json → Nat
  | [] => 0
  | v :: vs => max v.nesting (nestingOfItems vs)

def nestingOfMembers : List (String × Json) → Nat
  | [] => 0
  | (_, v) :: ms => max v.nesting (nestingOfMembers ms)

end

/-- A value whose numbers are integers of 64 bits, signed or not. The members of its objects are in
order, as they are in every object. -/
inductive Exact : Json → Prop
  | null : Exact .null
  | bool (b : Bool) : Exact (.bool b)
  | int {i : Int} (hi : IsWord i) : Exact (.int i)
  | str (s : String) : Exact (.str s)
  | arr {items : List Json} (hv : ∀ v ∈ items, Exact v) : Exact (.arr items)
  | obj {members : List (String × Json)} (hs : members.Pairwise (fun m n => m.1 < n.1))
      (hv : ∀ m ∈ members, Exact m.2) : Exact (.obj members)

theorem nesting_le_of_mem_items {vs : List Json} {v : Json} (h : v ∈ vs) :
    v.nesting ≤ nestingOfItems vs := by
  induction vs with
  | nil => cases h
  | cons w ws ih =>
    rw [nestingOfItems]
    rcases List.mem_cons.mp h with rfl | h
    · exact le_max_left _ _
    · exact (ih h).trans (le_max_right _ _)

theorem nesting_le_of_mem_members {ms : List (String × Json)} {m : String × Json} (h : m ∈ ms) :
    m.2.nesting ≤ nestingOfMembers ms := by
  induction ms with
  | nil => cases h
  | cons n ns ih =>
    rw [nestingOfMembers]
    rcases List.mem_cons.mp h with rfl | h
    · exact le_max_left _ _
    · exact (ih h).trans (le_max_right _ _)

theorem Exact.canonical {v : Json} (h : v.Exact) {depth : Nat} (hd : v.nesting ≤ depth) :
    Canonical depth v := by
  induction h generalizing depth with
  | null => exact .null
  | bool b => exact .bool b
  | int hi => exact .int hi
  | str s => exact .str s
  | arr _ ih =>
    rw [nesting] at hd
    obtain ⟨depth, rfl⟩ : ∃ k, depth = k + 1 := ⟨depth - 1, by omega⟩
    refine .arr fun v hv => ih v hv ?_
    have hle := nesting_le_of_mem_items hv
    omega
  | obj hs _ ih =>
    rw [nesting] at hd
    obtain ⟨depth, rfl⟩ : ∃ k, depth = k + 1 := ⟨depth - 1, by omega⟩
    refine .obj hs fun m hm => ih m hm ?_
    have hle := nesting_le_of_mem_members hm
    omega

theorem Exact.not_holds {v : Json} (h : v.Exact) (x : Double) : ¬ v.Holds x := by
  induction h with
  | arr _ ih =>
    intro hx
    cases hx with
    | arr hv hx => exact ih _ hv hx
  | obj _ _ ih =>
    intro hx
    cases hx with
    | obj hm hx => exact ih _ hm hx
  | _ => exact fun hx => nomatch hx

theorem Exact.readsAs {v : Json} (h : v.Exact) {depth : Nat} (hd : v.nesting ≤ depth) :
    ReadsAs depth v.print (.ok v) := by
  have hself := (h.canonical hd).rereads.self.mpr fun x hx => absurd hx (h.not_holds x)
  exact hself ▸ (h.canonical hd).rereads.reads

/-! ## Members one after the other -/

/-- A reader takes the text for a value and leaves what follows it. -/
def Reads {α : Type} (bound : Nat) (read : Bytes → Reading α) (t : Bytes) (x : α) : Prop :=
  ∀ rest, (t ++ rest).length ≤ bound → StopsNumber rest → read (t ++ rest) = .ok (x, rest)

/-- Reading the members of a printed record takes one state to another. -/
inductive Steps {σ : Type} (bound : Nat) (step : σ → String → Bytes → Reading σ) :
    σ → List Member → σ → Prop
  | nil (d : σ) : Steps bound step d [] d
  | cons {d d' d'' : σ} {m : Member} {ms : List Member}
      (h : Reads bound (fun s => step d m.1 (colon :: s)) m.2 d')
      (hs : Steps bound step d' ms d'') : Steps bound step d (m :: ms) d''

section Steps
variable {σ α : Type} {bound : Nat} {step : σ → String → Bytes → Reading σ} {d d' d'' : σ}

theorem Steps.append {ms ms' : List Member} (h : Steps bound step d ms d')
    (h' : Steps bound step d' ms' d'') : Steps bound step d (ms ++ ms') d'' := by
  induction h with
  | nil => exact h'
  | cons hm _ ih => exact .cons hm (ih h')

/-- A member that is always there is read where it did not stand before. -/
theorem steps_required {name : String} {t : Bytes} {x : α} {read : Bytes → Reading α}
    (store : α → σ) (hstep : ∀ s, step d name s = once none read store s)
    (h : Reads bound read t x) : Steps bound step d [(name, t)] (store x) := by
  refine .cons (fun rest hl hr => ?_) (.nil _)
  simp only [hstep, once, afterColon_colon, h rest hl hr, Except.map]

/-- A member that may be left out is read if it is there. -/
theorem steps_optional {name : String} {printValue : α → Bytes} {x : Option α}
    {read : Bytes → Reading (Option α)} (store : Option (Option α) → σ)
    (hstep : ∀ s, step (store none) name s = once none read (fun y => store (some y)) s)
    (h : ∀ v, x = some v → Reads bound read (printValue v) (some v)) :
    Steps bound step (store none) (memberOf name printValue x) (store (x.map some)) := by
  cases x with
  | none => exact .nil _
  | some v => exact steps_required (fun y => store (some y)) hstep (h v rfl)

theorem members_of_steps {ms : List Member} (h : Steps bound step d ms d') {fuel : Nat}
    (hfuel : ms.length < fuel) (ht : ∀ m ∈ ms, IsValue m.2) (first : Bool) {rest : Bytes}
    (hl : (joined first (ms.map printMember) ++ closeBrace :: rest).length ≤ bound) :
    members bound step fuel first d (joined first (ms.map printMember) ++ closeBrace :: rest) =
      .ok (d', rest) := by
  induction h generalizing fuel first with
  | nil =>
    obtain ⟨fuel, rfl⟩ : ∃ k, fuel = k + 1 := ⟨fuel - 1, by omega⟩
    exact members_nil _ _ _ _
  | @cons d d₁ d₂ m ms hm _ ih =>
    obtain ⟨fuel, rfl⟩ : ∃ k, fuel = k + 1 := ⟨fuel - 1, by omega⟩
    rw [List.map_cons] at hl ⊢
    rw [List.length_cons] at hfuel
    have hstop := stopsNumber_joined (ms.map printMember) rest (.inr rfl)
    have hlm := Nat.le_of_lt (Nat.lt_of_lt_of_le
      (length_member first m (ms.map printMember) (closeBrace :: rest)) hl)
    have hrest := ((ht m List.mem_cons_self).valueText bound _ hlm hstop).length_le
    have hstep := hm _ hlm hstop
    dsimp only at hstep
    rw [members_cons _ _ _ _ _ _ hl, hstep]
    exact ih (by omega) (fun n hn => ht n (List.mem_cons_of_mem m hn)) false (hrest.trans hlm)

/-- A record that was printed is read by the members in it. -/
theorem members_printRecord {ms : List Member} (h : Steps bound step d ms d')
    (ht : ∀ m ∈ ms, IsValue m.2) {rest : Bytes} (hl : (printRecord ms ++ rest).length ≤ bound) :
    ∃ s, printRecord ms ++ rest = openBrace :: s ∧
      members bound step (bound + 1) true d s = .ok (d', rest) := by
  have hcount := length_le_joined true (ms.map printMember) closeBrace rest
  rw [List.length_map] at hcount
  rw [printRecord_eq, List.append_assoc, List.cons_append, List.singleton_append] at hl ⊢
  rw [List.length_cons] at hl
  exact ⟨_, rfl, members_of_steps h (by omega) ht true (by omega)⟩

end Steps

/-! ## Typed values -/

theorem reads_stringValue (bound : Nat) (t : String) :
    Reads bound (stringValue bound) (printString t) t := by
  intro rest hl _
  rw [printString_append] at hl ⊢
  have hblank : ∀ s, skipBlank (quote :: s) = quote :: s := fun _ => rfl
  simp only [stringValue, hblank, if_true]
  exact string_escaped t rest (Nat.le_of_succ_le hl)

theorem reads_int32Value (bound : Nat) (c : Int32) :
    Reads bound (int32Value bound) (printInt c.toInt) c := by
  intro rest _ hr
  have hrange : -half32 ≤ c.toInt ∧ c.toInt < half32 := ⟨c.le_toInt, c.toInt_lt⟩
  have hword : IsWord c.toInt := by
    obtain ⟨hlow, hhigh⟩ := hrange
    have h64 : (half64 : Int) = 9223372036854775808 := rfl
    have h32 : (half32 : Int) = 2147483648 := rfl
    have hmax : (maxWord : Int) = 18446744073709551615 := rfl
    constructor <;> omega
  simp only [int32Value, value_printInt hword bound hr, hrange, and_self, if_true,
    Int32.ofInt_toInt]

/-- What was printed is read as a member that may be `null` unless it is that. -/
theorem reads_optionalValue {bound depth : Nat} {v : Json} (h : ReadsAs depth v.print (.ok v))
    (hv : v ≠ .null) : Reads bound (optionalValue bound depth) v.print (some v) := by
  intro rest hl hr
  have hread := h bound rest hl hr
  obtain ⟨b, s, hs, -⟩ := ((isValue_print v).valueText bound rest hl hr).start
  have hb : b ≠ 0x6E := by
    rintro rfl
    exact hv (Envelope.null_of_value hs hread)
  simp only [optionalValue, optional, hs, hb, if_false]
  rw [← hs, (local_value depth).blanks, hread]
  rfl

end Json

theorem record_object {α : Type} (bound depth : Nat) (array object : Nat → Bytes → Reading α)
    (s : Bytes) : record bound (depth + 1) array object (openBrace :: s) = object depth s := rfl

/-! ## Errors -/

namespace RpcError

/-- The members of an error as they are printed. -/
def printed (e : RpcError) : List Member :=
  ("code", printInt e.code.toInt) :: ("message", printString e.message) ::
    memberOf "data" Json.print e.data

theorem isValue_of_mem_printed {e : RpcError} {x : Member} (h : x ∈ e.printed) :
    IsValue x.2 := by
  simp only [printed, List.mem_cons, Envelope.mem_memberOf] at h
  rcases h with rfl | rfl | ⟨v, -, rfl⟩
  · exact isValue_printInt _
  · exact isValue_printString _
  · exact isValue_print v

theorem steps_printed {bound depth : Nat} {e : RpcError}
    (hd : ∀ v, e.data = some v → v ≠ .null ∧ ReadsAs depth v.print (.ok v)) :
    Steps bound (Draft.step bound depth) {} e.printed
      ⟨some e.code, some e.message, e.data.map some⟩ := by
  have hcode : Steps bound (Draft.step bound depth) {} [("code", printInt e.code.toInt)]
      ⟨some e.code, none, none⟩ :=
    steps_required (fun x => Draft.mk (some x) none none) (fun _ => by simp [Draft.step])
      (reads_int32Value bound e.code)
  have hmessage : Steps bound (Draft.step bound depth) ⟨some e.code, none, none⟩
      [("message", printString e.message)] ⟨some e.code, some e.message, none⟩ :=
    steps_required (fun x => Draft.mk (some e.code) (some x) none) (fun _ => by simp [Draft.step])
      (reads_stringValue bound e.message)
  have hdata : Steps bound (Draft.step bound depth) ⟨some e.code, some e.message, none⟩
      (memberOf "data" Json.print e.data) ⟨some e.code, some e.message, e.data.map some⟩ :=
    steps_optional (fun y => Draft.mk (some e.code) (some e.message) y)
      (fun _ => by simp [Draft.step]) fun v h => reads_optionalValue (hd v h).2 (hd v h).1
  exact (hcode.append hmessage).append hdata

/-- An error that was printed is read back, one level of nesting further down. -/
theorem reads_print {bound depth : Nat} {e : RpcError}
    (hd : ∀ v, e.data = some v → v ≠ .null ∧ ReadsAs depth v.print (.ok v)) :
    Reads bound (optional (RpcError.read bound (depth + 1))) e.print (some e) := by
  intro rest hl _
  obtain ⟨s, hs, hmembers⟩ :=
    members_printRecord (steps_printed hd) (fun _ => isValue_of_mem_printed) hl
  have hblank : skipBlank (openBrace :: s) = openBrace :: s := rfl
  have hb : openBrace ≠ 0x6E := by decide
  have htext : e.print ++ rest = openBrace :: s := hs
  have hread : RpcError.read bound (depth + 1) (openBrace :: s) = .ok (e, rest) := by
    rw [RpcError.read, record_object, ofObject, hmembers]
    cases e with
    | mk code message data => cases data <;> rfl
  simp only [htext, Json.optional, hblank, hb, if_false, hread, Except.map]

end RpcError

/-! ## Envelopes -/

namespace Envelope

/-- The free values of an envelope that are present. -/
def values (m : Envelope) : List Json :=
  m.id.toList ++ m.params.toList ++ m.result.toList ++ (m.error.bind RpcError.data).toList

def nestingOf (v : Option Json) : Nat := (v.map Json.nesting).getD 0

/-- How many arrays and objects are open at once in the text of an envelope, its own and that of its
error included. -/
def nesting (m : Envelope) : Nat :=
  let error := m.error.map fun e => nestingOf e.data + 1
  max (max (nestingOf m.id) (nestingOf m.params)) (max (nestingOf m.result) (error.getD 0)) + 1

/-- A limit to the nesting of an envelope leaves its values one level less, and two that of its
error. -/
theorem nesting_le {m : Envelope} {depth : Nat} (h : m.nesting ≤ depth + 2) :
    (∀ v, m.id = some v ∨ m.params = some v ∨ m.result = some v → v.nesting ≤ depth + 1) ∧
      ∀ e v, m.error = some e → e.data = some v → v.nesting ≤ depth := by
  have hnesting : ∀ v : Json, nestingOf (some v) = v.nesting := fun _ => rfl
  unfold nesting at h
  dsimp only at h
  refine ⟨?_, ?_⟩
  · rintro v (hv | hv | hv) <;> rw [hv, hnesting] at h <;> omega
  · intro e v he hv
    simp only [he, Option.map_some, Option.getD_some, hv, hnesting] at h
    omega

/-- The method of a draft: an empty one was not printed. -/
def draftedMethod (m : Envelope) : Option String := if m.method.isEmpty then none else some m.method

/-- The draft that reading an envelope's text ends with. -/
def drafted (m : Envelope) : Draft :=
  ⟨some m.version, m.id.map some, m.draftedMethod, m.params.map some, m.result.map some,
    m.error.map some⟩

theorem finish_drafted (m : Envelope) : m.drafted.finish = m := by
  have hjoin : ∀ {α : Type} (x : Option α), (x.map some).join = x := by
    intro α x
    cases x <;> rfl
  have hmethod : m.draftedMethod.getD "" = m.method := by
    unfold draftedMethod
    split
    · next h => simpa using h
    · rfl
  simp only [Draft.finish, drafted, hjoin, hmethod, Option.getD_some]

theorem steps_printed {bound depth : Nat} {m : Envelope}
    (hv : ∀ v, m.id = some v ∨ m.params = some v ∨ m.result = some v →
      v ≠ .null ∧ ReadsAs (depth + 1) v.print (.ok v))
    (he : ∀ e v, m.error = some e → e.data = some v → v ≠ .null ∧ ReadsAs depth v.print (.ok v)) :
    Steps bound (Draft.step bound (depth + 1)) {} m.printed m.drafted := by
  have hvalue : ∀ v, m.id = some v ∨ m.params = some v ∨ m.result = some v →
      Reads bound (optionalValue bound (depth + 1)) v.print (some v) :=
    fun v h => reads_optionalValue (hv v h).2 (hv v h).1
  have hversion : Steps bound (Draft.step bound (depth + 1)) {}
      [("jsonrpc", printString m.version)] ⟨some m.version, none, none, none, none, none⟩ :=
    steps_required (fun x => Draft.mk (some x) none none none none none)
      (fun _ => by simp [Draft.step]) (reads_stringValue bound m.version)
  have hid : Steps bound (Draft.step bound (depth + 1))
      ⟨some m.version, none, none, none, none, none⟩ (memberOf "id" Json.print m.id)
      ⟨some m.version, m.id.map some, none, none, none, none⟩ :=
    steps_optional (fun y => Draft.mk (some m.version) y none none none none)
      (fun _ => by simp [Draft.step]) fun v h => hvalue v (.inl h)
  have hmethod : Steps bound (Draft.step bound (depth + 1))
      ⟨some m.version, m.id.map some, none, none, none, none⟩
      (if m.method.isEmpty then [] else [("method", printString m.method)])
      ⟨some m.version, m.id.map some, m.draftedMethod, none, none, none⟩ := by
    unfold draftedMethod
    split
    · exact .nil _
    · exact steps_required
        (fun x => Draft.mk (some m.version) (m.id.map some) (some x) none none none)
        (fun _ => by simp [Draft.step]) (reads_stringValue bound m.method)
  have hparams : Steps bound (Draft.step bound (depth + 1))
      ⟨some m.version, m.id.map some, m.draftedMethod, none, none, none⟩
      (memberOf "params" Json.print m.params)
      ⟨some m.version, m.id.map some, m.draftedMethod, m.params.map some, none, none⟩ :=
    steps_optional (fun y => Draft.mk (some m.version) (m.id.map some) m.draftedMethod y none none)
      (fun _ => by simp [Draft.step]) fun v h => hvalue v (.inr (.inl h))
  have hresult : Steps bound (Draft.step bound (depth + 1))
      ⟨some m.version, m.id.map some, m.draftedMethod, m.params.map some, none, none⟩
      (memberOf "result" Json.print m.result)
      ⟨some m.version, m.id.map some, m.draftedMethod, m.params.map some, m.result.map some,
        none⟩ :=
    steps_optional
      (fun y => Draft.mk (some m.version) (m.id.map some) m.draftedMethod (m.params.map some) y
        none)
      (fun _ => by simp [Draft.step]) fun v h => hvalue v (.inr (.inr h))
  have herror : Steps bound (Draft.step bound (depth + 1))
      ⟨some m.version, m.id.map some, m.draftedMethod, m.params.map some, m.result.map some, none⟩
      (memberOf "error" RpcError.print m.error) m.drafted :=
    steps_optional
      (fun y => Draft.mk (some m.version) (m.id.map some) m.draftedMethod (m.params.map some)
        (m.result.map some) y)
      (fun _ => by simp [Draft.step]) fun e h => RpcError.reads_print fun v => he e v h
  exact ((((hversion.append hid).append hmethod).append hparams).append hresult).append herror

/-- An envelope that was printed is read back. -/
theorem reads_print {bound depth : Nat} {m : Envelope}
    (hv : ∀ v, m.id = some v ∨ m.params = some v ∨ m.result = some v →
      v ≠ .null ∧ ReadsAs (depth + 1) v.print (.ok v))
    (he : ∀ e v, m.error = some e → e.data = some v → v ≠ .null ∧ ReadsAs depth v.print (.ok v)) :
    Reads bound (Envelope.read bound (depth + 2)) m.print m := by
  intro rest hl _
  obtain ⟨s, hs, hmembers⟩ :=
    members_printRecord (steps_printed hv he) (fun _ => isValue_of_mem_printed) hl
  rw [print_eq, hs, Envelope.read, record_object, ofObject, hmembers]
  exact congrArg (fun x => Except.ok (x, rest)) m.finish_drafted

theorem beginsArray_print (m : Envelope) : beginsArray m.print = false := rfl

/-- An envelope without `null` in the place of an absent value, whose numbers are integers of 64
bits and which nests no deeper than a reader follows, is read back from its own text. -/
theorem ofBody_of_marshal (m : Envelope) (hv : ∀ v ∈ m.values, v ≠ .null ∧ v.Exact)
    (hd : m.nesting ≤ maxDepth) :
    ∃ text, Marshaler.json.marshal m = .ok text ∧ Envelope.ofBody text = .ok m := by
  obtain ⟨hvalues, hdata⟩ := nesting_le hd
  have hreads : Reads m.print.length (Envelope.read m.print.length maxDepth) m.print m := by
    refine reads_print (fun v h => ?_) fun e v he hv' => ?_
    · have hmem : v ∈ m.values := by
        rcases h with h | h | h <;> simp [values, h]
      exact ⟨(hv v hmem).1, (hv v hmem).2.readsAs (hvalues v h)⟩
    · have hmem : v ∈ m.values := by simp [values, he, hv']
      exact ⟨(hv v hmem).1, (hv v hmem).2.readsAs (hdata e v he hv')⟩
  have hread := hreads [] (by rw [List.append_nil]) stopsNumber_nil
  rw [List.append_nil] at hread
  have hparse : Envelope.parse m.print = .ok m := by
    rw [Envelope.parse, entire, hread]
    rfl
  refine ⟨m.print, rfl, ?_⟩
  simp [Envelope.ofBody, Incoming.parse, beginsArray_print, hparse, Except.map]

/-- An envelope with an empty method and an error with data. -/
def crowded : Envelope where
  version := "2.0"
  id := some (.int 18446744073709551615)
  params := some (.obj
    [("a", .arr [.null, .int (-9223372036854775808)]), ("é\n", .str "\"\\\u0001")])
  error := some ⟨-1, "\x7f", some (.arr [.arr []])⟩

theorem ofBody_of_marshal_crowded :
    (∀ v ∈ crowded.values, v ≠ .null ∧ v.Exact) ∧ crowded.nesting ≤ maxDepth ∧
    ∃ text, Marshaler.json.marshal crowded = .ok text ∧ Envelope.ofBody text = .ok crowded := by
  have hv : ∀ v ∈ crowded.values, v ≠ .null ∧ v.Exact := by
    have hempty : (Json.arr []).Exact := .arr (List.forall_mem_nil _)
    have hlist : (Json.arr [.null, .int (-9223372036854775808)]).Exact :=
      .arr (List.forall_mem_cons.mpr
        ⟨.null, List.forall_mem_singleton.mpr (.int ⟨by decide, by decide⟩)⟩)
    refine List.forall_mem_cons.mpr ⟨⟨Json.noConfusion, .int ⟨by decide, by decide⟩⟩,
      List.forall_mem_cons.mpr ⟨⟨Json.noConfusion, .obj (by decide) ?_⟩,
      List.forall_mem_singleton.mpr
        ⟨Json.noConfusion, .arr (List.forall_mem_singleton.mpr hempty)⟩⟩⟩
    exact List.forall_mem_cons.mpr ⟨hlist, List.forall_mem_singleton.mpr (.str _)⟩
  have hd : crowded.nesting ≤ maxDepth := by decide
  exact ⟨hv, hd, ofBody_of_marshal crowded hv hd⟩

end Envelope

end RpcGateway
