import RpcGateway.Proofs.Envelope.Members
import RpcGateway.Proofs.Json.ReadTexts
import RpcGateway.Proofs.Mux.Isolation

/-!
The shape of bodies that are decoded. One envelope is read from an object and a batch from an array,
with nothing but blanks around it, and an array is never taken for one envelope, although an
envelope may be written as an array of its members. Strings in members without a meaning are passed
over and need not be UTF-8; all the rest of a decoded body is JSON.
-/
namespace RpcGateway
open Json Text

/-! ## Texts of envelopes -/

/-- Elements at their places, as many as there are. -/
def Json.Fits : List (Bytes → Prop) → List ElementText → Prop
  | _, [] => True
  | [], _ :: _ => False
  | V :: Vs, e :: es => V e.value ∧ Fits Vs es

theorem Json.Fits.forall_mem {W : Bytes → Prop} {Vs : List (Bytes → Prop)} {es : List ElementText}
    (h : Fits Vs es) (hW : ∀ V ∈ Vs, ∀ t, V t → W t) : ∀ e ∈ es, W e.value := by
  induction es generalizing Vs with
  | nil => exact List.forall_mem_nil _
  | cons e es ih =>
    cases Vs with
    | nil => cases h
    | cons V Vs =>
      obtain ⟨hV, hVs⟩ := List.forall_mem_cons.mp hW
      exact List.forall_mem_cons.mpr ⟨hV _ h.1, ih h.2 hVs⟩

namespace RpcError

/-- What may stand under a name in an error: under the names with a meaning, JSON. -/
def MemberValue (name : String) (t : Bytes) : Prop :=
  IsValue t ∧ (name ∈ ["code", "message", "data"] → IsUtf8 t)

/-- The text of an error, or of `null` in its place. -/
def IsText (t : Bytes) : Prop :=
  IsJson t ∨ ∃ w ms, IsBlanks w ∧ Wanted MemberValue ms ∧ t = objectText w ms

theorem IsText.isValue {t : Bytes} (h : IsText t) : IsValue t := by
  rcases h with h | ⟨w, ms, hw, hm, rfl⟩
  · exact h.isValue
  · refine .object hw fun m hmem => ?_
    obtain ⟨k, -, hv⟩ := hm m hmem
    exact hv.1

end RpcError

namespace Envelope

/-- What may stand under a name in an envelope: the text of an error, JSON under the other names
with a meaning, and else whatever can be skipped. -/
def MemberValue (name : String) (t : Bytes) : Prop :=
  IsValue t ∧ (name = "error" → RpcError.IsText t) ∧
    (name ∈ ["jsonrpc", "id", "method", "params", "result"] → IsUtf8 t)

def IsObject (t : Bytes) : Prop :=
  ∃ w ms, IsBlanks w ∧ Wanted MemberValue ms ∧ t = objectText w ms

/-- The members of an envelope in the order of its fields, from the front as many as there are. -/
def IsArray (t : Bytes) : Prop :=
  ∃ w es, IsBlanks w ∧ Fits [IsJson, IsJson, IsJson, IsJson, IsJson, RpcError.IsText] es ∧
    t = arrayText w es

def IsBatch (t : Bytes) : Prop :=
  ∃ w es, IsBlanks w ∧ (∀ e ∈ es, IsObject (ElementText.value e) ∨ IsArray e.value) ∧
    t = arrayText w es

theorem IsObject.isValue {t : Bytes} (h : IsObject t) : IsValue t := by
  obtain ⟨w, ms, hw, hm, rfl⟩ := h
  refine .object hw fun m hmem => ?_
  obtain ⟨k, -, hv⟩ := hm m hmem
  exact hv.1

theorem IsArray.isValue {t : Bytes} (h : IsArray t) : IsValue t := by
  obtain ⟨w, es, hw, he, rfl⟩ := h
  refine .array hw (he.forall_mem ?_)
  have hjson : ∀ t, IsJson t → IsValue t := fun _ h => h.isValue
  simp only [List.forall_mem_cons]
  exact ⟨hjson, hjson, hjson, hjson, hjson, fun _ h => h.isValue, List.forall_mem_nil _⟩

theorem IsBatch.isValue {t : Bytes} (h : IsBatch t) : IsValue t := by
  obtain ⟨w, es, hw, he, rfl⟩ := h
  exact .array hw fun e hmem => (he e hmem).elim IsObject.isValue IsArray.isValue

end Envelope

/-! ## Readers -/

section Readers
variable {bound depth : Nat} {s t r rest : Bytes} {first : Bool}

theorem spans_of_once {α σ : Type} {V : Bytes → Prop} {seen : Option α}
    {read : Bytes → Reading α} {store : α → σ} {state : σ} (hr : Takes V read)
    (h : once seen read store s = .ok (state, rest)) :
    ∃ u, afterColon s = .ok u ∧ Spans V u rest := by
  obtain ⟨-, u, x, hu, hx, -⟩ := exists_of_once h
  exact ⟨u, hu, hr hx⟩

theorem spans_of_skipMember {σ : Type} {state state' : σ}
    (h : skipMember bound state s = .ok (state', rest)) :
    ∃ u, afterColon s = .ok u ∧ Spans IsValue u rest := by
  obtain ⟨-, u, hu, hr⟩ := exists_of_skipMember h
  exact ⟨u, hu, spans_of_skip hr⟩

theorem takes_optionalValue : Takes IsJson (optionalValue bound depth) :=
  takes_optional (fun h => h) (takes_value depth)

theorem eq_of_spansItems {P : List ElementText → Prop}
    (h : SpansItems P false (closeBracket :: r) rest) : r = rest := by
  obtain ⟨w, es, hw, -, heq⟩ := h
  cases w with
  | cons b w =>
    have hb := hw b List.mem_cons_self
    rw [List.cons_append] at heq
    rw [← (List.cons.inj heq).1] at hb
    cases hb
  | nil =>
    cases es with
    | nil => exact (List.cons.inj heq).2
    | cons e es =>
      have hcomma : closeBracket = comma := (List.cons.inj heq).1
      cases hcomma

/-- An array that stands for a record goes on with the element of the next place, or has ended. -/
theorem spansItems_of_positional {α : Type} {V : Bytes → Prop} {Vs : List (Bytes → Prop)}
    {read : Bytes → Reading α} {x : Option α} (hr : Takes V read)
    (h : positional read first s = .ok (x, t)) (hc : SpansItems (Fits Vs) false t rest) :
    SpansItems (Fits (V :: Vs)) first s rest := by
  unfold positional at h
  split at h
  · cases h
  · next u hn =>
    cases h
    rcases nextItem_cases hn with ⟨-, r, rfl, hs⟩ | ⟨hm, -⟩
    · exact .nil trivial (eq_of_spansItems hc ▸ hs)
    · cases hm
  · next u hn =>
    obtain ⟨⟨y, r⟩, hy, heq⟩ := exists_of_map_eq_ok h
    cases heq
    have hcons : ∀ {e : ElementText} {es : List ElementText}, V e.value → Fits Vs es →
        Fits (V :: Vs) (e :: es) := fun he hes => ⟨he, hes⟩
    have hv := hr hy
    rcases nextItem_cases hn with ⟨hm, -⟩ | ⟨-, c, w, -, -, ⟨rfl, hs⟩ | ⟨rfl, u, hs, hu⟩⟩
    · cases hm
    · exact .cons_first hcons (hv.of_skipBlank hs) hc
    · exact .cons_next hcons hs (hv.of_skipBlank hu) hc

theorem spansItems_of_endItems (h : endItems s = .ok rest) : SpansItems (Fits []) false s rest :=
  .nil trivial (skipBlank_of_endItems h)

theorem takes_record {α : Type} {V : Bytes → Prop} {array object : Nat → Bytes → Reading α}
    (ha : ∀ {depth s x rest}, array depth s = .ok (x, rest) → Spans V (openBracket :: s) rest)
    (ho : ∀ {depth s x rest}, object depth s = .ok (x, rest) → Spans V (openBrace :: s) rest) :
    Takes V (record bound depth array object) := by
  intro s x rest h
  unfold record at h
  split at h
  · cases h
  next b r hs =>
  split at h
  · next hb =>
    split at h
    · cases h
    · split at h
      · next hb' => exact (ha h).of_skipBlank (by rw [hs, hb'])
      · next hb' => exact (ho h).of_skipBlank (by rw [hs, hb.resolve_left hb'])
  · cases h

namespace RpcError

theorem spans_of_step {d d' : Draft} {name : String}
    (h : Draft.step bound depth d name s = .ok (d', rest)) :
    ∃ u, afterColon s = .ok u ∧ Spans (MemberValue name) u rest := by
  have hjson : ∀ {u}, Spans IsJson u rest → Spans (MemberValue name) u rest :=
    Spans.mono fun h => ⟨h.isValue, fun _ => h.isUtf8⟩
  unfold Draft.step at h
  split at h
  · exact (spans_of_once takes_int32Value h).imp fun u => And.imp_right hjson
  split at h
  · exact (spans_of_once takes_stringValue h).imp fun u => And.imp_right hjson
  split at h
  · exact (spans_of_once takes_optionalValue h).imp fun u => And.imp_right hjson
  · next hcode hmessage hdata =>
    refine (spans_of_skipMember h).imp fun u => And.imp_right (Spans.mono fun hv => ⟨hv, ?_⟩)
    intro hk
    simp only [List.mem_cons, List.not_mem_nil, or_false] at hk
    exact absurd hk (by simp [hcode, hmessage, hdata])

theorem spans_of_ofObject {e : RpcError} (h : ofObject bound depth s = .ok (e, rest)) :
    Spans IsText (openBrace :: s) rest := by
  unfold ofObject at h
  split at h
  · cases h
  next d r hm =>
  obtain ⟨x, -, heq⟩ := exists_of_map_eq_ok h
  cases heq
  have hspans := spansMembers_of_members (fun h => spans_of_step h) hm
  obtain ⟨w, ms, hw, hms, heq⟩ := hspans.exists_objectText
  exact ⟨[], _, isBlanks_nil, .inr ⟨w, ms, hw, hms, rfl⟩, heq⟩

theorem spans_of_ofArray {e : RpcError} (h : ofArray bound depth s = .ok (e, rest)) :
    Spans IsText (openBracket :: s) rest := by
  obtain ⟨⟨code, s₁⟩, hcode, h⟩ := exists_of_bind_eq_ok h
  dsimp only at h
  split at h
  case h_2 => cases h
  obtain ⟨⟨message, s₂⟩, hmessage, h⟩ := exists_of_bind_eq_ok h
  dsimp only at h
  split at h
  case h_2 => cases h
  obtain ⟨⟨data, s₃⟩, hdata, h⟩ := exists_of_bind_eq_ok h
  obtain ⟨s₄, hend, h⟩ := exists_of_bind_eq_ok h
  obtain ⟨-, rfl⟩ := Prod.mk.inj (Except.ok.inj h)
  have h₃ := spansItems_of_positional takes_optionalValue hdata (spansItems_of_endItems hend)
  have h₂ := spansItems_of_positional takes_stringValue hmessage h₃
  have h₁ := spansItems_of_positional takes_int32Value hcode h₂
  obtain ⟨w, es, hw, hes, heq⟩ := h₁.exists_arrayText
  refine ⟨[], _, isBlanks_nil, .inl (isJson_array hw (hes.forall_mem ?_)), heq⟩
  simp only [List.forall_mem_cons]
  exact ⟨fun _ h => h, fun _ h => h, fun _ h => h, List.forall_mem_nil _⟩

theorem takes_read : Takes IsText (RpcError.read bound depth) :=
  takes_record spans_of_ofArray spans_of_ofObject

end RpcError

namespace Envelope

theorem takes_error : Takes RpcError.IsText (optional (RpcError.read bound depth)) :=
  takes_optional .inl RpcError.takes_read

theorem Place.takes_read {p : Place} (hp : p ≠ .error) : Takes IsJson (p.read bound depth) := by
  cases p with
  | version => exact takes_stringValue
  | id => exact takes_optionalValue
  | method => exact takes_stringValue
  | params => exact takes_optionalValue
  | result => exact takes_optionalValue
  | error => exact absurd rfl hp

theorem spans_of_step {d d' : Draft} {name : String}
    (h : Draft.step bound depth d name s = .ok (d', rest)) :
    ∃ u, afterColon s = .ok u ∧ Spans (MemberValue name) u rest := by
  rcases Draft.step_cases h with ⟨p, rfl, -, u, x, hu, hx, -⟩ | ⟨hother, -, u, hu, hr⟩
  · refine ⟨u, hu, ?_⟩
    by_cases hp : p = .error
    · subst hp
      have hnone : Place.error.name ∉ ["jsonrpc", "id", "method", "params", "result"] := by decide
      exact (takes_error hx).mono fun ht => ⟨ht.isValue, fun _ => ht, fun hk => absurd hk hnone⟩
    · exact (p.takes_read hp hx).mono fun ht => ⟨ht.isValue, fun _ => .inl ht, fun _ => ht.isUtf8⟩
  · refine ⟨u, hu, (spans_of_skip hr).mono fun hv => ⟨hv, fun hk => absurd hk (hother .error), ?_⟩⟩
    intro hk
    simp only [List.mem_cons, List.not_mem_nil, or_false] at hk
    rcases hk with hk | hk | hk | hk | hk
    · exact absurd hk (hother .version)
    · exact absurd hk (hother .id)
    · exact absurd hk (hother .method)
    · exact absurd hk (hother .params)
    · exact absurd hk (hother .result)

theorem spans_of_ofObject {m : Envelope} (h : ofObject bound depth s = .ok (m, rest)) :
    Spans IsObject (openBrace :: s) rest := by
  obtain ⟨⟨d, t⟩, hm, heq⟩ := exists_of_map_eq_ok h
  cases heq
  have hspans := spansMembers_of_members (fun h => spans_of_step h) hm
  obtain ⟨w, ms, hw, hms, heq⟩ := hspans.exists_objectText
  exact ⟨[], _, isBlanks_nil, ⟨w, ms, hw, hms, rfl⟩, heq⟩

theorem spans_of_ofArray {m : Envelope} (h : ofArray bound depth s = .ok (m, rest)) :
    Spans IsArray (openBracket :: s) rest := by
  obtain ⟨⟨version, s₁⟩, hversion, h⟩ := exists_of_bind_eq_ok h
  obtain ⟨⟨id, s₂⟩, hid, h⟩ := exists_of_bind_eq_ok h
  obtain ⟨⟨method, s₃⟩, hmethod, h⟩ := exists_of_bind_eq_ok h
  obtain ⟨⟨params, s₄⟩, hparams, h⟩ := exists_of_bind_eq_ok h
  obtain ⟨⟨result, s₅⟩, hresult, h⟩ := exists_of_bind_eq_ok h
  obtain ⟨⟨error, s₆⟩, herror, h⟩ := exists_of_bind_eq_ok h
  obtain ⟨s₇, hend, h⟩ := exists_of_bind_eq_ok h
  obtain ⟨-, rfl⟩ := Prod.mk.inj (Except.ok.inj h)
  have h₆ := spansItems_of_positional takes_error herror (spansItems_of_endItems hend)
  have h₅ := spansItems_of_positional takes_optionalValue hresult h₆
  have h₄ := spansItems_of_positional takes_optionalValue hparams h₅
  have h₃ := spansItems_of_positional takes_stringValue hmethod h₄
  have h₂ := spansItems_of_positional takes_optionalValue hid h₃
  have h₁ := spansItems_of_positional takes_stringValue hversion h₂
  obtain ⟨w, es, hw, hes, heq⟩ := h₁.exists_arrayText
  exact ⟨[], _, isBlanks_nil, ⟨w, es, hw, hes, rfl⟩, heq⟩

theorem takes_read : Takes (fun t => IsObject t ∨ IsArray t) (Envelope.read bound depth) :=
  takes_record (fun h => (spans_of_ofArray h).mono .inr) (fun h => (spans_of_ofObject h).mono .inl)

end Envelope

end Readers

/-! ## Bodies -/

/-- A text with blanks around it. -/
def Json.Framed (V : Bytes → Prop) (s : Bytes) : Prop :=
  ∃ w t w', IsBlanks w ∧ V t ∧ IsBlanks w' ∧ s = w ++ (t ++ w')

/-- A JSON text, of a value that begins with the byte. -/
structure Json.IsJsonText (b : UInt8) (s : Bytes) : Prop where
  isUtf8 : IsUtf8 s
  framed : Framed (fun t => IsValue t ∧ t.head? = some b) s

theorem Json.Framed.isJsonText {V : Bytes → Prop} {b : UInt8} {s : Bytes} (h : Framed V s)
    (hv : ∀ {t}, V t → IsValue t ∧ t.head? = some b) (hs : IsUtf8 s) : IsJsonText b s := by
  obtain ⟨w, t, w', hw, ht, hw', heq⟩ := h
  exact ⟨hs, w, t, w', hw, hv ht, hw', heq⟩

theorem Json.framed_of_entire {α : Type} {V : Bytes → Prop} {read : Bytes → Reading α}
    (hr : Takes V read) {s : Bytes} {x : α} (h : entire read s = .ok x) : Framed V s := by
  unfold entire at h
  split at h
  · cases h
  next y rest hread =>
  split at h
  · next hrest =>
    obtain ⟨w, t, hw, ht, rfl⟩ := hr hread
    obtain ⟨w', hw', heq⟩ := exists_blanks (List.isEmpty_iff.mp hrest)
    rw [List.append_nil] at heq
    exact ⟨w, t, w', hw, ht, hw', by rw [heq]⟩
  · cases h

namespace Envelope

theorem beginsArray_blanks {w : Bytes} (hw : IsBlanks w) (t : Bytes) :
    beginsArray (w ++ openBracket :: t) = true :=
  beginsArray_of_skipBlank (skipBlank_blanks_cons hw (by decide) t)

theorem framed_of_single {s : Bytes} {m : Envelope} (h : Incoming.parse s = .ok (.single m)) :
    Framed IsObject s := by
  obtain ⟨hbegins, hparse⟩ := Incoming.parse_eq_single_iff.mp h
  obtain ⟨w, t, w', hw, ht, hw', rfl⟩ := framed_of_entire takes_read hparse
  rcases ht with ht | ⟨w₁, es, -, -, rfl⟩
  · exact ⟨w, t, w', hw, ht, hw', rfl⟩
  · rw [arrayText, List.cons_append, beginsArray_blanks hw] at hbegins
    cases hbegins

theorem takes_readBatch {bound : Nat} : Takes IsBatch (readBatch bound) := by
  intro s ms rest h
  unfold readBatch at h
  split at h
  · cases h
  next b r hs =>
  split at h
  · next hb =>
    obtain ⟨w, es, hw, hes, heq⟩ := (spansItems_of_items takes_read h).exists_arrayText
    have hspans : Spans IsBatch (openBracket :: r) rest :=
      ⟨[], _, isBlanks_nil, ⟨w, es, hw, hes, rfl⟩, heq⟩
    exact hspans.of_skipBlank (by rw [hs, hb])
  · cases h

theorem framed_of_batch {s : Bytes} {ms : List Envelope}
    (h : Incoming.parse s = .ok (.batch ms)) : Framed IsBatch s := by
  unfold Incoming.parse at h
  split at h
  · obtain ⟨ms', hentire, heq⟩ := exists_of_map_eq_ok h
    cases heq
    exact framed_of_entire takes_readBatch hentire
  · obtain ⟨m, -, heq⟩ := exists_of_map_eq_ok h
    cases heq

end Envelope

namespace Mux
open Envelope Http

/-- An array is turned away, whatever its elements are. -/
theorem turnedAway_of_beginsArray {cap : Nat} {q : Request}
    (h : beginsArray q.body.bytes = true) : TurnedAway cap q := by
  rcases turnedAway_or_decodes cap q with haway | ⟨m, hm⟩
  · exact haway
  · have hsingle := (Incoming.parse_eq_single_iff.mp hm.parsed).1
    rw [h] at hsingle
    cases hsingle

/-- One envelope is read from an object only and a batch from an array only, with blanks around it,
and where the body is UTF-8 that is JSON; bytes that are not can only stand in strings of members
without a meaning. A body that begins with blanks and a bracket is never read as one envelope, and
its request is answered the same whatever handlers there are. -/
theorem body_shapes (s : Bytes) :
    (∀ m, Envelope.ofBody s = .ok m →
      Framed Envelope.IsObject s ∧ (IsUtf8 s → IsJsonText openBrace s)) ∧
    (∀ ms, Incoming.parse s = .ok (.batch ms) →
      Framed Envelope.IsBatch s ∧ (IsUtf8 s → IsJsonText openBracket s)) ∧
    ∀ w t, IsBlanks w → s = w ++ openBracket :: t →
      (∀ m, Incoming.parse s ≠ .ok (.single m)) ∧ (∀ m, Envelope.ofBody s ≠ .ok m) ∧
      ∀ (mux : Mux) (q : Request), q.body.bytes = s →
        TurnedAway mux.options.maxBodyBytes q ∧
        (∃ response, mux.accept q = .error response) ∧
        ∀ other : Mux, other.options = mux.options → other.serve q = mux.serve q := by
  refine ⟨fun m h => ?_, fun ms h => ?_, ?_⟩
  · have hframed := framed_of_single (ofBody_eq_ok_iff.mp h)
    refine ⟨hframed, hframed.isJsonText fun ht => ⟨ht.isValue, ?_⟩⟩
    obtain ⟨w, ms, -, -, rfl⟩ := ht
    rfl
  · have hframed := framed_of_batch h
    refine ⟨hframed, hframed.isJsonText fun ht => ⟨ht.isValue, ?_⟩⟩
    obtain ⟨w, es, -, -, rfl⟩ := ht
    rfl
  · rintro w t hw rfl
    have hbegins := beginsArray_blanks hw t
    have hsingle : ∀ m, Incoming.parse (w ++ openBracket :: t) ≠ .ok (.single m) := by
      intro m h
      rw [(Incoming.parse_eq_single_iff.mp h).1] at hbegins
      cases hbegins
    refine ⟨hsingle, fun m h => hsingle m (ofBody_eq_ok_iff.mp h), fun mux q hq => ?_⟩
    have haway : TurnedAway mux.options.maxBodyBytes q := turnedAway_of_beginsArray (hq ▸ hbegins)
    refine ⟨haway, ?_, fun other ho => (serve_congr_of_turnedAway ho.symm haway).symm⟩
    cases ha : mux.accept q with
    | error response => exact ⟨response, rfl⟩
    | ok m => exact absurd (accept_eq_ok_iff.mp ha) (haway.not_decodes m)

/-! ## An array in place of an object, and a string that is passed over -/

/-- A call with an unknown member, whose string is not UTF-8. -/
def strayCall : Bytes :=
  utf8 "\x7b\"method\":\"A.B\",\"x\":\"" ++ 0xFF :: utf8 "\"\x7d"

theorem ofBody_strayCall : Envelope.ofBody strayCall = .ok { method := "A.B" } := rfl

/-- An envelope is read although the body is not JSON. -/
theorem stray_bytes_accepted :
    Envelope.ofBody strayCall = .ok { method := "A.B" } ∧ ¬ IsJsonText openBrace strayCall := by
  refine ⟨ofBody_strayCall, fun h => ?_⟩
  have hnone : (ofUtf8? strayCall).isSome = false := by decide
  rw [isUtf8_iff_isSome.mp h.isUtf8] at hnone
  cases hnone

/-- The members of a call in the order of the fields, as an array behind a line feed. -/
def positionalCall : Bytes := utf8 "\n[\"2.0\",7,\"A.B\"]"

def positionalRequest : Request := { splitCall with body := .ofBytes positionalCall }

/-- An array that would do for an envelope is refused, but not as the element of a batch. -/
theorem body_shapes_positional :
    Envelope.ofBody (utf8 " \x7b\"method\":\"A.B\"\x7d") = .ok { method := "A.B" } ∧
    IsJsonText openBrace (utf8 " \x7b\"method\":\"A.B\"\x7d") ∧
    Framed Envelope.IsObject strayCall ∧
    Incoming.parse (utf8 "[[\"2.0\",7,\"A.B\"]]") =
      .ok (.batch [{ version := "2.0", id := some (.int 7), method := "A.B" }]) ∧
    IsJsonText openBracket (utf8 "[[\"2.0\",7,\"A.B\"]]") ∧
    Envelope.parse positionalCall =
      .ok { version := "2.0", id := some (.int 7), method := "A.B" } ∧
    (∀ m, Envelope.ofBody positionalCall ≠ .ok m) ∧
    (Mux.registered default [("A.B", echoing)]).serve positionalRequest =
      (default : Mux).serve positionalRequest := by
  have hobject : Envelope.ofBody (utf8 " \x7b\"method\":\"A.B\"\x7d") =
      .ok { method := "A.B" } := by rfl
  have hbatch : Incoming.parse (utf8 "[[\"2.0\",7,\"A.B\"]]") =
      .ok (.batch [{ version := "2.0", id := some (.int 7), method := "A.B" }]) := by rfl
  have hblank : IsBlanks [0x0A] := List.forall_mem_singleton.mpr rfl
  have harray := (body_shapes positionalCall).2.2 [0x0A] (utf8 "\"2.0\",7,\"A.B\"]") hblank
    (by decide)
  have hbytes : positionalRequest.body.bytes = positionalCall := List.append_nil _
  refine ⟨hobject, ((body_shapes _).1 _ hobject).2 ⟨_, rfl⟩,
    ((body_shapes _).1 _ ofBody_strayCall).1, hbatch,
    ((body_shapes _).2.1 _ hbatch).2 ⟨_, rfl⟩, rfl, harray.2.1, ?_⟩
  exact (harray.2.2 default positionalRequest hbytes).2.2 _ rfl

end Mux

end RpcGateway
