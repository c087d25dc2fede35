import RpcGateway.Envelope.Codec
import RpcGateway.Proofs.Envelope.Places
import RpcGateway.Proofs.Json.ReadBack

/-!
Members of envelopes. What reads an envelope leaves the same input as passing over its members
would, so the members of a text are there to be looked at without a second opinion on what they are.
-/
namespace RpcGateway
open Json

/-! ## Records are skipped as they are read -/

theorem Json.ClosesTo.unique {bound : Nat} {bracket : Bracket} {s rest rest' : Bytes}
    (h : ClosesTo bound bracket s rest) (h' : ClosesTo bound bracket s rest') : rest = rest' := by
  obtain ⟨n, -, hn⟩ := h
  obtain ⟨m, -, hm⟩ := h'
  have h₁ := hn m []
  have h₂ := hm n []
  rw [Nat.add_comm m n, h₂, skipAfter_nil, skipAfter_nil] at h₁
  exact (Except.ok.inj h₁).symm

section Readers
variable {bound depth : Nat} {s t rest : Bytes}

theorem skipsTo_of_once {α σ : Type} {seen : Option α} {read : Bytes → Reading α} {store : α → σ}
    {state : σ} (hr : Skippable bound read) (hl : s.length ≤ bound)
    (h : once seen read store s = .ok (state, rest)) :
    ∃ u, afterColon s = .ok u ∧ SkipsTo bound u rest := by
  obtain ⟨-, u, x, hu, hx, -⟩ := exists_of_once h
  have hlu := length_of_afterColon hu
  exact ⟨u, hu, hr (by omega) hx⟩

theorem skipsTo_of_skipMember {σ : Type} {state state' : σ}
    (h : skipMember bound state s = .ok (state', rest)) :
    ∃ u, afterColon s = .ok u ∧ SkipsTo bound u rest := by
  obtain ⟨-, u, hu, hr⟩ := exists_of_skipMember h
  exact ⟨u, hu, skipsTo_of_skip hr⟩

theorem skippable_optionalValue : Skippable bound (optionalValue bound depth) :=
  skippable_optional (skippable_value depth)

/-- An array that stands for a record goes on with its next element, or has ended. -/
theorem inside_of_positional {α : Type} (rest : Bytes) {read : Bytes → Reading α}
    {first : Bool} {x : Option α} (hr : Skippable bound read) (hl : s.length ≤ bound)
    (h : positional read first s = .ok (x, t)) :
    t.length ≤ s.length ∧
      (ClosesTo bound .array t rest → Inside bound .array first s rest) := by
  unfold positional at h
  split at h
  · cases h
  · next u hn =>
    cases h
    have hlt := length_le_of_nextItem hn
    rcases nextItem_cases hn with ⟨-, r, rfl, hs⟩ | ⟨hm, -⟩
    · refine ⟨hlt, fun hc => ?_⟩
      have hb : ClosesTo bound .array (closeBracket :: r) r :=
        closesTo_bracket (skipBlank_of_not_blank r (by decide))
      rw [hc.unique hb]
      exact inside_array_end hs
    · cases hm
  · next u hn =>
    obtain ⟨⟨y, r⟩, hy, heq⟩ := exists_of_map_eq_ok h
    cases heq
    have hlu := length_le_of_nextItem hn
    have hv := hr (by omega) hy
    have hlt := hv.length_le
    exact ⟨by omega, inside_array_next hn hv⟩

theorem closesTo_of_endItems (h : endItems s = .ok rest) : ClosesTo bound .array s rest :=
  closesTo_bracket (skipBlank_of_endItems h)

theorem RpcError.skipsTo_of_ofArray {e : RpcError} (hl : s.length ≤ bound)
    (h : RpcError.ofArray bound depth s = .ok (e, rest)) :
    SkipsTo bound (openBracket :: s) rest := by
  obtain ⟨⟨code, s₁⟩, hcode, h⟩ := exists_of_bind_eq_ok h
  obtain ⟨hl₁, hinside⟩ := inside_of_positional rest skippable_int32Value hl hcode
  dsimp only at h
  split at h
  case h_2 => cases h
  obtain ⟨⟨message, s₂⟩, hmessage, h⟩ := exists_of_bind_eq_ok h
  obtain ⟨hl₂, hclose₁⟩ :=
    inside_of_positional rest skippable_stringValue (by omega) hmessage
  dsimp only at h
  split at h
  case h_2 => cases h
  obtain ⟨⟨data, s₃⟩, hdata, h⟩ := exists_of_bind_eq_ok h
  obtain ⟨-, hclose₂⟩ :=
    inside_of_positional rest skippable_optionalValue (by omega) hdata
  obtain ⟨s₄, hend, h⟩ := exists_of_bind_eq_ok h
  obtain ⟨-, rfl⟩ := Prod.mk.inj (Except.ok.inj h)
  exact hinside (hclose₁ (hclose₂ (closesTo_of_endItems hend)))

theorem RpcError.skipsTo_of_ofObject {e : RpcError} (hl : s.length ≤ bound)
    (h : RpcError.ofObject bound depth s = .ok (e, rest)) :
    SkipsTo bound (openBrace :: s) rest := by
  unfold RpcError.ofObject at h
  split at h
  · cases h
  next d r hm =>
  obtain ⟨x, -, heq⟩ := exists_of_map_eq_ok h
  cases heq
  have hin : Inside bound .object true s rest := by
    refine inside_of_members (fun hl hstep => ?_) hl hm
    unfold RpcError.Draft.step at hstep
    split at hstep
    · exact skipsTo_of_once skippable_int32Value hl hstep
    split at hstep
    · exact skipsTo_of_once skippable_stringValue hl hstep
    split at hstep
    · exact skipsTo_of_once skippable_optionalValue hl hstep
    · exact skipsTo_of_skipMember hstep
  exact hin

theorem skippable_record {α : Type} {array object : Nat → Bytes → Reading α}
    (ha : ∀ {depth s x rest}, s.length ≤ bound → array depth s = .ok (x, rest) →
      SkipsTo bound (openBracket :: s) rest)
    (ho : ∀ {depth s x rest}, s.length ≤ bound → object depth s = .ok (x, rest) →
      SkipsTo bound (openBrace :: s) rest) : Skippable bound (record bound depth array object) := by
  intro s x rest hl h
  unfold record at h
  split at h
  · cases h
  next b r hs =>
  have hls := length_lt_of_skipBlank hs
  split at h
  · next hb =>
    split at h
    · cases h
    · split at h
      · next hb' =>
        exact (ha (by omega) h).of_skipBlank (by rw [hs, hb'])
      · next hb' =>
        exact (ho (by omega) h).of_skipBlank (by rw [hs, hb.resolve_left hb'])
  · cases h

theorem RpcError.skippable_read : Skippable bound (RpcError.read bound depth) :=
  skippable_record RpcError.skipsTo_of_ofArray RpcError.skipsTo_of_ofObject

end Readers

/-! ## The members of a text -/

/-- Passes over a member after its name. The input from its value on is kept. -/
def passMember (bound : Nat) (before : List Member) (name : String) (s : Bytes) :
    Reading (List Member) :=
  match afterColon s with
  | .error e => .error e
  | .ok s => (skip bound s).map (before ++ [(name, s)], ·)

def objectInputs (bound : Nat) (s : Bytes) : Reading (List Member) :=
  match skipBlank s with
  | [] => .error .truncated
  | b :: r =>
    if b = openBrace then members bound (passMember bound) (bound + 1) true [] r
    else .error .mismatch

/-- The members of the object that a text is, each with the input from its value on. No value has
to be readable, nor does any name have to be there only once. -/
def memberInputs (text : Bytes) : Except Fault (List Member) :=
  entire (objectInputs text.length) text

/-- A text is an object with this member. -/
def HasMember (text : Bytes) (name : String) (v : Json) : Prop :=
  ∃ ms s rest, memberInputs text = .ok ms ∧ (name, s) ∈ ms ∧
    value text.length (maxDepth - 1) s = .ok (v, rest)

namespace Envelope

/-- How the id is decoded along the members of an envelope: from the one member of that name. -/
structure IdDecoded (bound depth : Nat) (d d' : Draft) (ms : List Member) : Prop where
  kept : (∀ s, ("id", s) ∉ ms) → d'.id = d.id
  decoded : ∀ s, ("id", s) ∈ ms →
    d.id = none ∧ ∃ x rest, optionalValue bound depth s = .ok (x, rest) ∧ d'.id = some x

theorem idDecoded_nil {bound depth : Nat} (d : Draft) : IdDecoded bound depth d d [] :=
  ⟨fun _ => rfl, fun _ h => nomatch h⟩

theorem IdDecoded.cons {bound depth : Nat} {d d₁ d₂ : Draft} {m : Member} {ms : List Member}
    (h : IdDecoded bound depth d d₁ [m]) (hs : IdDecoded bound depth d₁ d₂ ms) :
    IdDecoded bound depth d d₂ (m :: ms) := by
  refine ⟨fun hn => ?_, fun s hmem => ?_⟩
  · rw [hs.kept fun s hmem => hn s (List.mem_cons_of_mem m hmem)]
    exact h.kept fun s hmem => hn s (List.mem_singleton.mp hmem ▸ List.mem_cons_self)
  · rcases List.mem_cons.mp hmem with rfl | hmem
    · obtain ⟨hnone, x, rest, hread, hx⟩ := h.decoded s List.mem_cons_self
      refine ⟨hnone, x, rest, hread, ?_⟩
      rw [hs.kept fun s' hmem' => ?_, hx]
      rw [(hs.decoded s' hmem').1] at hx
      cases hx
    · obtain ⟨hnone, hread⟩ := hs.decoded s hmem
      refine ⟨?_, hread⟩
      by_cases hm : m.1 = "id"
      · exact (h.decoded m.2 (hm ▸ List.mem_cons_self)).1
      · rw [← h.kept fun s' hmem' => hm (List.mem_singleton.mp hmem' ▸ rfl), hnone]

theorem idDecoded_other {bound depth : Nat} {d d' : Draft} {name : String} {u : Bytes}
    (hn : name ≠ "id") (hk : d'.id = d.id) : IdDecoded bound depth d d' [(name, u)] := by
  refine ⟨fun _ => hk, fun s hmem => ?_⟩
  cases List.mem_singleton.mp hmem
  exact absurd rfl hn

theorem Place.skippable_read (bound depth : Nat) (p : Place) :
    Skippable bound (p.read bound depth) := by
  cases p with
  | version => exact skippable_stringValue
  | id => exact skippable_optionalValue
  | method => exact skippable_stringValue
  | params => exact skippable_optionalValue
  | result => exact skippable_optionalValue
  | error => exact skippable_optional RpcError.skippable_read

/-- One member, read or passed over. -/
theorem passMember_of_step {bound depth : Nat} {d d' : Draft} {name : String} {s rest : Bytes}
    (hl : s.length ≤ bound) (h : Draft.step bound depth d name s = .ok (d', rest)) :
    ∃ u, afterColon s = .ok u ∧ SkipsTo bound u rest ∧ IdDecoded bound depth d d' [(name, u)] := by
  rcases Draft.step_cases h with ⟨p, rfl, hd, u, x, hu, hx, rfl⟩ | ⟨hother, rfl, u, hu, hr⟩
  · have hlu := length_of_afterColon hu
    refine ⟨u, hu, p.skippable_read bound depth (by omega) hx, ?_⟩
    by_cases hp : p = .id
    · subst hp
      refine ⟨fun hno => absurd List.mem_cons_self (hno u), fun s hmem => ?_⟩
      cases List.mem_singleton.mp hmem
      exact ⟨hd, x, rest, hx, rfl⟩
    · -- Members at other places leave the id as it was.
      have hkept : (d.set p x).id = d.id := Draft.get_set_ne hp d x
      exact idDecoded_other (fun hn => hp (Place.name_injective hn)) hkept
  · exact ⟨u, hu, skipsTo_of_skip hr, idDecoded_other (hother .id) rfl⟩

theorem passMember_of_skipsTo {bound : Nat} {s u rest : Bytes} (hl : s.length ≤ bound)
    (hu : afterColon s = .ok u) (hv : SkipsTo bound u rest) (before : List Member) (name : String) :
    passMember bound before name s = .ok (before ++ [(name, u)], rest) := by
  have hlu := length_of_afterColon hu
  simp only [passMember, hu, skip_of_skipsTo hv (by omega), Except.map]

/-- A run that decodes an envelope passes over the same members as one that reads none. -/
theorem passMember_of_members {bound depth fuel : Nat} {first : Bool} {d d' : Draft}
    {s rest : Bytes} (hl : s.length ≤ bound)
    (h : members bound (Draft.step bound depth) fuel first d s = .ok (d', rest)) :
    ∃ ms, (∀ before, members bound (passMember bound) fuel first before s =
      .ok (before ++ ms, rest)) ∧ IdDecoded bound depth d d' ms := by
  induction fuel generalizing first d s with
  | zero => cases h
  | succ fuel ih =>
    rcases members_cases h with ⟨hn, rfl⟩ | ⟨name, r, d₁, t, hn, hstep, hrest⟩
    · exact ⟨[], fun before => by simp only [members, hn, List.append_nil], idDecoded_nil _⟩
    · have hlr := length_le_of_nextName hn hl
      obtain ⟨u, hu, hv, hdec⟩ := passMember_of_step (by omega) hstep
      have hlu := length_of_afterColon hu
      have hlt := hv.length_le
      obtain ⟨ms, hpass, hdecoded⟩ := ih (by omega) hrest
      refine ⟨(name, u) :: ms, fun before => ?_, hdec.cons hdecoded⟩
      simp only [members, hn, passMember_of_skipsTo (by omega : r.length ≤ bound) hu hv, hpass,
        List.append_assoc, List.singleton_append]

theorem beginsArray_of_skipBlank {s r : Bytes} (h : skipBlank s = openBracket :: r) :
    beginsArray s = true := by
  induction s with
  | nil => cases h
  | cons b s ih =>
    by_cases hb : isBlank b = true
    · have hs : skipBlank (b :: s) = skipBlank s := List.dropWhile_cons_of_pos hb
      have hbatch : isBatchBlank b = true := by simp [isBatchBlank, hb]
      rw [hs] at h
      rw [beginsArray, List.dropWhile_cons_of_pos hbatch]
      exact ih h
    · rw [skipBlank_of_not_blank s (by simpa using hb)] at h
      cases h
      rfl

/-- The members of a text that is read as one envelope, of which the id is decoded. -/
theorem memberInputs_of_parse {s : Bytes} {m : Envelope} (ha : beginsArray s = false)
    (h : Envelope.parse s = .ok m) :
    ∃ ms d, memberInputs s = .ok ms ∧ m = d.finish ∧
      IdDecoded s.length (maxDepth - 1) {} d ms := by
  unfold Envelope.parse entire at h
  split at h
  · cases h
  next m' rest hread =>
  split at h
  case isFalse => cases h
  next hrest =>
  cases h
  unfold Envelope.read record at hread
  split at hread
  · cases hread
  next b r hs =>
  have hls := length_lt_of_skipBlank hs
  split at hread
  case isFalse => cases hread
  next hb =>
  have hopen : b = openBrace := by
    refine hb.resolve_left ?_
    rintro rfl
    rw [beginsArray_of_skipBlank hs] at ha
    cases ha
  subst hopen
  obtain ⟨⟨d, t⟩, hm, heq⟩ := exists_of_map_eq_ok hread
  cases heq
  obtain ⟨ms, hpass, hdec⟩ := passMember_of_members (by omega) hm
  refine ⟨ms, d, ?_, rfl, hdec⟩
  simp only [memberInputs, entire, objectInputs, hs, if_true, hpass, List.nil_append, hrest]

/-- What does not begin like the word `null` is not read as it. -/
theorem ne_null_of_valueWith {bound : Nat} {array object : Bytes → Reading Json} {b : UInt8}
    {s r rest : Bytes} {v : Json}
    (ha : ∀ {r rest}, array r = .ok (v, rest) → v ≠ .null)
    (ho : ∀ {r rest}, object r = .ok (v, rest) → v ≠ .null) (hs : skipBlank s = b :: r)
    (hb : b ≠ 0x6E) (h : valueWith bound array object s = .ok (v, rest)) : v ≠ .null := by
  obtain ⟨c, t, hc, hform⟩ := valueWith_cases h
  obtain ⟨rfl, rfl⟩ := List.cons.inj (hs.symm.trans hc)
  have hnumber : ∀ {negative u}, number negative u = .ok (v, rest) → v ≠ .null := by
    intro negative u hu
    rcases kind_of_number hu with ⟨i, rfl, -⟩ | ⟨x, rfl⟩ <;> exact Json.noConfusion
  cases hform with
  | string => exact Json.noConfusion
  | object _ h => exact ho h
  | array _ h => exact ha h
  | negative _ h => exact hnumber h
  | digit _ h => exact hnumber h
  | word =>
    rw [wordValue, if_neg hb]
    exact Json.noConfusion

/-- A value that is wrapped after it was read has what every wrapped one has. -/
theorem holds_of_map {α : Type} {P : Json → Prop} {read : Except Fault α} {wrap : α → Json × Bytes}
    {v : Json} {rest : Bytes} (hw : ∀ x, P (wrap x).1) (h : read.map wrap = .ok (v, rest)) :
    P v := by
  obtain ⟨x, -, hx⟩ := exists_of_map_eq_ok h
  have hp := hw x
  rwa [hx] at hp

theorem ne_null_of_value {bound depth : Nat} {b : UInt8} {s r rest : Bytes} {v : Json}
    (hs : skipBlank s = b :: r) (hb : b ≠ 0x6E) (h : value bound depth s = .ok (v, rest)) :
    v ≠ .null := by
  cases depth with
  | zero => exact ne_null_of_valueWith (fun h => by cases h) (fun h => by cases h) hs hb h
  | succ depth =>
    exact ne_null_of_valueWith (holds_of_map (P := (· ≠ .null)) fun _ => Json.noConfusion)
      (holds_of_map (P := (· ≠ .null)) fun _ => Json.noConfusion) hs hb h

theorem null_of_value {bound depth : Nat} {s r rest : Bytes} {v : Json}
    (hs : skipBlank s = 0x6E :: r) (h : value bound depth s = .ok (v, rest)) : v = .null := by
  have hword : ((word (nullWord.drop 1) r).map fun t => (Json.null, t)) = .ok (v, rest) := by
    cases depth <;>
      · simp only [value, valueWith, hs] at h
        exact h
  obtain ⟨p, -, hp⟩ := exists_of_map_eq_ok hword
  cases hp
  rfl

/-- A member that may be absent has the value in its place, save that `null` counts as none. -/
theorem nonNull?_of_optionalValue {bound depth : Nat} {s t rest : Bytes} {x : Option Json}
    {v : Json} (hx : optionalValue bound depth s = .ok (x, t))
    (hv : value bound depth s = .ok (v, rest)) : x = v.nonNull? := by
  unfold optionalValue Json.optional at hx
  split at hx
  · cases hx
  next b r hs =>
  split at hx
  · next hb =>
    subst hb
    obtain ⟨p, -, hp⟩ := exists_of_map_eq_ok hx
    cases hp
    rw [null_of_value hs hv]
    rfl
  · next hb =>
    obtain ⟨⟨w, u⟩, hw, hp⟩ := exists_of_map_eq_ok hx
    cases hp
    rw [← hs, (local_value depth).blanks, hv] at hw
    cases hw
    have hne := ne_null_of_value hs hb hv
    cases v with
    | null => exact absurd rfl hne
    | _ => rfl

/-- The id that is decoded is the one in the text, save that `null` counts as none. -/
theorem id_of_hasMember {s : Bytes} {m : Envelope} {v : Json} (ha : beginsArray s = false)
    (h : Envelope.parse s = .ok m) (hv : HasMember s "id" v) :
    m.id = v.nonNull? ∧ Canonical (maxDepth - 1) v := by
  obtain ⟨ms, d, hms, rfl, hdec⟩ := memberInputs_of_parse ha h
  obtain ⟨ms', u, rest, hms', hmem, hvalue⟩ := hv
  obtain rfl : ms' = ms := Except.ok.inj (hms'.symm.trans hms)
  obtain ⟨-, x, t, hx, hid⟩ := hdec.decoded u hmem
  refine ⟨?_, canonical_of_value hvalue⟩
  rw [← nonNull?_of_optionalValue hx hvalue]
  simp [Draft.finish, hid]

end Envelope

end RpcGateway
