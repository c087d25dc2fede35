import RpcGateway.Proofs.Envelope.Members
import RpcGateway.Proofs.Json.ReadAlone
import RpcGateway.Proofs.Json.ReadTexts
import RpcGateway.Proofs.Mux.Acceptance

/-!
Members in any order. Each member of an envelope is read by itself and sets a place of its own, so
the members of a body may be put in another order and the envelope, or that there is none, stays.
-/
namespace RpcGateway
open Json Http

/-! ## Records are read alone -/

section Records
variable {bound : Nat}

/-- Reads the element at the next place and goes on with it, or with none. -/
def inPlace {α β : Type} (read : Bytes → Reading α) (first : Bool)
    (next : Option α → Bytes → Reading β) (s : Bytes) : Reading β :=
  (positional read first s).bind fun p => next p.1 p.2

/-- The element at the next place is read by itself, and so is all that follows it. -/
theorem settlesInArray_inPlace {α β : Type} {read : Bytes → Reading α}
    {next : Option α → Bytes → Reading β} (first : Bool) (hread : Local bound read)
    (hnext : ∀ x, SettlesInArray bound false (next x)) :
    SettlesInArray bound first (inPlace read first next) := by
  intro w es hw hes
  cases es with
  | nil =>
    refine settles_of_forall (outcome (next none) [closeBracket]) fun rest hl hr => ?_
    have hend := hnext none [] [] isBlanks_nil (List.forall_mem_nil _) rest
    simp only [List.map_nil, joined, List.nil_append, List.append_assoc, List.cons_append,
      List.length_append, List.length_cons] at hl hend ⊢
    simp only [inPlace, positional, nextItem_end first hw]
    exact hend (by omega) hr
  | cons e es =>
    obtain ⟨hv, hes⟩ := List.forall_mem_cons.mp hes
    let row := joined false (es.map ElementText.text) ++ [closeBracket]
    refine settles_of_forall ((outcome read e.value).bind fun x =>
      outcome (next (some x)) (e.after ++ row)) fun rest hl hr => ?_
    have hstop := stopsNumber_blanks e.isBlanks_after
      (stopsNumber_joined (es.map ElementText.text) rest (.inl rfl))
    have hrest := fun x => hnext (some x) e.after es e.isBlanks_after hes rest
    simp only [List.map_cons, List.append_assoc, List.cons_append, List.nil_append,
      joined_cons_append] at hl hrest ⊢
    have hlen : (e.value ++ (e.after ++ (joined false (es.map ElementText.text) ++
        closeBracket :: rest))).length ≤ bound := by
      simp only [ElementText.text, List.length_append, List.length_cons] at hl ⊢
      omega
    simp only [inPlace, positional, nextItem_text first hw e hv, hread.settles hv _ hlen hstop]
    cases outcome read e.value with
    | error f => rfl
    | ok x =>
      rw [List.length_append] at hlen
      exact hrest x (by omega) hr

theorem settlesInArray_endItems {α : Type} (x : α) :
    SettlesInArray bound false fun s => (endItems s).map (x, ·) := by
  intro w es hw _
  cases es with
  | nil =>
    refine settles_of_forall (.ok x) fun rest _ _ => ?_
    have hclose := skipBlank_blanks_cons hw (by decide : isBlank closeBracket = false) rest
    simp only [List.map_nil, joined, List.nil_append, List.append_assoc, List.cons_append,
      endItems, hclose]
    rfl
  | cons e es =>
    refine settles_of_forall (.error .malformed) fun rest _ _ => ?_
    have hcomma := fun s => skipBlank_blanks_cons hw (by decide : isBlank comma = false) s
    simp only [List.map_cons, List.append_assoc, List.cons_append, List.nil_append,
      joined_cons_append, lead, Bool.false_eq_true, if_false, endItems, hcomma]
    rfl

/-- A record is neither of the values that are not nested. -/
theorem settles_record_other {α : Type} {depth : Nat} {array object : Nat → Bytes → Reading α}
    {t : Bytes} (ht : IsValue t) (hbracket : ∀ r, t ≠ openBracket :: r)
    (hbrace : ∀ r, t ≠ openBrace :: r) : Settles bound (record bound depth array object) t := by
  obtain ⟨b, r, rfl, hb, -⟩ := ht.exists_cons
  have hkind : ¬ (b = openBracket ∨ b = openBrace) := by
    rintro (rfl | rfl)
    · exact hbracket r rfl
    · exact hbrace r rfl
  refine settles_of_unexpected ht fun rest => ?_
  have hblank : skipBlank (b :: (r ++ rest)) = b :: (r ++ rest) := skipBlank_of_not_blank _ hb
  simp only [record, List.cons_append, hblank, hkind, if_false]

theorem local_record {α : Type} {depth : Nat} {array object : Nat → Bytes → Reading α}
    (ha : ∀ depth, SettlesInArray bound true (array depth))
    (ho : ∀ depth, SettlesInObject bound (object depth)) :
    Local bound (record bound depth array object) := by
  refine ⟨fun s => by simp only [record, skipBlank_skipBlank, unexpected_skipBlank], ?_⟩
  intro t ht
  cases ht with
  | word hw =>
    refine settles_record_other (.word hw) (fun r h => ?_) fun r h => ?_ <;>
      rcases hw with ⟨-, rfl⟩ | ⟨-, rfl⟩ | ⟨-, rfl⟩ <;> cases h
  | number negative hn =>
    exact settles_record_other (.number negative hn)
      (fun r => signed_ne hn (by decide) (by decide))
      fun r => signed_ne hn (by decide) (by decide)
  | string ht =>
    exact settles_record_other (.string ht) (fun r h => by cases h) fun r h => by cases h
  | array hw he =>
    cases depth with
    | zero => exact settles_of_forall (.error .malformed) fun _ _ _ => rfl
    | succ depth =>
      have hread : ∀ s, record bound (depth + 1) array object (openBracket :: s) =
        array depth s := fun _ => rfl
      have hinside := ha depth _ _ hw he
      exact settles_of_forall _ fun rest hl hr =>
        (hread _).trans (hinside rest (Nat.le_of_succ_le hl) hr)
  | object hw hm =>
    cases depth with
    | zero => exact settles_of_forall (.error .malformed) fun _ _ _ => rfl
    | succ depth =>
      have hread : ∀ s, record bound (depth + 1) array object (openBrace :: s) =
        object depth s := fun _ => rfl
      have hinside := ho depth _ _ hw hm
      exact settles_of_forall _ fun rest hl hr =>
        (hread _).trans (hinside rest (Nat.le_of_succ_le hl) hr)

theorem settles_once {α σ : Type} {read : Bytes → Reading α} (hread : Local bound read)
    (seen : Option α) (store : α → σ) {m : MemberText} (hv : IsValue m.value) :
    Settles bound (once seen read store) m.tail := by
  cases seen with
  | some x => exact settles_error .mismatch m.tail
  | none => exact settles_behindColon (hread.map store) hv

theorem settles_skipMember {σ : Type} (state : σ) {m : MemberText} (hv : IsValue m.value) :
    Settles bound (skipMember bound state) m.tail :=
  settles_behindColon (local_skip state) hv

theorem local_optionalValue (depth : Nat) : Local bound (optionalValue bound depth) :=
  local_optional (local_value depth)

theorem RpcError.localStep (depth : Nat) : LocalStep bound (RpcError.Draft.step bound depth) := by
  intro d k m hv
  unfold RpcError.Draft.step
  split
  · exact settles_once local_int32Value _ _ hv
  split
  · exact settles_once local_stringValue _ _ hv
  split
  · exact settles_once (local_optionalValue depth) _ _ hv
  · exact settles_skipMember d hv

/-- Goes on behind an element that has to be there. -/
def required {α β : Type} (next : α → Bytes → Reading β) : Option α → Bytes → Reading β
  | some x, s => next x s
  | none, _ => .error .mismatch

theorem settlesInArray_required {α β : Type} {next : α → Bytes → Reading β}
    (hnext : ∀ x, SettlesInArray bound false (next x)) (x : Option α) :
    SettlesInArray bound false (required next x) := by
  cases x with
  | none => exact fun _ _ _ _ => settles_error _ _
  | some x => exact hnext x

namespace RpcError

theorem ofArray_eq (depth : Nat) : ofArray bound depth =
    inPlace (int32Value bound) true (required fun code =>
      inPlace (stringValue bound) false (required fun message =>
        inPlace (optionalValue bound depth) false fun data s =>
          (endItems s).map (⟨code, message, data.join⟩, ·))) := by
  funext s
  unfold ofArray inPlace
  cases positional (int32Value bound) true s with
  | error e => rfl
  | ok p =>
    obtain ⟨_ | code, s⟩ := p
    · rfl
    · dsimp only [bind, Except.bind, required]
      cases positional (stringValue bound) false s with
      | error e => rfl
      | ok p => obtain ⟨_ | message, s⟩ := p <;> rfl

theorem settlesInArray_ofArray (depth : Nat) :
    SettlesInArray bound true (ofArray bound depth) := by
  rw [ofArray_eq]
  refine settlesInArray_inPlace true local_int32Value (settlesInArray_required fun code => ?_)
  refine settlesInArray_inPlace false local_stringValue (settlesInArray_required fun message => ?_)
  exact settlesInArray_inPlace false (local_optionalValue depth) fun data =>
    settlesInArray_endItems _

theorem settlesInObject_ofObject (depth : Nat) : SettlesInObject bound (ofObject bound depth) := by
  have hread : ofObject bound depth = fun s =>
      (members bound (Draft.step bound depth) (bound + 1) true {} s).bind
        fun p => p.1.finish.map (·, p.2) := by
    funext s
    unfold ofObject
    cases members bound (Draft.step bound depth) (bound + 1) true {} s <;> rfl
  rw [hread]
  exact settlesInObject_members (localStep depth) {} Draft.finish

theorem local_read (depth : Nat) : Local bound (read bound depth) :=
  local_record settlesInArray_ofArray settlesInObject_ofObject

end RpcError

theorem outcome_once {α σ : Type} {read : Bytes → Reading α} {seen : Option α} {store : α → σ}
    {m : MemberText} {state : σ} (hread : Local bound read) (hv : IsValue m.value)
    (hl : m.value.length ≤ bound) :
    outcome (once seen read store) m.tail = .ok state ↔
      seen = none ∧ ∃ x, read m.value = .ok (x, []) ∧ store x = state := by
  rw [← List.append_nil m.value] at hl
  have halone := (hread.settles hv).alone hl
  cases seen with
  | some x => simp [once, outcome, Except.map]
  | none =>
    have hcolon : outcome (once none read store) m.tail =
        outcome (fun s => (read s).map fun p => (store p.1, p.2)) m.value :=
      outcome_behindColon (hread.map store) m
    rw [hcolon, halone, outcome, halone]
    cases outcome read m.value <;> simp [Except.map]

theorem outcome_skipMember {σ : Type} (state : σ) {m : MemberText} (hv : IsValue m.value)
    (hl : m.value.length ≤ bound) : outcome (skipMember bound state) m.tail = .ok state := by
  rw [← List.append_nil m.value] at hl
  have hskip := skip_of_skipsTo (hv.valueText bound [] hl stopsNumber_nil) hl
  rw [List.append_nil] at hskip
  have hcolon : outcome (skipMember bound state) m.tail =
      outcome (fun s => (skip bound s).map (state, ·)) m.value :=
    outcome_behindColon (local_skip state) m
  rw [hcolon, outcome, hskip]
  rfl

end Records

/-- A member has no more than one name. -/
theorem Json.MemberText.Named.unique {m : MemberText} {k k' : String} (h : m.Named k)
    (h' : m.Named k') : k = k' := by
  have hk := (outcome_string_eq_ok_iff m.rawText_name (Nat.le_refl _)).mpr h
  have hk' := (outcome_string_eq_ok_iff m.rawText_name (Nat.le_refl _)).mpr h'
  exact Except.ok.inj (hk.symm.trans hk')

namespace Envelope

theorem Place.local_read (bound depth : Nat) (p : Place) : Local bound (p.read bound depth) := by
  cases p with
  | version => exact local_stringValue
  | id => exact local_optionalValue depth
  | method => exact local_stringValue
  | params => exact local_optionalValue depth
  | result => exact local_optionalValue depth
  | error => exact local_optional (RpcError.local_read depth)

namespace Draft
variable {d d' d'' : Draft} {p q : Place} {bound depth : Nat} {m n : MemberText}
  {ms ms' : List MemberText}

theorem localStep (bound depth : Nat) : LocalStep bound (Draft.step bound depth) := by
  intro d k m hv
  by_cases hk : ∃ p : Place, k = p.name
  · obtain ⟨p, rfl⟩ := hk
    rw [step_name]
    exact settles_once (p.local_read bound depth) _ _ hv
  · rw [step_other fun p hp => hk ⟨p, hp⟩]
    exact settles_skipMember d hv

/-! ## Members one after the other -/

/-- All that a member can make of a draft: it fills its place, which was empty, or has none. -/
inductive Effect (bound depth : Nat) (m : MemberText) : Draft → Draft → Prop
  | place {d : Draft} (p : Place) {x : p.Content} (hname : m.Named p.name)
      (hx : p.read bound depth m.value = .ok (x, [])) (hd : d.get p = none) :
      Effect bound depth m d (d.set p x)
  | other {d : Draft} {k : String} (hname : m.Named k) (hk : ∀ p : Place, k ≠ p.name) :
      Effect bound depth m d d

/-- The members of a list take effect one after the other. -/
inductive Run (bound depth : Nat) : List MemberText → Draft → Draft → Prop
  | nil (d : Draft) : Run bound depth [] d d
  | cons {m : MemberText} {ms : List MemberText} {d d' d'' : Draft}
      (hm : Effect bound depth m d d') (hms : Run bound depth ms d' d'') :
      Run bound depth (m :: ms) d d''

theorem memberEffect_eq_ok_iff (hv : IsValue m.value) (hl : m.text.length ≤ bound) :
    memberEffect bound (Draft.step bound depth) d m = .ok d' ↔ Effect bound depth m d d' := by
  simp only [MemberText.text, ElementText.text, List.length_append, List.length_cons] at hl
  have hname : m.name.length ≤ bound := by omega
  have hvalue : m.value.length ≤ bound := by omega
  have hread : ∀ {k}, outcome (string bound) (m.name ++ [quote]) = .ok k ↔ m.Named k :=
    outcome_string_eq_ok_iff m.rawText_name hname
  constructor
  · intro h
    obtain ⟨k, hk, hstep⟩ := exists_of_bind_eq_ok h
    by_cases hp : ∃ p : Place, k = p.name
    · obtain ⟨p, rfl⟩ := hp
      rw [step_name, outcome_once (p.local_read bound depth) hv hvalue] at hstep
      obtain ⟨hd, x, hx, rfl⟩ := hstep
      exact .place p (hread.mp hk) hx hd
    · have hother : ∀ p : Place, k ≠ p.name := fun p h => hp ⟨p, h⟩
      rw [step_other hother, outcome_skipMember d hv hvalue] at hstep
      cases hstep
      exact .other (hread.mp hk) hother
  · intro h
    cases h with
    | place p hk hx hd =>
      rw [memberEffect, hread.mpr hk, Except.bind, step_name,
        outcome_once (p.local_read bound depth) hv hvalue]
      exact ⟨hd, _, hx, rfl⟩
    | other hk hother =>
      rw [memberEffect, hread.mpr hk, Except.bind, step_other hother]
      exact outcome_skipMember d hv hvalue

theorem foldlM_eq_ok_iff (hms : AllMemberValues ms) (hl : ∀ m ∈ ms, m.text.length ≤ bound) :
    ms.foldlM (memberEffect bound (Draft.step bound depth)) d = .ok d' ↔
      Run bound depth ms d d' := by
  induction ms generalizing d with
  | nil =>
    constructor
    · intro h
      cases h
      exact .nil _
    · rintro ⟨⟩
      rfl
  | cons m ms ih =>
    obtain ⟨hv, hms⟩ := List.forall_mem_cons.mp hms
    obtain ⟨hm, hl⟩ := List.forall_mem_cons.mp hl
    rw [List.foldlM_cons]
    constructor
    · intro h
      obtain ⟨d₁, hstep, hrest⟩ := exists_of_bind_eq_ok h
      exact .cons ((memberEffect_eq_ok_iff hv hm).mp hstep) ((ih hms hl).mp hrest)
    · rintro (_ | ⟨hstep, hrest⟩)
      rw [(memberEffect_eq_ok_iff hv hm).mpr hstep]
      exact (ih hms hl).mpr hrest

/-- Two members side by side may change places. -/
theorem Effect.swap (hm : Effect bound depth m d d') (hn : Effect bound depth n d' d'') :
    ∃ d₁, Effect bound depth n d d₁ ∧ Effect bound depth m d₁ d'' := by
  cases hm with
  | other hname hk => exact ⟨d'', hn, .other hname hk⟩
  | place p hname hx hd =>
    cases hn with
    | other hname' hk => exact ⟨d, .other hname' hk, .place p hname hx hd⟩
    | @place q y hname' hy hq =>
      -- The second place was empty behind the first member, so the two places differ.
      have hpq : p ≠ q := by
        rintro rfl
        rw [get_set_self] at hq
        cases hq
      rw [get_set_ne hpq] at hq
      refine ⟨d.set q y, .place q hname' hy hq, ?_⟩
      rw [set_comm hpq]
      exact .place p hname hx (by rw [get_set_ne hpq.symm, hd])

theorem Run.perm (hp : ms.Perm ms') (h : Run bound depth ms d d') : Run bound depth ms' d d' := by
  induction hp generalizing d with
  | nil => exact h
  | cons m _ ih =>
    obtain _ | ⟨hm, hms⟩ := h
    exact .cons hm (ih hms)
  | swap m n ms =>
    obtain _ | ⟨hn, _ | ⟨hm, hms⟩⟩ := h
    obtain ⟨d₁, hm, hn⟩ := hn.swap hm
    exact .cons hm (.cons hn hms)
  | trans _ _ ih ih' => exact ih' (ih h)

/-! ## What an envelope is made of -/

theorem Effect.of_named (h : Effect bound depth m d d') (hname : m.Named p.name) :
    d.get p = none ∧ ∃ x, p.read bound depth m.value = .ok (x, []) ∧ d'.get p = some x := by
  cases h with
  | place q hname' hx hd =>
    obtain rfl : q = p := Place.name_injective (hname'.unique hname)
    exact ⟨hd, _, hx, get_set_self d q _⟩
  | other hname' hk => exact absurd (hname'.unique hname) (hk p)

theorem Effect.of_not_named (h : Effect bound depth m d d') (hname : ¬ m.Named p.name) :
    d'.get p = d.get p := by
  cases h with
  | place q hname' =>
    have hne : q ≠ p := by
      rintro rfl
      exact hname hname'
    exact get_set_ne hne d _
  | other => rfl

/-- A place that is filled is not filled again. -/
theorem Run.of_get_eq_some {x : p.Content} (h : Run bound depth ms d d') (hx : d.get p = some x) :
    (∀ m ∈ ms, ¬ m.Named p.name) ∧ d'.get p = some x := by
  induction h with
  | nil => exact ⟨List.forall_mem_nil _, hx⟩
  | @cons m ms _ _ _ hm _ ih =>
    have hname : ¬ m.Named p.name := by
      intro hname
      rw [(hm.of_named hname).1] at hx
      cases hx
    obtain ⟨hnone, hlast⟩ := ih ((hm.of_not_named hname).trans hx)
    exact ⟨List.forall_mem_cons.mpr ⟨hname, hnone⟩, hlast⟩

end Draft

/-- At most one of the members is at the place, and there is what it is read as. -/
structure HeldAt (bound depth : Nat) (ms : List MemberText) (p : Place) (x : p.Content) : Prop where
  unique : ms.Pairwise fun m n => m.Named p.name → ¬ n.Named p.name
  present : ∀ m ∈ ms, m.Named p.name → p.read bound depth m.value = .ok (x, [])
  absent : (∀ m ∈ ms, ¬ m.Named p.name) → x = p.missing

namespace Draft
variable {d d' : Draft} {p : Place} {bound depth : Nat} {ms : List MemberText}

theorem Run.heldAt (h : Run bound depth ms d d') (hd : d.get p = none) :
    HeldAt bound depth ms p ((d'.get p).getD p.missing) := by
  induction h with
  | nil => exact ⟨.nil, List.forall_mem_nil _, fun _ => by rw [hd, Option.getD_none]⟩
  | @cons m ms d d₁ d₂ hm hms ih =>
    by_cases hname : m.Named p.name
    · obtain ⟨-, x, hx, hd₁⟩ := hm.of_named hname
      obtain ⟨hnone, hlast⟩ := hms.of_get_eq_some hd₁
      rw [hlast, Option.getD_some]
      refine ⟨.cons (fun n hn _ => hnone n hn) ?_, ?_,
        fun h => absurd hname (h m List.mem_cons_self)⟩
      · exact List.pairwise_of_forall_mem_list fun n hn _ _ h => absurd h (hnone n hn)
      · exact List.forall_mem_cons.mpr ⟨fun _ => hx, fun n hn h => absurd h (hnone n hn)⟩
    · have hrest := ih ((hm.of_not_named hname).trans hd)
      refine ⟨.cons (fun _ _ h => absurd h hname) hrest.unique, ?_, fun h => ?_⟩
      · exact List.forall_mem_cons.mpr ⟨fun h => absurd h hname, hrest.present⟩
      · exact hrest.absent fun n hn => h n (List.mem_cons_of_mem m hn)

end Draft

/-! ## Bodies -/

section Bodies
variable {bound depth : Nat} {w₁ w w₂ : Bytes} {ms ms' : List MemberText}

theorem read_object (hw₁ : IsBlanks w₁) (hw : IsBlanks w) (hms : AllMemberValues ms)
    (hl : (w₁ ++ (objectText w ms ++ w₂)).length ≤ bound) :
    Envelope.read bound (depth + 1) (w₁ ++ (objectText w ms ++ w₂)) =
      (ms.foldlM (memberEffect bound (Draft.step bound depth)) {}).map
        fun d => (d.finish, w₂) := by
  have hopen := fun s => skipBlank_blanks_cons hw₁ (by decide : isBlank openBrace = false) s
  have hcount := length_le_joined true (ms.map MemberText.text) closeBrace w₂
  have hbracket : openBrace ≠ openBracket := by decide
  rw [List.length_map] at hcount
  simp only [objectText, List.cons_append, List.append_assoc, List.nil_append] at hl ⊢
  simp only [List.length_append, List.length_cons] at hl hcount
  have hinside : (w ++ (joined true (ms.map MemberText.text) ++ closeBrace :: w₂)).length ≤
      bound := by
    simp only [List.length_append, List.length_cons]
    omega
  simp only [Envelope.read, record, hopen, or_true, if_true, hbracket, if_false, ofObject,
    members_texts (Draft.localStep bound depth) hms (by omega : ms.length < bound + 1) true {} hw
      hinside]
  cases ms.foldlM (memberEffect bound (Draft.step bound depth)) {} <;> rfl

theorem beginsArray_object (hw₁ : IsBlanks w₁) (s : Bytes) :
    beginsArray (w₁ ++ openBrace :: s) = false := by
  have hblank : ∀ b ∈ w₁, isBatchBlank b = true := by
    intro b hb
    rw [isBatchBlank, hw₁ b hb, Bool.true_or]
  rw [beginsArray, List.dropWhile_append_of_pos hblank]
  rfl

/-- A body that is one object, with blanks around it. -/
def objectBody (w₁ w w₂ : Bytes) (ms : List MemberText) : Bytes := w₁ ++ (objectText w ms ++ w₂)

theorem ofBody_objectBody_iff (hw₁ : IsBlanks w₁) (hw : IsBlanks w) (hw₂ : IsBlanks w₂)
    (hms : AllMemberValues ms) {e : Envelope} :
    ofBody (objectBody w₁ w w₂ ms) = .ok e ↔
      ∃ d, Draft.Run (objectBody w₁ w w₂ ms).length (maxDepth - 1) ms {} d ∧ e = d.finish := by
  have hl : ∀ m ∈ ms, m.text.length ≤ (objectBody w₁ w w₂ ms).length := by
    intro m hm
    have hle := length_le_length_joined (List.mem_map_of_mem (f := MemberText.text) hm) true
    rw [objectBody, objectText]
    simp only [List.length_append, List.length_cons]
    omega
  have hbegins : beginsArray (objectBody w₁ w w₂ ms) = false := beginsArray_object hw₁ _
  have hread : ∀ bound, (objectBody w₁ w w₂ ms).length ≤ bound →
      Envelope.read bound maxDepth (objectBody w₁ w w₂ ms) =
        (ms.foldlM (memberEffect bound (Draft.step bound (maxDepth - 1))) {}).map
          fun d => (d.finish, w₂) :=
    fun bound h => read_object hw₁ hw hms h
  have hblank : skipBlank w₂ = [] := by
    rw [← List.append_nil w₂, skipBlank_append hw₂]
    rfl
  rw [ofBody_eq_ok_iff, Incoming.parse_eq_single_iff, Envelope.parse, entire,
    hread _ (Nat.le_refl _)]
  simp only [← Draft.foldlM_eq_ok_iff hms hl, hbegins, true_and]
  cases ms.foldlM (memberEffect (objectBody w₁ w w₂ ms).length
    (Draft.step (objectBody w₁ w w₂ ms).length (maxDepth - 1))) {} with
  | error f => simp [Except.map]
  | ok d => simp [Except.map, hblank, eq_comm]

theorem length_objectBody_of_perm (hp : ms.Perm ms') (w₁ w w₂ : Bytes) :
    (objectBody w₁ w w₂ ms).length = (objectBody w₁ w w₂ ms').length := by
  simp only [objectBody, objectText, List.length_append, List.length_cons,
    length_joined_of_perm (hp.map MemberText.text) true]

/-- Another body of the same length that holds the same envelope is decoded as well. -/
theorem decodes_ofBytes {cap : Nat} {q : Request} {s t : Bytes} {e : Envelope}
    (h : Mux.Decodes cap { q with body := .ofBytes s } e) (hl : t.length = s.length)
    (ht : ofBody t = .ok e) : Mux.Decodes cap { q with body := .ofBytes t } e := by
  have hbytes : ∀ u : Bytes, (Body.ofBytes u).bytes = u := List.append_nil
  have hlength := h.length
  rw [hbytes, ← hl, ← hbytes t] at hlength
  refine ⟨h.verb, h.declared, h.media, hlength, rfl, ?_⟩
  rw [hbytes]
  exact ofBody_eq_ok_iff.mp ht

/-- The members of an object may stand in any order: the same envelope is read, or none, and a
request with it is answered the same. Of the members with a meaning none stands twice in a body that
is read, and the envelope has at each place what the member there is read as. -/
theorem members_in_any_order (hw₁ : IsBlanks w₁) (hw : IsBlanks w) (hw₂ : IsBlanks w₂)
    (hms : AllMemberValues ms) (hp : ms.Perm ms') :
    (∀ e, ofBody (objectBody w₁ w w₂ ms) = .ok e ↔ ofBody (objectBody w₁ w w₂ ms') = .ok e) ∧
    (∀ e, ofBody (objectBody w₁ w w₂ ms) = .ok e → ∀ p : Place,
      HeldAt (objectBody w₁ w w₂ ms).length (maxDepth - 1) ms p (e.content p)) ∧
    ∀ (mux : Mux) (q : Request) (e : Envelope),
      mux.accept { q with body := .ofBytes (objectBody w₁ w w₂ ms) } = .ok e →
        mux.serve { q with body := .ofBytes (objectBody w₁ w w₂ ms') } =
          mux.serve { q with body := .ofBytes (objectBody w₁ w w₂ ms) } := by
  have hms' : AllMemberValues ms' := fun m hm => hms m (hp.mem_iff.mpr hm)
  have hsame : ∀ e, ofBody (objectBody w₁ w w₂ ms) = .ok e ↔
      ofBody (objectBody w₁ w w₂ ms') = .ok e := by
    intro e
    rw [ofBody_objectBody_iff hw₁ hw hw₂ hms, ofBody_objectBody_iff hw₁ hw hw₂ hms',
      length_objectBody_of_perm hp]
    exact exists_congr fun d => and_congr_left fun _ => ⟨.perm hp, .perm hp.symm⟩
  refine ⟨hsame, fun e h p => ?_, fun mux q e h => ?_⟩
  · obtain ⟨d, hd, rfl⟩ := (ofBody_objectBody_iff hw₁ hw hw₂ hms).mp h
    rw [Draft.content_finish]
    exact hd.heldAt (Draft.get_empty p)
  · have hdecodes := Mux.accept_eq_ok_iff.mp h
    have hbody : ofBody (objectBody w₁ w w₂ ms) = .ok e := by
      have hparsed := hdecodes.parsed
      rw [Body.bytes, Body.ofBytes, List.flatten_singleton] at hparsed
      exact ofBody_eq_ok_iff.mpr hparsed
    have hdecodes' := decodes_ofBytes hdecodes (length_objectBody_of_perm hp w₁ w w₂).symm
      ((hsame e).mp hbody)
    rw [Mux.serve_of_decodes hdecodes, Mux.serve_of_decodes hdecodes']

/-- The id, under an escaped name and with blanks around it. -/
def escapedId : MemberText where
  front := [0x09]
  name := 0x69 :: backslash :: 0x75 :: ([0x30, 0x30, 0x36, 0x34] ++ [])
  gap := []
  before := [0x20]
  value := (Json.int 7).print
  after := [0x0A]
  isBlanks_front := List.forall_mem_singleton.mpr rfl
  isBlanks_gap := isBlanks_nil
  isBlanks_before := List.forall_mem_singleton.mpr rfl
  isBlanks_after := List.forall_mem_singleton.mpr rfl
  rawText_name := by
    have hunit : IsUnit [0x30, 0x30, 0x36, 0x34] 0x64 := rfl
    exact .plain (by decide) (by decide) (by decide) (.unit hunit .nil)

/-- A call with an unknown name that stands twice, once with an object that has an id too. -/
def jumbledMembers : List MemberText :=
  [.printed ("x", (Json.int 1).print), escapedId, .printed ("method", (Json.str "A.B").print),
    .printed ("x", (Json.obj [("id", .int 8)]).print),
    .printed ("params", (Json.arr [.int 2]).print)]

/-- The call is the same from its last member to its first. -/
theorem members_in_any_order_reversed :
    ofBody (objectBody [] [] [0x0D] jumbledMembers.reverse) =
      .ok { id := some (.int 7), method := "A.B", params := some (.arr [.int 2]) } ∧
    HeldAt 64 (maxDepth - 1) jumbledMembers .id (some (.int 7)) ∧
    (default : Mux).serve { Mux.splitCall with
      body := .ofBytes (objectBody [] [] [0x0D] jumbledMembers.reverse) } =
    (default : Mux).serve { Mux.splitCall with
      body := .ofBytes (objectBody [] [] [0x0D] jumbledMembers) } := by
  have htext : objectBody [] [] [0x0D] jumbledMembers =
      utf8 ("\x7b\"x\":1,\t\"i\\u0064\": 7\n,\"method\":\"A.B\",\"x\":\x7b\"id\":8\x7d," ++
        "\"params\":[2]\x7d\r") := by
    decide +kernel
  have hread : ofBody (objectBody [] [] [0x0D] jumbledMembers) =
      .ok { id := some (.int 7), method := "A.B", params := some (.arr [.int 2]) } := by
    rw [htext]
    rfl
  have hvalues : AllMemberValues jumbledMembers := by
    simp only [AllMemberValues, jumbledMembers, List.forall_mem_cons]
    exact ⟨isValue_print _, isValue_print _, isValue_print _, isValue_print _, isValue_print _,
      List.forall_mem_nil _⟩
  have haccept : (default : Mux).accept { Mux.splitCall with
      body := .ofBytes (objectBody [] [] [0x0D] jumbledMembers) } =
        .ok { id := some (.int 7), method := "A.B", params := some (.arr [.int 2]) } := by
    rw [htext]
    rfl
  have hlength : (objectBody [] [] [0x0D] jumbledMembers).length = 64 := by
    rw [htext]
    decide +kernel
  have hblank : IsBlanks [0x0D] := List.forall_mem_singleton.mpr rfl
  obtain ⟨hsame, hheld, hserve⟩ := members_in_any_order isBlanks_nil isBlanks_nil hblank hvalues
    (List.reverse_perm jumbledMembers).symm
  have hid := hheld _ hread .id
  rw [hlength] at hid
  exact ⟨(hsame _).mp hread, hid, hserve default Mux.splitCall _ haccept⟩

end Bodies

end Envelope

end RpcGateway
