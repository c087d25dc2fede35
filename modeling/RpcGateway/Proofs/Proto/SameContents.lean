import RpcGateway.Proofs.Json.Objects
import RpcGateway.Proofs.Proto.DistinctNames
import RpcGateway.Proofs.Proto.FormDepth
import RpcGateway.Proofs.Proto.JsonForms
import RpcGateway.Proofs.Proto.PlainForms

/-!
What JSON forms tell of messages. The forms of two messages of an ordinary type agree exactly if
each field shows the same in both: lists element by element, maps by their keys, and messages by
their fields. Only what is not a number, and the one value of the null enum, look alike whatever
their bits are; messages of standard types are told apart by their own forms.
-/
namespace RpcGateway.Proto
open Number

/-! ## What shows -/

/-- The value that a field shows, if it shows one. -/
def shownAt (pool : Pool) (fs : Fields) (f : FieldDef) : Option Value :=
  (Fields.get? fs f.number).filter fun v => pool.shows f.content v

/-- The last value among the entries of a map whose keys have a name as members. -/
def entryAt (entries : List (Value × Value)) (name : String) : Option Value :=
  (entries.map fun e => (memberOfKey e.1, e.2)).reverse.lookup name

/-- The JSON form of a message without defaults. -/
def formOf (pool : Pool) (payload : MessagePrinter) (t : MessageType) (fs : Fields) :
    Except FormFault Json :=
  jsonOfType pool false payload t fs fun _ => membersOfFields pool false payload t fs

/-- Two values of what a field holds that look alike to readers of their forms. -/
inductive Alike (pool : Pool) : Content → Value → Value → Prop
  | plain {slot : Slot} {v w : Value} (hv : HasPlain slot.type v) (h : SamePlain slot.type v w) :
      Alike pool (.single slot) v w
  | message {slot : Slot} {t : MessageType} {fs gs : Fields}
      (ht : pool.referred? slot.type = some t) (hordinary : Standard.find? t = none)
      (hset : ∀ f ∈ t.fields, (shownAt pool fs f).isSome = (shownAt pool gs f).isSome)
      (hsame : ∀ f ∈ t.fields, ∀ v w, shownAt pool fs f = some v → shownAt pool gs f = some w →
        Alike pool f.content v w) :
      Alike pool (.single slot) (.message fs) (.message gs)
  | standard {slot : Slot} {t : MessageType} {fs gs : Fields}
      (ht : pool.referred? slot.type = some t) (hstandard : Standard.find? t ≠ none)
      (hform : ∃ j, HasForm pool t fs j ∧ HasForm pool t gs j) :
      Alike pool (.single slot) (.message fs) (.message gs)
  | list {type : FieldType} {packed presence : Bool} {vs ws : List Value}
      (hlength : vs.length = ws.length)
      (hsame : ∀ (i : Nat) v w, vs[i]? = some v → ws[i]? = some w →
        Alike pool (single type) v w) :
      Alike pool (.list type packed presence) (.list vs) (.list ws)
  | map {key value : Slot} {presence : Bool} {es fs : List (Value × Value)}
      (hset : ∀ name, (entryAt es name).isSome = (entryAt fs name).isSome)
      (hsame : ∀ name v w, entryAt es name = some v → entryAt fs name = some w →
        Alike pool (single value.type) v w) :
      Alike pool (.map key value presence) (.map es) (.map fs)

/-- Two messages of a type of which each field shows the same. -/
structure AlikeFields (pool : Pool) (t : MessageType) (fs gs : Fields) : Prop where
  set : ∀ f ∈ t.fields, (shownAt pool fs f).isSome = (shownAt pool gs f).isSome
  same : ∀ f ∈ t.fields, ∀ v w, shownAt pool fs f = some v → shownAt pool gs f = some w →
    Alike pool f.content v w

theorem Pool.Distinct.referred {pool : Pool} (h : pool.Distinct) {type : FieldType}
    {t : MessageType} (ht : pool.referred? type = some t) : t.Distinct := by
  have hnamed (name : String) : (pool.messageType name).Distinct := by
    unfold Pool.messageType
    cases hget : pool.messages.get? name with
    | none => exact ⟨List.nodup_nil, List.nodup_nil⟩
    | some t => exact h.messages name t hget
  cases type with
  | message name =>
    cases ht
    exact hnamed name
  | group name =>
    cases ht
    exact hnamed name
  | scalar s => cases ht
  | enum name => cases ht

/-! ## Plain values -/

theorem jsonOfContent_of_plain {pool : Pool} {full : Bool} {p : MessagePrinter} {slot : Slot}
    {v : Value} (h : HasPlain slot.type v) :
    jsonOfContent pool full p (.single slot) v = .ok (jsonOfPlain pool slot.type v) := by
  obtain ⟨type, presence⟩ := slot
  cases h with
  | scalar h => cases h <;> rfl
  | enum name i => rfl

theorem HasPlain.referred?_eq_none {pool : Pool} {type : FieldType} {v : Value}
    (h : HasPlain type v) : pool.referred? type = none := by
  cases h <;> rfl

/-! ## Alike by kinds -/

section Kinds
variable {pool : Pool}

theorem alike_plain_iff {slot : Slot} {v w : Value} (hv : HasPlain slot.type v) :
    Alike pool (.single slot) v w ↔ SamePlain slot.type v w := by
  constructor
  · intro h
    cases h with
    | plain _ hsame => exact hsame
    | message => exact absurd hv HasPlain.not_message
    | standard => exact absurd hv HasPlain.not_message
  · exact .plain hv

theorem alike_message_iff {slot : Slot} {t : MessageType} {fs gs : Fields}
    (ht : pool.referred? slot.type = some t) (hordinary : Standard.find? t = none) :
    Alike pool (.single slot) (.message fs) (.message gs) ↔ AlikeFields pool t fs gs := by
  constructor
  · intro h
    cases h with
    | plain hplain => exact absurd hplain HasPlain.not_message
    | message ht' _ hset hsame =>
      cases ht.symm.trans ht'
      exact ⟨hset, hsame⟩
    | standard ht' hstandard =>
      cases ht.symm.trans ht'
      exact absurd hordinary hstandard
  · exact fun h => .message ht hordinary h.set h.same

theorem alike_standard_iff {slot : Slot} {t : MessageType} {fs gs : Fields}
    (ht : pool.referred? slot.type = some t) (hstandard : Standard.find? t ≠ none) :
    Alike pool (.single slot) (.message fs) (.message gs) ↔
      ∃ j, HasForm pool t fs j ∧ HasForm pool t gs j := by
  constructor
  · intro h
    cases h with
    | plain hplain => exact absurd hplain HasPlain.not_message
    | message ht' hordinary =>
      cases ht.symm.trans ht'
      exact absurd hordinary hstandard
    | standard ht' _ hform =>
      cases ht.symm.trans ht'
      exact hform
  · exact .standard ht hstandard

theorem alike_list_iff {type : FieldType} {packed presence : Bool} {vs ws : List Value} :
    Alike pool (.list type packed presence) (.list vs) (.list ws) ↔
      vs.length = ws.length ∧ ∀ (i : Nat) v w, vs[i]? = some v → ws[i]? = some w →
        Alike pool (single type) v w := by
  constructor
  · intro h
    cases h with
    | list hlength hsame => exact ⟨hlength, hsame⟩
  · exact fun ⟨hlength, hsame⟩ => .list hlength hsame

theorem alike_map_iff {key value : Slot} {presence : Bool} {es fs : List (Value × Value)} :
    Alike pool (.map key value presence) (.map es) (.map fs) ↔
      ∀ name, (entryAt es name).isSome = (entryAt fs name).isSome ∧
        ∀ v w, entryAt es name = some v → entryAt fs name = some w →
          Alike pool (single value.type) v w := by
  constructor
  · intro h
    cases h with
    | map hset hsame => exact fun name => ⟨hset name, hsame name⟩
  · exact fun h => .map (fun name => (h name).1) fun name => (h name).2

end Kinds

/-! ## Members -/

section Members
variable {pool : Pool} {p q : MessagePrinter}

theorem mem_fields_of_field? {t : MessageType} {n : Nat} {f : FieldDef} (h : t.field? n = some f) :
    f ∈ t.fields := List.mem_of_find?_eq_some h

theorem MessageType.Distinct.field? {t : MessageType} (h : t.Distinct) {f : FieldDef}
    (hf : f ∈ t.fields) : t.field? f.number = some f := by
  have hsome : (t.field? f.number).isSome :=
    List.find?_isSome.mpr ⟨f, hf, beq_self_eq_true f.number⟩
  obtain ⟨g, hg⟩ := Option.isSome_iff_exists.mp hsome
  have hsame : g = f := List.inj_on_of_nodup_map h.numbers (mem_fields_of_field? hg) hf
    (MessageType.number_of_field? hg)
  rw [hg, hsame]

theorem shownAt_eq_some_iff {fs : Fields} (hs : fs.Sorted) {f : FieldDef} {v : Value} :
    shownAt pool fs f = some v ↔ (f.number, v) ∈ fs ∧ pool.shows f.content v = true := by
  rw [shownAt, Option.filter_eq_some_iff]
  exact and_congr_left fun _ => ⟨Fields.mem_of_get?, hs.get?_of_mem⟩

/-- The known fields that show, with their values. -/
def shownFields (pool : Pool) (t : MessageType) (fs : Fields) : List (FieldDef × Value) :=
  fs.filterMap fun e => (t.field? e.1).bind fun f =>
    if pool.shows f.content e.2 then some (f, e.2) else none

theorem mem_shownFields_iff {t : MessageType} (ht : t.Distinct) {fs : Fields} (hs : fs.Sorted)
    {f : FieldDef} {v : Value} :
    (f, v) ∈ shownFields pool t fs ↔ f ∈ t.fields ∧ shownAt pool fs f = some v := by
  rw [shownAt_eq_some_iff hs, shownFields, List.mem_filterMap]
  constructor
  · rintro ⟨⟨n, w⟩, he, h⟩
    obtain ⟨g, hg, h⟩ := Option.bind_eq_some_iff.mp h
    obtain rfl := MessageType.number_of_field? hg
    split at h
    · next hshows =>
      cases h
      exact ⟨mem_fields_of_field? hg, he, hshows⟩
    · cases h
  · rintro ⟨hf, he, hshows⟩
    exact ⟨_, he, by simp [ht.field? hf, hshows]⟩

/-- The members of a message are the forms of its known fields that show. -/
theorem forall₂_members {t : MessageType} {fs : Fields} {members : List (String × Json)}
    (h : membersOfFields pool false p t fs = .ok members) :
    List.Forall₂ (fun x m => x.1.jsonName = m.1 ∧
      jsonOfContent pool false p x.1.content x.2 = .ok m.2) (shownFields pool t fs) members := by
  induction fs generalizing members with
  | nil =>
    cases h
    exact .nil
  | cons e rest ih =>
    obtain ⟨n, v⟩ := e
    rw [membersOfFields] at h
    rw [shownFields, List.filterMap_cons]
    cases hf : t.field? n with
    | none =>
      rw [hf] at h
      exact ih h
    | some f =>
      rw [hf] at h
      dsimp only [Option.bind_some] at h ⊢
      cases hshows : pool.shows f.content v with
      | false =>
        rw [hshows] at h
        exact ih h
      | true =>
        rw [hshows] at h
        obtain ⟨j, hj, h⟩ := exists_of_bind_eq_ok h
        obtain ⟨others, hothers, h⟩ := exists_of_bind_eq_ok h
        cases h
        exact .cons ⟨rfl, hj⟩ (ih hothers)

/-- A field is named by its name in JSON, and so its name has the form of what it shows. -/
theorem rel_lookup_members {t : MessageType} (ht : t.Distinct) {fs : Fields} (hs : fs.Sorted)
    {members : List (String × Json)} (h : membersOfFields pool false p t fs = .ok members)
    {f : FieldDef} (hf : f ∈ t.fields) :
    Option.Rel (fun v j => jsonOfContent pool false p f.content v = .ok j) (shownAt pool fs f)
      (members.reverse.lookup f.jsonName) := by
  have hall := forall₂_members h
  have hshown : ∀ m ∈ members, ∀ g ∈ t.fields, g.jsonName = m.1 → ∃ v,
      shownAt pool fs g = some v ∧ jsonOfContent pool false p g.content v = .ok m.2 := by
    intro m hm g hg hname
    obtain ⟨⟨f, v⟩, hx, hfname, hj⟩ := exists_left_of_forall₂ hall hm
    obtain ⟨hf, hv⟩ := (mem_shownFields_iff ht hs).mp hx
    obtain rfl := List.inj_on_of_nodup_map ht.jsonNames hf hg (hfname.trans hname.symm)
    exact ⟨v, hv, hj⟩
  have hone : ∀ m ∈ members.reverse, ∀ n ∈ members.reverse, m.1 = n.1 → m = n := by
    intro m hm n hn hname
    obtain ⟨⟨g, w⟩, hx, hgname, -⟩ := exists_left_of_forall₂ hall (List.mem_reverse.mp hm)
    have hg := ((mem_shownFields_iff ht hs).mp hx).1
    obtain ⟨v, hv, hj⟩ := hshown m (List.mem_reverse.mp hm) g hg hgname
    obtain ⟨v', hv', hj'⟩ := hshown n (List.mem_reverse.mp hn) g hg (hgname.trans hname)
    cases hv.symm.trans hv'
    exact Prod.ext hname (Except.ok.inj (hj.symm.trans hj'))
  cases hv : shownAt pool fs f with
  | none =>
    cases hj : members.reverse.lookup f.jsonName with
    | none => exact .none
    | some j =>
      have hm := List.mem_reverse.mp ((Json.lookup_eq_some_iff_mem hone _ _).mp hj)
      obtain ⟨v, hv', -⟩ := hshown _ hm f hf rfl
      rw [hv] at hv'
      cases hv'
  | some v =>
    obtain ⟨m, hm, hname, hj⟩ :=
      exists_right_of_forall₂ hall ((mem_shownFields_iff ht hs).mpr ⟨hf, hv⟩)
    have hmem : (f.jsonName, m.2) ∈ members.reverse := by
      rw [hname]
      exact List.mem_reverse.mpr hm
    rw [(Json.lookup_eq_some_iff_mem hone _ _).mpr hmem]
    exact .some hj

/-- Only fields give members their names. -/
theorem lookup_members_eq_none {t : MessageType} {fs : Fields} {members : List (String × Json)}
    (h : membersOfFields pool false p t fs = .ok members) {name : String}
    (hname : ∀ f ∈ t.fields, f.jsonName ≠ name) : members.reverse.lookup name = none := by
  rw [List.lookup_eq_none_iff]
  intro m hm
  obtain ⟨⟨f, v⟩, hx, hfname, -⟩ :=
    exists_left_of_forall₂ (forall₂_members h) (List.mem_reverse.mp hm)
  obtain ⟨e, -, he⟩ := List.mem_filterMap.mp hx
  obtain ⟨g, hg, he⟩ := Option.bind_eq_some_iff.mp he
  split at he
  · cases he
    have hne := hname f (mem_fields_of_field? hg)
    rw [hfname] at hne
    simpa using hne.symm
  · cases he

theorem forall₂_entries {type : FieldType} {entries : List (Value × Value)}
    {members : List (String × Json)}
    (h : jsonOfEntries pool false p type entries = .ok members) :
    List.Forall₂ (fun x m => x.1 = m.1 ∧ jsonOfContent pool false p (single type) x.2 = .ok m.2)
      (entries.map fun e => (memberOfKey e.1, e.2)) members := by
  induction entries generalizing members with
  | nil =>
    cases h
    exact .nil
  | cons e entries ih =>
    obtain ⟨k, v⟩ := e
    rw [jsonOfEntries] at h
    obtain ⟨j, hj, h⟩ := exists_of_bind_eq_ok h
    obtain ⟨others, hothers, h⟩ := exists_of_bind_eq_ok h
    cases h
    exact .cons ⟨rfl, hj⟩ (ih hothers)

/-- Lists that agree in their names have related values under each of them. -/
theorem rel_lookup {α : Type} {R : α → Json → Prop} {xs : List (String × α)}
    {ms : List (String × Json)} (h : List.Forall₂ (fun x m => x.1 = m.1 ∧ R x.2 m.2) xs ms)
    (name : String) : Option.Rel R (xs.lookup name) (ms.lookup name) := by
  induction h with
  | nil => exact .none
  | @cons x m xs ms hx _ ih =>
    obtain ⟨k, v⟩ := x
    obtain ⟨l, j⟩ := m
    obtain ⟨rfl, hj⟩ : k = l ∧ R v j := hx
    rw [Table.lookup_cons, Table.lookup_cons]
    split
    · exact .some hj
    · exact ih

/-- The entries of a map give members their forms, by the names of their keys. -/
theorem rel_lookup_entries {type : FieldType} {entries : List (Value × Value)}
    {members : List (String × Json)}
    (h : jsonOfEntries pool false p type entries = .ok members) (name : String) :
    Option.Rel (fun v j => jsonOfContent pool false p (single type) v = .ok j)
      (entryAt entries name) (members.reverse.lookup name) :=
  rel_lookup (List.forall₂_reverse_iff.mpr (forall₂_entries h)) name

theorem forall₂_items {type : FieldType} {items : List Value} {js : List Json}
    (h : jsonOfItems pool false p type items = .ok js) :
    List.Forall₂ (fun v j => jsonOfContent pool false p (single type) v = .ok j) items js := by
  induction items generalizing js with
  | nil =>
    cases h
    exact .nil
  | cons v items ih =>
    rw [jsonOfItems] at h
    obtain ⟨j, hj, h⟩ := exists_of_bind_eq_ok h
    obtain ⟨others, hothers, h⟩ := exists_of_bind_eq_ok h
    cases h
    exact .cons hj (ih hothers)

end Members

/-! ## Equal forms -/

/-- Values under one name have equal forms exactly if both are there and look alike, or neither is
there. -/
theorem eq_iff_of_rel {α β : Type} {S : α → Json → Prop} {S' : β → Json → Prop}
    {R : α → β → Prop} {a : Option α} {b : Option β} {x y : Option Json} (hx : Option.Rel S a x)
    (hy : Option.Rel S' b y) (hR : ∀ v w j j', a = some v → b = some w → S v j → S' w j' →
      (j = j' ↔ R v w)) :
    x = y ↔ a.isSome = b.isSome ∧ ∀ v w, a = some v → b = some w → R v w := by
  cases hx with
  | none =>
    cases hy with
    | none => simp
    | some hj => simp
  | @some v j hj =>
    cases hy with
    | none => simp
    | @some w j' hj' =>
      rw [Option.some_inj, hR v w j j' rfl rfl hj hj']
      simp

theorem eq_iff_of_forall₂ {α β : Type} {S : α → Json → Prop} {S' : β → Json → Prop}
    {R : α → β → Prop} {vs : List α} {ws : List β} {js js' : List Json}
    (hjs : List.Forall₂ S vs js) (hjs' : List.Forall₂ S' ws js')
    (hR : ∀ v ∈ vs, ∀ w ∈ ws, ∀ j j', S v j → S' w j' → (j = j' ↔ R v w)) :
    js = js' ↔ vs.length = ws.length ∧
      ∀ (i : Nat) v w, vs[i]? = some v → ws[i]? = some w → R v w := by
  induction hjs generalizing ws js' with
  | nil =>
    cases hjs' with
    | nil => simp
    | cons _ _ => simp
  | @cons v j vs js hj _ ih =>
    cases hjs' with
    | nil => simp
    | @cons w j' ws js' hj' hjs' =>
      have hfirst := hR v List.mem_cons_self w List.mem_cons_self j j' hj hj'
      have hrest := ih hjs' fun v hv w hw =>
        hR v (List.mem_cons_of_mem _ hv) w (List.mem_cons_of_mem _ hw)
      rw [List.cons.injEq, hfirst, hrest]
      constructor
      · rintro ⟨hvw, hlength, hall⟩
        refine ⟨congrArg Nat.succ hlength, fun i v' w' hv' hw' => ?_⟩
        cases i with
        | zero =>
          cases hv'
          cases hw'
          exact hvw
        | succ i => exact hall i v' w' hv' hw'
      · rintro ⟨hlength, hall⟩
        exact ⟨hall 0 v w rfl rfl, Nat.succ.inj hlength, fun i => hall (i + 1)⟩

section Forms
variable {pool : Pool} {p q : MessagePrinter}

theorem formOf_of_ordinary {t : MessageType} (hordinary : Standard.find? t = none) {fs : Fields}
    {j : Json} (h : formOf pool p t fs = .ok j) :
    ∃ members, membersOfFields pool false p t fs = .ok members ∧ j = .ofMembers members := by
  rw [formOf, jsonOfType, hordinary] at h
  obtain ⟨members, hmembers, rfl⟩ := exists_of_map_eq_ok h
  exact ⟨members, hmembers, congrArg Json.ofMembers (List.append_nil members)⟩

/-- The forms of ordinary messages are equal exactly if each field shows the same in both. -/
theorem formOf_eq_iff {t : MessageType} (ht : t.Distinct) (hordinary : Standard.find? t = none)
    {fs gs : Fields} (hfs : fs.Sorted) (hgs : gs.Sorted) {j j' : Json}
    (h : formOf pool p t fs = .ok j) (h' : formOf pool q t gs = .ok j')
    (hcontents : ∀ f ∈ t.fields, ∀ v w, shownAt pool fs f = some v → shownAt pool gs f = some w →
      ∀ j j', jsonOfContent pool false p f.content v = .ok j →
        jsonOfContent pool false q f.content w = .ok j' →
          (j = j' ↔ Alike pool f.content v w)) :
    j = j' ↔ AlikeFields pool t fs gs := by
  obtain ⟨members, hmembers, rfl⟩ := formOf_of_ordinary hordinary h
  obtain ⟨members', hmembers', rfl⟩ := formOf_of_ordinary hordinary h'
  have hfield (f : FieldDef) (hf : f ∈ t.fields) :=
    eq_iff_of_rel (R := fun v w => Alike pool f.content v w)
      (rel_lookup_members ht hfs hmembers hf) (rel_lookup_members ht hgs hmembers' hf)
      fun v w j j' hv hw => hcontents f hf v w hv hw j j'
  rw [Json.ofMembers_eq_iff]
  constructor
  · intro hall
    exact ⟨fun f hf => ((hfield f hf).mp (hall f.jsonName)).1,
      fun f hf => ((hfield f hf).mp (hall f.jsonName)).2⟩
  · rintro ⟨hset, hsame⟩ name
    by_cases hname : ∃ f ∈ t.fields, f.jsonName = name
    · obtain ⟨f, hf, rfl⟩ := hname
      exact (hfield f hf).mpr ⟨hset f hf, hsame f hf⟩
    · have hnone : ∀ f ∈ t.fields, f.jsonName ≠ name := fun f hf heq => hname ⟨f, hf, heq⟩
      rw [lookup_members_eq_none hmembers hnone, lookup_members_eq_none hmembers' hnone]

theorem mem_of_entryAt {entries : List (Value × Value)} {name : String} {v : Value}
    (h : entryAt entries name = some v) : ∃ e ∈ entries, e.2 = v := by
  obtain ⟨before, after, heq, -⟩ := List.lookup_eq_some_iff.mp h
  have hmem : (name, v) ∈ entries.map fun e => (memberOfKey e.1, e.2) :=
    List.mem_reverse.mp (heq ▸ List.mem_append_right before List.mem_cons_self)
  obtain ⟨e, he, hev⟩ := List.mem_map.mp hmem
  exact ⟨e, he, congrArg Prod.snd hev⟩

/-- A field of a plain type holds plain values. -/
theorem Fits.plain_of_plain {slot : Slot} {v w : Value} (hv : HasPlain slot.type v)
    (hw : Fits pool (.single slot) w) : HasPlain slot.type w := by
  cases hw with
  | plain hw => exact hw
  | message ht =>
    rw [hv.referred?_eq_none] at ht
    cases ht

/-- A field of a message type holds messages. -/
theorem Fits.exists_message {slot : Slot} {t : MessageType} (ht : pool.referred? slot.type = some t)
    {w : Value} (hw : Fits pool (.single slot) w) :
    ∃ gs, w = .message gs ∧ FitFields pool t gs := by
  cases hw with
  | plain hw =>
    rw [hw.referred?_eq_none] at ht
    cases ht
  | message ht' hsorted hfields =>
    cases ht.symm.trans ht'
    exact ⟨_, rfl, hsorted, hfields⟩

variable {m n : Nat}

theorem formOf_eq_iff_of_standard {slot : Slot} {t : MessageType}
    (ht : pool.referred? slot.type = some t) (hstandard : Standard.find? t ≠ none)
    {fs gs : Fields} {j j' : Json} (h : formOf pool (jsonWithin pool false m) t fs = .ok j)
    (h' : formOf pool (jsonWithin pool false n) t gs = .ok j') :
    j = j' ↔ Alike pool (.single slot) (.message fs) (.message gs) := by
  have hj : HasForm pool t fs j := ⟨m + 1, h⟩
  have hj' : HasForm pool t gs j' := ⟨n + 1, h'⟩
  rw [alike_standard_iff ht hstandard]
  constructor
  · rintro rfl
    exact ⟨j, hj, hj'⟩
  · rintro ⟨k, hk, hk'⟩
    rw [hj.unique hk, hj'.unique hk']

variable (hd : pool.Distinct)
include hd

/-- The forms of what a field holds are equal exactly if the values look alike. -/
theorem jsonOfContent_eq_iff {c : Content} {v w : Value} {j j' : Json} (hv : Fits pool c v)
    (hw : Fits pool c w)
    (h : jsonOfContent pool false (jsonWithin pool false m) c v = .ok j)
    (h' : jsonOfContent pool false (jsonWithin pool false n) c w = .ok j') :
    j = j' ↔ Alike pool c v w := by
  induction hv generalizing w j j' with
  | @plain slot v hplain =>
    have hwplain := hw.plain_of_plain hplain
    rw [jsonOfContent_of_plain hplain] at h
    rw [jsonOfContent_of_plain hwplain] at h'
    cases h
    cases h'
    rw [jsonOfPlain_eq_iff hd hplain hwplain, alike_plain_iff hplain]
  | @message slot t fs ht hsorted hfields ih =>
    obtain ⟨gs, rfl, hgs⟩ := hw.exists_message ht
    rw [jsonOfContent] at h h'
    simp only [ht] at h h'
    by_cases hordinary : Standard.find? t = none
    · have htypes := hd.referred ht
      rw [alike_message_iff ht hordinary, formOf_eq_iff htypes hordinary hsorted hgs.sorted h h']
      intro f hf v w hv hw j j' hj hj'
      have hknown := htypes.field? hf
      have hv := ((shownAt_eq_some_iff hsorted).mp hv).1
      have hw := ((shownAt_eq_some_iff hgs.sorted).mp hw).1
      exact ih _ hv f hknown (hgs.fields _ hw f hknown) hj hj'
    · exact formOf_eq_iff_of_standard ht hordinary h h'
  | @list type packed presence items hitems ih =>
    cases hw with
    | @list _ _ _ ws hws =>
      rw [jsonOfContent] at h h'
      obtain ⟨js, hjs, rfl⟩ := exists_of_map_eq_ok h
      obtain ⟨js', hjs', rfl⟩ := exists_of_map_eq_ok h'
      rw [Json.arr.injEq, alike_list_iff]
      exact eq_iff_of_forall₂ (forall₂_items hjs) (forall₂_items hjs')
        fun v hv w hw j j' hj hj' => ih v hv (hws w hw) hj hj'
  | @map key value presence entries hentries ih =>
    cases hw with
    | @map _ _ _ others hothers =>
      rw [jsonOfContent] at h h'
      obtain ⟨members, hmembers, rfl⟩ := exists_of_map_eq_ok h
      obtain ⟨members', hmembers', rfl⟩ := exists_of_map_eq_ok h'
      rw [Json.ofMembers_eq_iff, alike_map_iff]
      refine forall_congr' fun name => ?_
      refine eq_iff_of_rel (rel_lookup_entries hmembers name) (rel_lookup_entries hmembers' name) ?_
      intro v w j j' hv hw hj hj'
      obtain ⟨e, he, rfl⟩ := mem_of_entryAt hv
      obtain ⟨e', he', rfl⟩ := mem_of_entryAt hw
      exact ih e he (hothers e' he') hj hj'

/-- The forms of messages that were read are equal exactly if the messages look alike. -/
theorem FitFields.formOf_eq_iff {t : MessageType} (ht : t.Distinct)
    (hordinary : Standard.find? t = none) {fs gs : Fields} (hfs : FitFields pool t fs)
    (hgs : FitFields pool t gs) {j j' : Json}
    (h : formOf pool (jsonWithin pool false m) t fs = .ok j)
    (h' : formOf pool (jsonWithin pool false n) t gs = .ok j') :
    j = j' ↔ AlikeFields pool t fs gs := by
  refine Proto.formOf_eq_iff ht hordinary hfs.sorted hgs.sorted h h' ?_
  intro f hf v w hv hw j j' hj hj'
  have hknown := ht.field? hf
  have hv := ((shownAt_eq_some_iff hfs.sorted).mp hv).1
  have hw := ((shownAt_eq_some_iff hgs.sorted).mp hw).1
  exact jsonOfContent_eq_iff hd (hfs.fields _ hv f hknown) (hgs.fields _ hw f hknown) hj hj'

end Forms

end RpcGateway.Proto
