import RpcGateway.Proofs.Proto.FieldOrder
import RpcGateway.Proofs.Proto.WireReading
import RpcGateway.Proto.ToJson

/-!
Values by the types of the fields that hold them. Whatever bytes are read, known fields come to hold
values of their own types, and all fields come in order.
-/
namespace RpcGateway.Proto

/-! ## Values and types -/

/-- Whether values of a type are whole numbers. -/
def Scalar.isWhole : Scalar → Bool
  | .double => false | .float => false | .bool => false | .string => false | .bytes => false
  | _ => true

/-- A value of a type that needs no declaration. -/
inductive HasScalar : Scalar → Value → Prop
  | bool (b : Bool) : HasScalar .bool (.bool b)
  | single (x : Number.Single) : HasScalar .float (.single x)
  | double (x : Number.Double) : HasScalar .double (.double x)
  | text (t : String) : HasScalar .string (.text t)
  | bytes (b : Bytes) : HasScalar .bytes (.bytes b)
  | whole {s : Scalar} (h : s.isWhole = true) (i : Int) : HasScalar s (.int i)

/-- A value of a type that is no message. -/
inductive HasPlain : FieldType → Value → Prop
  | scalar {s : Scalar} {v : Value} (h : HasScalar s v) : HasPlain (.scalar s) v
  | enum (name : String) (i : Int) : HasPlain (.enum name) (.int i)

/-- A value of what a field holds. Fields that a message type does not have may hold anything. -/
inductive Fits (pool : Pool) : Content → Value → Prop
  | plain {slot : Slot} {v : Value} (h : HasPlain slot.type v) : Fits pool (.single slot) v
  | message {slot : Slot} {t : MessageType} {fs : Fields} (ht : pool.referred? slot.type = some t)
      (hsorted : fs.Sorted)
      (hfields : ∀ e ∈ fs, ∀ f, t.field? e.1 = some f → Fits pool f.content e.2) :
      Fits pool (.single slot) (.message fs)
  | list {type : FieldType} {packed presence : Bool} {items : List Value}
      (h : ∀ v ∈ items, Fits pool (single type) v) :
      Fits pool (.list type packed presence) (.list items)
  | map {key value : Slot} {presence : Bool} {entries : List (Value × Value)}
      (h : ∀ e ∈ entries, Fits pool (single value.type) e.2) :
      Fits pool (.map key value presence) (.map entries)

/-- Fields of a message type. -/
structure FitFields (pool : Pool) (t : MessageType) (fs : Fields) : Prop where
  sorted : fs.Sorted
  fields : ∀ e ∈ fs, ∀ f, t.field? e.1 = some f → Fits pool f.content e.2

section Values
variable {pool : Pool}

theorem FitFields.nil (pool : Pool) (t : MessageType) : FitFields pool t [] :=
  ⟨List.Pairwise.nil, fun e he => by cases he⟩

theorem FitFields.fits {t : MessageType} {fs : Fields} {slot : Slot} (h : FitFields pool t fs)
    (ht : pool.referred? slot.type = some t) : Fits pool (.single slot) (.message fs) :=
  .message ht h.sorted h.fields

/-- Whether the field itself has presence makes no difference to what it may hold. -/
theorem Fits.single_congr {slot slot' : Slot} {v : Value} (h : Fits pool (.single slot) v)
    (htype : slot.type = slot'.type) : Fits pool (.single slot') v := by
  cases h with
  | plain h => exact .plain (htype ▸ h)
  | message ht hsorted hfields => exact .message (htype ▸ ht) hsorted hfields

theorem HasPlain.not_message {type : FieldType} {fs : Fields} : ¬ HasPlain type (.message fs) := by
  intro h
  cases h with
  | scalar h => cases h

/-- A message that a field holds is one of the type that the field refers to. -/
theorem Fits.fitFields {slot : Slot} {t : MessageType} {fs : Fields}
    (h : Fits pool (.single slot) (.message fs)) (ht : pool.referred? slot.type = some t) :
    FitFields pool t fs := by
  cases h with
  | plain h => exact absurd h HasPlain.not_message
  | message ht' hsorted hfields =>
    cases ht.symm.trans ht'
    exact ⟨hsorted, hfields⟩

theorem hasScalar_default (s : Scalar) : HasScalar s s.default := by
  cases s with
  | bool => exact .bool false
  | float => exact .single .zero
  | double => exact .double .zero
  | string => exact .text ""
  | bytes => exact .bytes []
  | _ => exact .whole rfl 0

theorem fits_default (pool : Pool) (type : FieldType) :
    Fits pool (single type) (pool.defaultOf type) := by
  cases type with
  | scalar s => exact .plain (.scalar (hasScalar_default s))
  | enum name => exact .plain (.enum name _)
  | message name => exact (FitFields.nil pool (pool.messageType name)).fits rfl
  | group name => exact (FitFields.nil pool (pool.messageType name)).fits rfl

end Values

/-! ## What is read -/

theorem hasScalar_ofVarint {s : Scalar} (h : s.wireType = .varint) (n : Nat) :
    HasScalar s (ofVarint s n) := by
  cases s with
  | bool => exact .bool _
  | int32 => exact .whole rfl _
  | int64 => exact .whole rfl _
  | uint32 => exact .whole rfl _
  | uint64 => exact .whole rfl _
  | sint32 => exact .whole rfl _
  | sint64 => exact .whole rfl _
  | _ => cases h

theorem hasScalar_ofWord {s : Scalar} (h : s.wireType = .fixed32 ∨ s.wireType = .fixed64)
    (b : Bytes) : HasScalar s (ofWord s b) := by
  cases s with
  | float => exact .single _
  | double => exact .double _
  | fixed32 => exact .whole rfl _
  | fixed64 => exact .whole rfl _
  | sfixed32 => exact .whole rfl _
  | sfixed64 => exact .whole rfl _
  | _ => rcases h with h | h <;> cases h

theorem hasScalar_of_nextScalar {s : Scalar} {input rest : Bytes} {v : Value}
    (h : nextScalar s input = .ok (v, rest)) : HasScalar s v := by
  unfold nextScalar at h
  split at h
  · next hwire =>
    obtain ⟨_, -, h⟩ := exists_of_map_eq_ok h
    cases h
    exact hasScalar_ofVarint hwire _
  · next hwire =>
    obtain ⟨_, -, h⟩ := exists_of_map_eq_ok h
    cases h
    exact hasScalar_ofWord (.inl hwire) _
  · next hwire =>
    obtain ⟨_, -, h⟩ := exists_of_map_eq_ok h
    cases h
    exact hasScalar_ofWord (.inr hwire) _
  · next hvarint hfixed32 hfixed64 =>
    have hs : s = .string ∨ s = .bytes := by cases s <;> simp_all [Scalar.wireType]
    split at h
    · cases h
    rcases hs with rfl | rfl
    · split at h
      · cases h
        exact .text _
      · cases h
      · next hsome hnone =>
        cases htext : ofUtf8? _ with
        | some t => exact absurd htext (hsome t rfl)
        | none => exact absurd htext (hnone rfl)
    · cases h
      exact .bytes _

theorem hasPlain_of_nextNumber {type : FieldType} {input rest : Bytes} {v : Value}
    (htype : type.isMessage = false) (h : nextNumber type input = .ok (v, rest)) :
    HasPlain type v := by
  cases type with
  | scalar s => exact .scalar (hasScalar_of_nextScalar h)
  | enum name =>
    obtain ⟨_, -, h⟩ := exists_of_map_eq_ok h
    cases h
    exact .enum name _
  | message name => cases htype
  | group name => cases htype

theorem isMessage_of_isPackable {type : FieldType} (h : type.isPackable = true) :
    type.isMessage = false := by
  cases type with
  | scalar s => rfl
  | enum name => rfl
  | message name => cases h
  | group name => cases h

theorem fits_of_packedNumbers {pool : Pool} {type : FieldType} (htype : type.isPackable = true)
    {bound : Nat} {s : Bytes} {vs : List Value} (h : packedNumbers type bound s = .ok vs) :
    ∀ v ∈ vs, Fits pool (single type) v := by
  induction bound generalizing s vs with
  | zero =>
    cases s with
    | nil =>
      cases h
      exact List.forall_mem_nil _
    | cons b s => cases h
  | succ bound ih =>
    cases s with
    | nil =>
      cases h
      exact List.forall_mem_nil _
    | cons b s =>
      rw [packedNumbers] at h
      obtain ⟨⟨v, rest⟩, hv, h⟩ := exists_of_bind_eq_ok h
      obtain ⟨ws, hws, h⟩ := exists_of_bind_eq_ok h
      cases h
      exact List.forall_mem_cons.mpr
        ⟨.plain (hasPlain_of_nextNumber (isMessage_of_isPackable htype) hv), ih hws⟩

/-- Reading fields goes on from fields of a type to fields of it. -/
def TypedReader (pool : Pool) (read : FieldsReader) : Prop :=
  ∀ t before ending s after rest, FitFields pool t before →
    read t before ending s = .ok (after, rest) → FitFields pool t after

/-- The fields of the message that a field held before. -/
def fieldsOf : Value → Fields
  | .message fields => fields
  | _ => []

/-- The entries that a map has so far. -/
def entriesOf : Option Value → List (Value × Value)
  | some (.map entries) => entries
  | _ => []

theorem mem_putEntry {key value : Value} {es : List (Value × Value)} {e : Value × Value}
    (h : e ∈ putEntry key value es) : e = (key, value) ∨ e ∈ es := by
  induction es with
  | nil => exact .inl (List.mem_singleton.mp h)
  | cons p rest ih =>
    obtain ⟨k, v⟩ := p
    rw [putEntry] at h
    split at h
    · exact (List.mem_cons.mp h).imp_right (List.mem_cons_of_mem _)
    · rcases List.mem_cons.mp h with rfl | h
      · exact .inr List.mem_cons_self
      · exact (ih h).imp_right (List.mem_cons_of_mem _)

theorem fitFields_fieldsOf {pool : Pool} {t : MessageType} {before : Value}
    (h : ∀ fs, before = .message fs → FitFields pool t fs) :
    FitFields pool t (fieldsOf before) := by
  unfold fieldsOf
  split
  · next fs => exact h fs rfl
  · exact FitFields.nil pool t

section Contents
variable {pool : Pool} {nested : FieldsReader} (hnested : TypedReader pool nested)
include hnested

theorem fits_of_nextSingle {field : Nat} {type : FieldType} {wire : WireType} {before v : Value}
    {s rest : Bytes} (hbefore : ∀ fs, before = .message fs → ∀ t, pool.referred? type = some t →
      FitFields pool t fs)
    (h : nextSingle pool nested field type wire before s = .ok (v, rest)) :
    Fits pool (single type) v := by
  unfold nextSingle at h
  obtain ⟨-, -, h⟩ := exists_of_bind_eq_ok h
  cases type with
  | message name =>
    obtain ⟨⟨b, rest⟩, -, h⟩ := exists_of_bind_eq_ok h
    obtain ⟨fs, hfs, h⟩ := exists_of_bind_eq_ok h
    obtain ⟨⟨after, _⟩, hread, rfl⟩ := exists_of_map_eq_ok hfs
    cases h
    exact (hnested _ (fieldsOf before) _ _ _ _
      (fitFields_fieldsOf fun fs hb => hbefore fs hb _ rfl) hread).fits rfl
  | group name =>
    obtain ⟨⟨after, rest⟩, hread, h⟩ := exists_of_bind_eq_ok h
    cases h
    exact (hnested _ (fieldsOf before) _ _ _ _
      (fitFields_fieldsOf fun fs hb => hbefore fs hb _ rfl) hread).fits rfl
  | scalar s => exact .plain (hasPlain_of_nextNumber rfl h)
  | enum name => exact .plain (hasPlain_of_nextNumber rfl h)

theorem fits_of_entryFields {depth bound : Nat} {key value : Slot} {entry after : Value × Value}
    {s : Bytes} (hentry : Fits pool (single value.type) entry.2)
    (h : entryFields pool nested depth key value bound entry s = .ok after) :
    Fits pool (single value.type) after.2 := by
  induction bound generalizing entry s with
  | zero =>
    cases s with
    | nil =>
      cases h
      exact hentry
    | cons b s => cases h
  | succ bound ih =>
    cases s with
    | nil =>
      cases h
      exact hentry
    | cons b s =>
      rw [entryFields] at h
      obtain ⟨⟨n, wire, rest⟩, -, h⟩ := exists_of_bind_eq_ok h
      dsimp only at h
      split at h
      · obtain ⟨_, -, h⟩ := exists_of_bind_eq_ok h
        refine ih ?_ h
        exact hentry
      split at h
      · obtain ⟨⟨v, rest⟩, hv, h⟩ := exists_of_bind_eq_ok h
        refine ih ?_ h
        refine fits_of_nextSingle hnested (fun fs hfs t ht => ?_) hv
        rw [hfs] at hentry
        exact hentry.fitFields ht
      · obtain ⟨_, -, h⟩ := exists_of_bind_eq_ok h
        refine ih ?_ h
        exact hentry

end Contents

theorem FitFields.put {pool : Pool} {t : MessageType} {f : FieldDef} {v : Value} {fs : Fields}
    (h : FitFields pool t fs) (hf : t.field? f.number = some f) (hv : Fits pool f.content v) :
    FitFields pool t (Fields.put t f v fs) := by
  refine ⟨h.sorted.put t f v, fun e he g hg => ?_⟩
  rcases Fields.mem_put he with rfl | he
  · cases hf.symm.trans hg
    exact hv
  · exact h.fields e he g hg

theorem FitFields.keepRaw {pool : Pool} {t : MessageType} {n : Nat} {fs : Fields}
    (h : FitFields pool t fs) (hn : t.field? n = none) (b : Bytes) :
    FitFields pool t (keepRaw pool n b fs) := by
  unfold Proto.keepRaw
  split
  · refine ⟨h.sorted.set n _, fun e he g hg => ?_⟩
    rcases Fields.mem_set he with rfl | he
    · rw [hn] at hg
      cases hg
    · exact h.fields e he g hg
  · exact h

theorem fits_itemsBefore {pool : Pool} {type : FieldType} {packed presence : Bool}
    {before : Option Value} (h : ∀ w, before = some w → Fits pool (.list type packed presence) w) :
    ∀ v ∈ itemsBefore before, Fits pool (single type) v := by
  unfold itemsBefore
  split
  · next items =>
    cases h _ rfl with
    | list hall => exact hall
  · exact List.forall_mem_nil _

theorem fits_entriesOf {pool : Pool} {key value : Slot} {presence : Bool} {before : Option Value}
    (h : ∀ w, before = some w → Fits pool (.map key value presence) w) :
    ∀ e ∈ entriesOf before, Fits pool (single value.type) e.2 := by
  unfold entriesOf
  split
  · next entries =>
    cases h _ rfl with
    | map hall => exact hall
  · exact List.forall_mem_nil _

theorem eq_ok_of_locate {α : Type} {pool : Pool} {t : MessageType} {f : FieldDef}
    {r : Except WireFault α} {a : α} (h : locate pool t f r = .ok a) : r = .ok a := by
  unfold locate at h
  split at h
  · exact h
  · cases r with
    | error e => cases h
    | ok b => exact h

section Readers
variable {pool : Pool} {outer entries : Nesting} (houter : TypedReader pool outer.fields)
  (hentries : TypedReader pool entries.fields)
include houter hentries

theorem fits_of_nextContent {f : FieldDef} {wire : WireType} {before : Option Value} {v : Value}
    {s rest : Bytes} (hbefore : ∀ w, before = some w → Fits pool f.content w)
    (h : nextContent pool outer entries f wire before s = .ok (v, rest)) :
    Fits pool f.content v := by
  unfold nextContent at h
  cases hcontent : f.content with
  | single slot =>
    rw [hcontent] at h hbefore
    refine (fits_of_nextSingle houter (fun fs hfs t ht => ?_) h).single_congr rfl
    cases before with
    | none =>
      cases hfs
      exact FitFields.nil pool t
    | some w =>
      have hw : w = .message fs := hfs
      exact (hw ▸ hbefore w rfl).fitFields ht
  | list type packed presence =>
    rw [hcontent] at h hbefore
    have hitems := fits_itemsBefore hbefore
    simp only at h
    split at h
    · next hpacked =>
      have htype : type.isPackable = true := (Bool.and_eq_true_iff.mp hpacked).1
      obtain ⟨⟨b, rest⟩, -, h⟩ := exists_of_bind_eq_ok h
      obtain ⟨vs, hvs, h⟩ := exists_of_bind_eq_ok h
      cases h
      exact .list (List.forall_mem_append.mpr ⟨hitems, fits_of_packedNumbers htype hvs⟩)
    · obtain ⟨⟨v, rest⟩, hv, h⟩ := exists_of_bind_eq_ok h
      cases h
      have hfirst : Fits pool (single type) v :=
        fits_of_nextSingle houter (fun fs hfs t _ => by cases hfs; exact FitFields.nil pool t) hv
      exact .list (List.forall_mem_append.mpr ⟨hitems, List.forall_mem_singleton.mpr hfirst⟩)
  | map key value presence =>
    rw [hcontent] at h hbefore
    obtain ⟨-, -, h⟩ := exists_of_bind_eq_ok h
    obtain ⟨⟨b, rest⟩, -, h⟩ := exists_of_bind_eq_ok h
    dsimp only at h
    split at h
    · cases h
    · obtain ⟨⟨k, w⟩, hentry, h⟩ := exists_of_bind_eq_ok h
      cases h
      refine .map fun e he => ?_
      rcases mem_putEntry he with rfl | he
      · exact fits_of_entryFields hentries (fits_default pool value.type) hentry
      · exact fits_entriesOf hbefore e he

theorem typedReader_fieldsWith (bound : Nat) :
    TypedReader pool (fieldsWith pool outer entries bound) := by
  induction bound with
  | zero =>
    intro t before ending s after rest hbefore h
    cases s with
    | nil =>
      cases ending with
      | none =>
        cases h
        exact hbefore
      | some n => cases h
    | cons b s => cases ending <;> cases h
  | succ bound ih =>
    intro t before ending s after rest hbefore h
    cases s with
    | nil =>
      cases ending with
      | none =>
        cases h
        exact hbefore
      | some n => cases h
    | cons b s =>
      rw [fieldsWith] at h
      obtain ⟨⟨n, wire, s'⟩, -, h⟩ := exists_of_bind_eq_ok h
      dsimp only at h
      split at h
      · split at h
        · cases h
          exact hbefore
        · cases h
      split at h
      · next hn =>
        obtain ⟨_, -, h⟩ := exists_of_bind_eq_ok h
        exact ih _ _ _ _ _ _ (hbefore.keepRaw hn _) h
      · next f hf =>
        obtain ⟨⟨v, s'⟩, hv, hrest⟩ := exists_of_bind_eq_ok h
        obtain rfl := MessageType.number_of_field? hf
        have hbeforef : ∀ w, Fields.get? before f.number = some w → Fits pool f.content w :=
          fun w hw => hbefore.fields _ (Fields.mem_of_get? hw) f hf
        have hfits := fits_of_nextContent houter hentries hbeforef (eq_ok_of_locate hv)
        exact ih _ _ _ _ _ _ (hbefore.put hf hfits) hrest

end Readers

theorem typedReader_nestedFields (pool : Pool) (bound : Nat) :
    ∀ levels, TypedReader pool (nestedFields pool bound levels)
  | 0 => fun t before ending s after rest _ h => by cases h
  | 1 =>
    have hnone : TypedReader pool fun _ _ _ _ => .error .tooDeep :=
      fun t before ending s after rest _ h => by cases h
    typedReader_fieldsWith hnone hnone bound
  | levels + 2 => by
    have houter := typedReader_nestedFields pool bound (levels + 1)
    have hentries : TypedReader pool (Nesting.inEntries pool bound levels).fields := by
      unfold Nesting.inEntries
      split
      · exact houter
      · exact typedReader_nestedFields pool bound levels
    exact typedReader_fieldsWith houter hentries bound

/-- Whatever bytes a message is read from, its fields fit its type. -/
theorem fitFields_of_ofBytes {pool : Pool} {type : MessageType} {b : Bytes} {m : Message}
    (h : Message.ofBytes pool type b = .ok m) :
    m.type = type ∧ FitFields pool type m.fields := by
  obtain ⟨⟨fs, rest⟩, hread, rfl⟩ := exists_of_map_eq_ok h
  exact ⟨rfl, typedReader_nestedFields pool _ _ _ _ _ _ _ _ (FitFields.nil pool type) hread⟩

end RpcGateway.Proto
