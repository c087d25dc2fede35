import RpcGateway.Proofs.Proto.FieldOrder
import RpcGateway.Proofs.Proto.WireReading

/-!
Messages that are written as one type and read as another. Fields are written in ascending order, so
that each is read behind smaller ones and stays where it is: known fields come out as they went in,
or without what does not show, and unknown ones as their bytes. What was read is written with the
same bytes again.
-/
namespace RpcGateway.Proto
open Number

/-! ## Behind smaller fields -/

namespace Fields
variable {before : Fields} {n : Nat}

/-- All fields have smaller numbers. -/
def Below (before : Fields) (n : Nat) : Prop := ∀ p ∈ before, p.1 < n

theorem get?_append (fs gs : Fields) (n : Nat) :
    Fields.get? (fs ++ gs) n = (Fields.get? fs n).or (Fields.get? gs n) :=
  List.lookup_append

theorem Below.get? (h : before.Below n) : Fields.get? before n = none := by
  rw [Fields.get?, List.lookup_eq_none_iff]
  intro p hp
  have hlt := h p hp
  simp only [bne_iff_ne]
  omega

theorem Below.set (h : before.Below n) (v : Value) : before.set n v = before ++ [(n, v)] := by
  induction before with
  | nil => rfl
  | cons p rest ih =>
    obtain ⟨m, w⟩ := p
    obtain ⟨hm, hrest⟩ := List.forall_mem_cons.mp h
    rw [Fields.set, if_neg (by omega), if_neg (by omega), ih hrest, List.cons_append]

/-- No other field of the type is in the same oneof. -/
def Alone (type : MessageType) (f : FieldDef) : Prop :=
  ∀ g ∈ type.fields, f.oneof ≠ none → g.oneof = f.oneof → g.number = f.number

instance (type : MessageType) (f : FieldDef) : Decidable (Alone type f) :=
  inferInstanceAs (Decidable (∀ g ∈ type.fields, _))

theorem clearOthers_of_alone {type : MessageType} {f : FieldDef} (h : Alone type f) :
    clearOthers type f before = before := by
  unfold clearOthers
  split
  · rfl
  · next i hi =>
    rw [List.filter_eq_self]
    rintro ⟨m, w⟩ -
    by_contra hother
    simp only [bne_iff_ne, ne_eq, Bool.or_eq_true, beq_iff_eq, not_or, Decidable.not_not] at hother
    obtain ⟨g, hg, hone⟩ := Option.bind_eq_some_iff.mp hother.2
    have hnumber : g.number = m := by simpa using List.find?_some hg
    have hsame := h g (List.mem_of_find?_eq_some hg) (by simp [hi]) (hone.trans hi.symm)
    exact hother.1 (hnumber.symm.trans hsame)

theorem Below.put {type : MessageType} {f : FieldDef} (h : before.Below f.number)
    (halone : Alone type f) (v : Value) :
    Fields.put type f v before = before ++ [(f.number, v)] := by
  rw [Fields.put, clearOthers_of_alone halone, h.set]

end Fields

/-! ## Writing field by field -/

section Writing
variable (pool : Pool) (type : MessageType)

theorem writeFields_cons (e : Nat × Value) (es : Fields) :
    writeFields pool type (e :: es) = writeFields pool type [e] ++ writeFields pool type es := by
  obtain ⟨n, v⟩ := e
  cases v <;> simp [writeFields]

theorem writeFields_append (es fs : Fields) :
    writeFields pool type (es ++ fs) = writeFields pool type es ++ writeFields pool type fs := by
  induction es with
  | nil => rfl
  | cons e es ih =>
    rw [List.cons_append, writeFields_cons, ih, writeFields_cons pool type e es, List.append_assoc]

theorem length_writeFields_le {e : Nat × Value} {es : Fields} (h : e ∈ es) :
    (writeFields pool type [e]).length ≤ (writeFields pool type es).length := by
  obtain ⟨before, after, rfl⟩ := List.append_of_mem h
  rw [writeFields_append, writeFields_cons pool type e after, List.length_append,
    List.length_append]
  omega

variable {pool type}

theorem writeFields_single {n : Nat} {f : FieldDef} (h : type.field? n = some f) {v : Value}
    (hv : ∀ b, v ≠ .raw b) : writeFields pool type [(n, v)] = writeContent pool n f.content v := by
  cases v <;> simp_all [writeFields]

theorem Plain.ne_raw {t : FieldType} {v : Value} (h : Plain t v) (b : Bytes) : v ≠ .raw b := by
  cases h <;> simp

theorem Plain.writeFields {slot : Slot} {v : Value} (hv : Plain slot.type v) {n : Nat}
    {f : FieldDef} (h : type.field? n = some f) (hslot : f.content = .single slot) (pool : Pool) :
    writeFields pool type [(n, v)] = if pool.shows (.single slot) v then
      writeKey n slot.type.wireType ++ writeNumber slot.type v else [] := by
  rw [writeFields_single h hv.ne_raw, hslot]
  obtain ⟨t, presence⟩ := slot
  cases hv <;> rfl

theorem writeFields_message {n : Nat} {f : FieldDef} {name : String} {presence : Bool}
    (h : type.field? n = some f) (hslot : f.content = .single ⟨.message name, presence⟩)
    (pool : Pool) (fields : Fields) :
    writeFields pool type [(n, .message fields)] =
      writeKey n .delimited ++ delimited (writeFields pool (pool.messageType name) fields) := by
  rw [writeFields_single h (by simp), hslot, writeContent]

theorem writeItems_cons (n : Nat) (name : String) (fields : Fields) (items : List Fields) :
    writeItems pool n (.message name) ((fields :: items).map .message) =
      writeKey n .delimited ++ delimited (writeFields pool (pool.messageType name) fields) ++
        writeItems pool n (.message name) (items.map .message) := by
  rw [List.map_cons, writeItems, writeContent]

theorem writeFields_messages {n : Nat} {f : FieldDef} {name : String} (h : type.field? n = some f)
    (hlist : f.content = .list (.message name) false false) (pool : Pool) (items : List Fields) :
    writeFields pool type [(n, .list (items.map .message))] =
      writeItems pool n (.message name) (items.map .message) := by
  rw [writeFields_single h (by simp), hlist, writeContent]
  cases items <;> rfl

/-! What a field holds is no longer than the field. -/

theorem length_le_of_delimited {shows : Prop} [Decidable shows] {key b : Bytes}
    (h : ¬ shows → b = []) : b.length ≤ (if shows then key ++ delimited b else []).length := by
  split
  · rw [List.length_append]
    have hle := length_le_length_delimited b
    omega
  · next hshows =>
    obtain rfl := h hshows
    exact Nat.zero_le _

theorem length_text_le {n : Nat} {f : FieldDef} {presence : Bool} (h : type.field? n = some f)
    (hslot : f.content = .single ⟨.scalar .string, presence⟩) (pool : Pool) {s : String}
    {fs : Fields} (hmem : (n, .text s) ∈ fs) :
    (utf8 s).length ≤ (writeFields pool type fs).length := by
  refine Nat.le_trans ?_ (length_writeFields_le pool type hmem)
  rw [writeFields_single h (by simp), hslot]
  apply length_le_of_delimited
  intro hshows
  have hempty : s = "" := by simp_all [Pool.shows, Value.isDefault]
  rw [hempty]
  rfl

theorem length_bytes_le {n : Nat} {f : FieldDef} {presence : Bool} (h : type.field? n = some f)
    (hslot : f.content = .single ⟨.scalar .bytes, presence⟩) (pool : Pool) {b : Bytes}
    {fs : Fields} (hmem : (n, .bytes b) ∈ fs) : b.length ≤ (writeFields pool type fs).length := by
  refine Nat.le_trans ?_ (length_writeFields_le pool type hmem)
  rw [writeFields_single h (by simp), hslot]
  apply length_le_of_delimited
  intro hshows
  simp_all [Pool.shows, Value.isDefault]

theorem length_message_le {n : Nat} {f : FieldDef} {name : String} {presence : Bool}
    (h : type.field? n = some f) (hslot : f.content = .single ⟨.message name, presence⟩)
    (pool : Pool) {fields fs : Fields} (hmem : (n, .message fields) ∈ fs) :
    (writeFields pool (pool.messageType name) fields).length ≤
      (writeFields pool type fs).length := by
  refine Nat.le_trans ?_ (length_writeFields_le pool type hmem)
  rw [writeFields_message h hslot, List.length_append]
  have hle := length_le_length_delimited (writeFields pool (pool.messageType name) fields)
  omega

end Writing

/-! ## From one type to another -/

variable {pool : Pool} {outer entries : Nesting} {source target : MessageType}

/-- Written as a field of one type and read as that of another, behind smaller fields, a field
becomes `image`, which is written with the same bytes. -/
structure Crosses (pool : Pool) (outer entries : Nesting) (source target : MessageType)
    (e : Nat × Value) (image : Fields) : Prop where
  reads : ∀ before : Fields, before.Below e.1 →
    Reads pool outer entries target before (writeFields pool source [e]) (before ++ image)
  numbers : ∀ p ∈ image, p.1 = e.1
  writes : writeFields pool target image = writeFields pool source [e]

theorem Crosses.of_hidden {e : Nat × Value} (h : writeFields pool source [e] = []) :
    Crosses pool outer entries source target e [] := by
  refine ⟨fun before _ => ?_, by simp, h.symm⟩
  rw [h, List.append_nil]
  exact Reads.nil before

section Fields
variable {es : Fields} {image : Nat × Value → Fields}

/-- Fields in ascending order are read one behind the other. -/
theorem reads_of_crosses (h : ∀ e ∈ es, Crosses pool outer entries source target e (image e))
    (hsorted : es.Sorted) (before : Fields) (hbefore : ∀ p ∈ es, before.Below p.1) :
    Reads pool outer entries target before (writeFields pool source es)
      (before ++ es.flatMap image) := by
  induction es generalizing before with
  | nil =>
    rw [List.flatMap_nil, List.append_nil]
    exact Reads.nil before
  | cons e es ih =>
    obtain ⟨he, hes⟩ := List.forall_mem_cons.mp h
    obtain ⟨hfirst, hsorted⟩ := List.pairwise_cons.mp hsorted
    obtain ⟨hbelow, hbefore⟩ := List.forall_mem_cons.mp hbefore
    rw [writeFields_cons, List.flatMap_cons, ← List.append_assoc]
    refine (he.reads before hbelow).append (ih hes hsorted _ ?_)
    intro p hp q hq
    rcases List.mem_append.mp hq with hq | hq
    · exact hbefore p hp q hq
    · rw [he.numbers q hq]
      exact hfirst p hp

theorem writeFields_of_crosses
    (h : ∀ e ∈ es, Crosses pool outer entries source target e (image e)) :
    writeFields pool target (es.flatMap image) = writeFields pool source es := by
  induction es with
  | nil => rfl
  | cons e es ih =>
    obtain ⟨he, hes⟩ := List.forall_mem_cons.mp h
    rw [writeFields_cons, List.flatMap_cons, writeFields_append, he.writes, ih hes]

end Fields

/-! ## Known fields -/

theorem nextContent_single {f : FieldDef} {slot : Slot} (h : f.content = .single slot)
    (wire : WireType) (before : Option Value) (s : Bytes) :
    nextContent pool outer entries f wire before s =
      nextSingle pool outer.fields f.number slot.type wire (before.getD (.message [])) s := by
  unfold nextContent
  rw [h]

/-- A field of a plain type passes between types that both have it, if it shows. -/
theorem Crosses.plain {n : Nat} {f g : FieldDef} {slot : Slot} {v : Value}
    (hnumber : IsFieldNumber n) (hg : source.field? n = some g) (hf : target.field? n = some f)
    (hgslot : g.content = .single slot) (hfslot : f.content = .single slot)
    (halone : Fields.Alone target f) (hv : Plain slot.type v) :
    Crosses pool outer entries source target (n, v)
      (if pool.shows (.single slot) v then [(n, v)] else []) := by
  have hsource := hv.writeFields hg hgslot pool
  have htarget := hv.writeFields hf hfslot pool
  cases hshows : pool.shows (.single slot) v with
  | false =>
    rw [hshows] at hsource
    exact Crosses.of_hidden hsource
  | true =>
    rw [hshows] at hsource htarget
    refine ⟨fun before hbelow => ?_, by simp, htarget.trans hsource.symm⟩
    have hn := MessageType.number_of_field? hf
    subst hn
    rw [hsource, if_pos rfl, if_pos rfl, ← hbelow.put halone]
    refine Reads.field hnumber hf hv.wireType_ne fun rest => ?_
    rw [nextContent_single hfslot]
    exact hv.nextSingle_writeNumber rest

/-- What is left of a field without presence once it was written. -/
def Fields.shown (e : Nat × Value) : Fields := if e.2.isDefault then [] else [e]

theorem Fields.shown_of_shows {n : Nat} {v : Value} {c : Content}
    (h : pool.shows c v = !v.isDefault) :
    (if pool.shows c v then [(n, v)] else []) = Fields.shown (n, v) := by
  rw [h, Fields.shown]
  cases v.isDefault <;> rfl

/-- A field of a plain type without presence passes between types that both have it. -/
theorem Crosses.shown {n : Nat} {f g : FieldDef} {type : FieldType} {v : Value}
    (hnumber : IsFieldNumber n) (hg : source.field? n = some g) (hf : target.field? n = some f)
    (hgslot : g.content = .single ⟨type, false⟩) (hfslot : f.content = .single ⟨type, false⟩)
    (halone : Fields.Alone target f) (hv : Plain type v)
    (hshows : pool.shows (.single ⟨type, false⟩) v = !v.isDefault) :
    Crosses pool outer entries source target (n, v) (Fields.shown (n, v)) := by
  rw [← Fields.shown_of_shows hshows]
  exact Crosses.plain hnumber hg hf hgslot hfslot halone hv

/-- Written and read at some depth, a message becomes `image`, which is written with the same bytes.
-/
structure Carried (pool : Pool) (nested : FieldsReader) (type : MessageType)
    (fields image : Fields) : Prop where
  reads : nested type [] none (writeFields pool type fields) = .ok (image, [])
  writes : writeFields pool type image = writeFields pool type fields
  length : (writeFields pool type fields).length < words64

theorem nextSingle_message {nested : FieldsReader} {n : Nat} {name : String}
    {fields image : Fields} (h : Carried pool nested (pool.messageType name) fields image)
    (rest : Bytes) :
    nextSingle pool nested n (.message name) .delimited (.message [])
      (delimited (writeFields pool (pool.messageType name) fields) ++ rest) =
        .ok (.message image, rest) := by
  unfold nextSingle
  simp only [checkWire, FieldType.wireType, ↓reduceIte, bind, Except.bind, pure, Except.pure,
    nextDelimited_delimited h.length, wholeMessage, h.reads, Except.map]

/-- A field that holds a message passes between types that both have it, if the message does. -/
theorem Crosses.message {n : Nat} {f g : FieldDef} {name : String} {presence : Bool}
    {fields image : Fields} (hnumber : IsFieldNumber n) (hg : source.field? n = some g)
    (hf : target.field? n = some f) (hgslot : g.content = .single ⟨.message name, presence⟩)
    (hfslot : f.content = .single ⟨.message name, presence⟩) (halone : Fields.Alone target f)
    (h : Carried pool outer.fields (pool.messageType name) fields image) :
    Crosses pool outer entries source target (n, .message fields) [(n, .message image)] := by
  have hsource := writeFields_message hg hgslot pool fields
  refine ⟨fun before hbelow => ?_, by simp, ?_⟩
  · have hn := MessageType.number_of_field? hf
    subst hn
    rw [hsource, ← hbelow.put halone]
    refine Reads.field hnumber hf (by decide) fun rest => ?_
    rw [nextContent_single hfslot, hbelow.get?]
    exact nextSingle_message h rest
  · rw [hsource, writeFields_message hf hfslot, h.writes]

/-! ## Lists of messages -/

theorem Fields.Below.get?_append {before : Fields} {n : Nat} (h : before.Below n) (v : Value) :
    Fields.get? (before ++ [(n, v)]) n = some v := by
  have hnone : List.lookup n before = none := h.get?
  rw [Fields.get?, List.lookup_append, hnone]
  simp

theorem Fields.Below.set_append {before : Fields} {n : Nat} (h : before.Below n) (v w : Value) :
    (before ++ [(n, v)]).set n w = before ++ [(n, w)] := by
  induction before with
  | nil => simp [Fields.set]
  | cons p rest ih =>
    obtain ⟨m, u⟩ := p
    obtain ⟨hm, hrest⟩ := List.forall_mem_cons.mp h
    rw [List.cons_append, Fields.set, if_neg (by omega), if_neg (by omega), ih hrest,
      List.cons_append]

theorem nextContent_item {f : FieldDef} {name : String} {packed presence : Bool}
    {fields image : Fields} (hf : f.content = .list (.message name) packed presence)
    (h : Carried pool outer.fields (pool.messageType name) fields image) (before : Option Value)
    (rest : Bytes) :
    nextContent pool outer entries f .delimited before
      (delimited (writeFields pool (pool.messageType name) fields) ++ rest) =
        .ok (.list (itemsBefore before ++ [.message image]), rest) := by
  unfold nextContent
  rw [hf]
  simp only [FieldType.isPackable, Bool.false_and, Bool.false_eq_true, ↓reduceIte, bind,
    Except.bind, nextSingle_message h]
  rfl

variable {f : FieldDef} {name : String} {packed presence : Bool} {items images : List Fields}

theorem writeItems_of_carried (n : Nat) {nested : FieldsReader}
    (h : List.Forall₂ (Carried pool nested (pool.messageType name)) items images) :
    writeItems pool n (.message name) (images.map .message) =
      writeItems pool n (.message name) (items.map .message) := by
  induction h with
  | nil => rfl
  | cons hcarried _ ih => rw [writeItems_cons, writeItems_cons, hcarried.writes, ih]

/-- One element after the other is added to those that are there. -/
theorem reads_items (hnumber : IsFieldNumber f.number)
    (hf : target.field? f.number = some f)
    (hlist : f.content = .list (.message name) packed presence) (halone : Fields.Alone target f)
    (h : List.Forall₂ (Carried pool outer.fields (pool.messageType name)) items images)
    {before : Fields} (hbelow : before.Below f.number) (done : List Value) :
    Reads pool outer entries target (before ++ [(f.number, .list done)])
      (writeItems pool f.number (.message name) (items.map .message))
      (before ++ [(f.number, .list (done ++ images.map .message))]) := by
  induction h generalizing done with
  | nil =>
    rw [List.map_nil, List.append_nil]
    exact Reads.nil _
  | @cons fields image items images hcarried _ ih =>
    have hput : Fields.put target f (.list (done ++ [.message image]))
        (before ++ [(f.number, .list done)]) =
          before ++ [(f.number, .list (done ++ [.message image]))] := by
      rw [Fields.put, Fields.clearOthers_of_alone halone, hbelow.set_append]
    have hfirst : Reads pool outer entries target (before ++ [(f.number, .list done)])
        (writeKey f.number .delimited ++
          delimited (writeFields pool (pool.messageType name) fields))
        (before ++ [(f.number, .list (done ++ [.message image]))]) := by
      rw [← hput]
      apply Reads.field hnumber hf (by decide)
      intro rest
      rw [hbelow.get?_append]
      exact nextContent_item hlist hcarried _ rest
    rw [writeItems_cons, List.map_cons, List.append_cons done]
    exact hfirst.append (ih (done ++ [.message image]))

/-- A list of messages passes between types that both have it, if each message does. -/
theorem Crosses.messages {n : Nat} {g : FieldDef} (hnumber : IsFieldNumber n)
    (hg : source.field? n = some g) (hf : target.field? n = some f)
    (hglist : g.content = .list (.message name) false false)
    (hflist : f.content = .list (.message name) false false) (halone : Fields.Alone target f)
    (h : List.Forall₂ (Carried pool outer.fields (pool.messageType name)) items images) :
    Crosses pool outer entries source target (n, .list (items.map .message))
      (if images = [] then [] else [(n, .list (images.map .message))]) := by
  have hsource := writeFields_messages hg hglist pool items
  cases h with
  | nil => exact Crosses.of_hidden hsource
  | @cons fields image items images hcarried hrest =>
    have hn := MessageType.number_of_field? hf
    subst hn
    rw [if_neg (by simp)]
    refine ⟨fun before hbelow => ?_, by simp, ?_⟩
    · have hfirst : Reads pool outer entries target before
          (writeKey f.number .delimited ++
            delimited (writeFields pool (pool.messageType name) fields))
          (before ++ [(f.number, .list [.message image])]) := by
        rw [← hbelow.put halone]
        apply Reads.field hnumber hf (by decide)
        intro rest
        rw [hbelow.get?]
        exact nextContent_item hflist hcarried _ rest
      rw [hsource, writeItems_cons]
      exact hfirst.append (reads_items hnumber hf hflist halone hrest hbelow _)
    · rw [hsource, writeFields_messages hf hflist pool (image :: images)]
      exact writeItems_of_carried f.number (.cons hcarried hrest)

/-! ## Unknown fields -/

/-- A field that is unknown where it is read is kept as its bytes, if anything of it is written. -/
theorem Crosses.unknown {n : Nat} {v : Value} {b : Bytes} (hnumber : IsFieldNumber n)
    (hfield : target.field? n = none) (hkeeps : pool.keepsUnknown = true)
    (hwritten : writeFields pool source [(n, v)] = writeKey n .delimited ++ delimited b)
    (hlength : b.length < words64) :
    Crosses pool outer entries source target (n, v)
      [(n, .raw (writeFields pool source [(n, v)]))] := by
  refine ⟨fun before hbelow => ?_, by simp, ?_⟩
  · have hkept : keepRaw pool n (writeFields pool source [(n, v)]) before =
        before ++ [(n, .raw (writeFields pool source [(n, v)]))] := by
      rw [keepRaw, if_pos hkeeps, hbelow.get?, hbelow.set, List.nil_append]
    rw [← hkept, hwritten]
    exact Reads.unknown hnumber hfield hkeeps hlength
  · rw [writeFields, writeFields, List.append_nil]

/-! ## Whole messages -/

section Whole
variable {es : Fields} {image : Nat × Value → Fields} {bound levels : Nat}

/-- A message that is read at some depth, from no more bytes than the outermost one has. -/
theorem carried_of_crosses {type : MessageType}
    (h : ∀ e ∈ es, Crosses pool (.within pool bound (levels + 1)) (.inEntries pool bound levels)
      type type e (image e))
    (hsorted : es.Sorted) (hbound : (writeFields pool type es).length ≤ bound)
    (hlength : bound < words64) :
    Carried pool (nestedFields pool bound (levels + 2)) type es (es.flatMap image) := by
  refine ⟨?_, writeFields_of_crosses h, by omega⟩
  have hreads := reads_of_crosses h hsorted [] (fun p _ q hq => by simp at hq)
  rw [nestedFields_succ]
  exact hreads.whole hbound

/-- A message that is read as one of another type. -/
theorem ofBytes_of_crosses
    (h : ∀ e ∈ es, Crosses pool (.within pool (writeFields pool source es).length maxNesting)
      (.inEntries pool (writeFields pool source es).length 99) source target e (image e))
    (hsorted : es.Sorted) :
    Message.ofBytes pool target (Message.toBytes pool ⟨source, es⟩) =
      .ok ⟨target, es.flatMap image⟩ := by
  have hreads := reads_of_crosses h hsorted [] (fun p _ q hq => by simp at hq)
  have hwhole := hreads.whole (Nat.le_refl _)
  rw [Message.ofBytes, maxNesting, nestedFields_succ]
  exact congrArg (Except.map _) hwhole

end Whole

end RpcGateway.Proto
