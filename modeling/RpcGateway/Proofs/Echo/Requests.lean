import RpcGateway.Echo.Schema
import RpcGateway.Proofs.Backend.Routes
import RpcGateway.Proofs.Proto.Crossing
import RpcGateway.Proofs.Proto.FieldOrder

/-!
Requests of the echo service. The types that its schema is linked to, and what parameters set in a
request: a text, a delay, the nested message, a note and a wrapped label, each of its own type.
-/
namespace RpcGateway.Echo
open Proto Number

/-! ## The linked types -/

/-- A field with one value. -/
def plainField (name jsonName : String) (number : Nat) (type : FieldType) (presence : Bool) :
    FieldDef := ⟨name, jsonName, number, none, .single ⟨type, presence⟩⟩

def textField (name jsonName : String) (number : Nat) : FieldDef :=
  plainField name jsonName number (.scalar .string) false

def delayField : FieldDef := plainField "delay_ms" "delayMs" 2 (.scalar .int32) false

def moodName : String := "echo.v1.Mood"
def metaName : String := "echo.v1.EchoRequest.Meta"
def labelName : String := "google.protobuf.StringValue"

def metaField : FieldDef := plainField "meta" "meta" 3 (.message metaName) true

def moodField : FieldDef := plainField "mood" "mood" 2 (.enum moodName) false

/-- The note may be set to the empty text. -/
def noteField : FieldDef :=
  { plainField "note" "note" 4 (.scalar .string) true with oneof := some 0 }

def labelField : FieldDef := plainField "label" "label" 5 (.message labelName) true

def labelType : MessageType := ⟨labelName, [textField "value" "value" 1]⟩

def nestedType : MessageType := ⟨metaName, [textField "trace_id" "traceId" 1, moodField]⟩

def requestType : MessageType :=
  ⟨"echo.v1.EchoRequest",
    [textField "message" "message" 1, delayField, metaField, noteField, labelField]⟩

def responseType : MessageType :=
  ⟨"echo.v1.EchoResponse", [textField "message" "message" 1, delayField, metaField]⟩

def moodType : EnumType := ⟨moodName, [("MOOD_UNSPECIFIED", 0), ("MOOD_HAPPY", 1)]⟩

/-- The method of a name in the echo service. -/
def methodType (name : String) : MethodType :=
  ⟨name, "echo.v1.EchoService", "echo.v1.EchoRequest", "echo.v1.EchoResponse"⟩

/-- The pool of the echo schema. -/
def pool : Pool where
  messages := ⟨[labelType, ⟨"google.protobuf.Int32Value",
    [plainField "value" "value" 1 (.scalar .int32) false]⟩, requestType, nestedType,
    responseType].map fun t => (t.fullName, t)⟩
  enums := ⟨[(moodName, moodType)]⟩
  services := ⟨[("echo.v1.EchoService", ⟨"echo.v1.EchoService",
    ["UnaryEcho", "Fail", "Slow", "ServerStreamingEcho"].map methodType⟩),
    ("echo.v1.Silent", ⟨"echo.v1.Silent", []⟩)]⟩

theorem link_files : Pool.link files = .ok pool := by rfl

/-! ## What parameters set -/

/-- A signed number of 32 bits. -/
def IsInt32 (i : Int) : Prop := -half32 ≤ i ∧ i < half32

instance (i : Int) : Decidable (IsInt32 i) := inferInstanceAs (Decidable (_ ∧ _))

/-- A field of the nested message. -/
inductive NestedField : Nat × Value → Prop
  | traceId (s : String) : NestedField (1, .text s)
  | mood {i : Int} (h : IsInt32 i) : NestedField (2, .int i)

/-- The fields of a nested message. -/
structure Nested (fs : Fields) : Prop where
  sorted : fs.Sorted
  fields : ∀ e ∈ fs, NestedField e

/-- The fields of a label: nothing where the text is empty. -/
inductive Label : Fields → Prop
  | empty : Label []
  | text (s : String) : Label [(1, .text s)]

/-- A field of a request. -/
inductive RequestField : Nat × Value → Prop
  | message (s : String) : RequestField (1, .text s)
  | delay {i : Int} (h : IsInt32 i) : RequestField (2, .int i)
  | nested {fs : Fields} (h : Nested fs) : RequestField (3, .message fs)
  | note (s : String) : RequestField (4, .text s)
  | label {fs : Fields} (h : Label fs) : RequestField (5, .message fs)

/-- The fields of a request. -/
structure Request (fs : Fields) : Prop where
  sorted : fs.Sorted
  fields : ∀ e ∈ fs, RequestField e

/-- A single value that a member sets is read from it, unless `null` is a value of the type. -/
theorem readValue_of_contentOfJson {slot : Slot} {read : MessageType → Option Fields} {j : Json}
    {v : Value} (hnull : readNull pool slot.type = some none)
    (h : contentOfJson pool (.single slot) read j = some (some v)) :
    readValue pool slot.type j read = some (some v) := by
  cases j with
  | null =>
    rw [contentOfJson, hnull] at h
    cases h
  | _ => exact h

theorem text_of_readValue {j : Json} {v : Value} {read : MessageType → Option Fields}
    (h : readValue pool (.scalar .string) j read = some (some v)) : ∃ s, v = .text s := by
  cases j with
  | str s =>
    cases h
    exact ⟨s, rfl⟩
  | _ => cases h

theorem int_of_integer? {i : Int} {v : Value} (h : Scalar.integer? .int32 i = some v) :
    ∃ i, IsInt32 i ∧ v = .int i := by
  rw [Scalar.integer?] at h
  split at h
  · next hrange =>
    cases h
    exact ⟨i, ⟨hrange.1, Int.lt_of_le_sub_one hrange.2⟩, rfl⟩
  · cases h

theorem int_of_readValue {j : Json} {v : Value} {read : MessageType → Option Fields}
    (h : readValue pool (.scalar .int32) j read = some (some v)) :
    ∃ i, IsInt32 i ∧ v = .int i := by
  have hread : Scalar.ofJson? .int32 j = some v := by
    obtain ⟨w, hw, hv⟩ := Option.map_eq_some_iff.mp h
    cases hv
    exact hw
  cases j with
  | int i => exact int_of_integer? hread
  | double x =>
    change Scalar.integerOfDouble? .int32 x = some v at hread
    unfold Scalar.integerOfDouble? at hread
    split at hread
    · cases hread
    · split at hread
      · exact int_of_integer? hread
      · cases hread
  | str t =>
    obtain ⟨i, -, hi⟩ := Option.bind_eq_some_iff.mp hread
    exact int_of_integer? hi
  | _ => cases hread

theorem mood_of_readValue {j : Json} {v : Value} {read : MessageType → Option Fields}
    (h : readValue pool (.enum moodName) j read = some (some v)) :
    ∃ i, IsInt32 i ∧ v = .int i := by
  have hread : moodType.ofJson? j = some (some v) := h
  cases j with
  | str name =>
    have hname : (moodType.number? name).map Value.int = some v := Option.some.inj hread
    obtain ⟨i, hi, rfl⟩ := Option.map_eq_some_iff.mp hname
    have hnumber : ∀ p ∈ moodType.values, IsInt32 p.2 := by decide
    obtain ⟨before, after, hvalues, -⟩ := List.lookup_eq_some_iff.mp hi
    exact ⟨i, hnumber (name, i) (hvalues ▸ by simp), rfl⟩
  | int i =>
    rw [EnumType.ofJson?] at hread
    split at hread
    · next hrange =>
      cases hread
      exact ⟨i, hrange.2, rfl⟩
    · cases hread
  | _ => cases hread

/-- Texts too long for any memory are not read. -/
theorem ofBytes_of_long {t : String} (h : words64 ≤ (utf8 t).length) (m : Message) :
    Message.ofBytes pool labelType (Message.toBytes pool ⟨labelType, [(1, .text t)]⟩) ≠ .ok m := by
  have hshows : pool.shows (.single ⟨.scalar .string, false⟩) (.text t) = true := by
    cases hempty : t.isEmpty with
    | true =>
      rw [String.isEmpty_iff.mp hempty] at h
      exact absurd h (by decide)
    | false => simp [Pool.shows, Content.hasPresence, Value.isDefault, hempty]
  have hbytes : Message.toBytes pool ⟨labelType, [(1, .text t)]⟩ =
      writeKey 1 .delimited ++ delimited (utf8 t) := by
    rw [Message.toBytes, writeFields_single (f := textField "value" "value" 1) rfl (by simp)]
    exact if_pos hshows
  have hcontent (outer entries : Nesting) :
      nextContent pool outer entries (textField "value" "value" 1) .delimited none
        (delimited (utf8 t)) = .error .badVarint := by
    have hnext := nextDelimited_of_le h []
    rw [List.append_nil] at hnext
    rw [nextContent_single (f := textField "value" "value" 1) rfl]
    show nextNumber (.scalar .string) _ = _
    rw [nextNumber, nextScalar, Scalar.wireType, hnext]
  have hpos := List.length_pos_of_ne_nil (writeKey_ne_nil 1 .delimited)
  obtain ⟨bound, hbound⟩ : ∃ n, (writeKey 1 .delimited ++ delimited (utf8 t)).length = n + 1 :=
    ⟨_, (Nat.succ_pred_eq_of_pos (by rw [List.length_append]; omega)).symm⟩
  have hread (outer entries : Nesting) : fieldsWith pool outer entries (bound + 1) labelType [] none
      (writeKey 1 .delimited ++ delimited (utf8 t)) = .error .badVarint := by
    refine Eq.trans
      (fieldsWith_known (f := textField "value" "value" 1) (by decide) rfl (by decide)) ?_
    show (locate _ _ _ (nextContent pool outer entries _ .delimited none _)).bind _ = _
    rw [hcontent]
    rfl
  rw [hbytes, Message.ofBytes, hbound, maxNesting, nestedFields_succ, hread]
  exact fun hok => by cases hok

/-- What is read of a label that was written. -/
theorem label_of_ofBytes {t : String} {m : Message}
    (h : Message.ofBytes pool labelType (Message.toBytes pool ⟨labelType, [(1, .text t)]⟩) =
      .ok m) : Label m.fields := by
  by_cases hlength : (utf8 t).length < words64
  · have hcross : ∀ e ∈ [(1, Value.text t)], Crosses pool
        (.within pool (writeFields pool labelType [(1, .text t)]).length maxNesting)
        (.inEntries pool (writeFields pool labelType [(1, .text t)]).length 99) labelType labelType
        e (Fields.shown e) := by
      rw [List.forall_mem_singleton]
      exact Crosses.shown (by decide) rfl rfl rfl rfl (by decide) (.text hlength) rfl
    rw [ofBytes_of_crosses hcross (List.pairwise_singleton _ _)] at h
    cases h
    rw [List.flatMap_cons, List.flatMap_nil, List.append_nil, Fields.shown]
    split
    · exact .empty
    · exact .text t
  · exact absurd h (ofBytes_of_long (Nat.not_lt.mp hlength) m)

/-- The wrapped text as the standard type has it. -/
def standardLabel : MessageType := ⟨labelName, [Standard.one 1 "" (.scalar .string) false]⟩

theorem find?_label : Standard.find? labelType = some (.wrapper .string, standardLabel) := rfl

theorem label_of_fieldsOfJson {j : Json} {fs : Fields}
    (h : fieldsOfJson pool labelType j = some fs) : Label fs := by
  rw [fieldsOfJson_of_standard pool find?_label (by decide)] at h
  obtain ⟨form, hform, hdeclared⟩ := Option.bind_eq_some_iff.mp h
  obtain ⟨v, hv, rfl⟩ := Option.map_eq_some_iff.mp hform
  cases j with
  | str t =>
    cases hv
    rw [declaredFields] at hdeclared
    cases hrecast : Message.recast ⟨standardLabel, [(1, .text t)]⟩ Standard.pool pool labelType with
    | error fault => rw [hrecast] at hdeclared; cases hdeclared
    | ok fs =>
      rw [hrecast] at hdeclared
      cases hdeclared
      obtain ⟨m, hm, rfl⟩ := exists_of_map_eq_ok hrecast
      exact label_of_ofBytes hm
  | _ => cases hv

theorem nested_of_fieldsOfJson {j : Json} {fs : Fields}
    (h : fieldsOfJson pool nestedType j = some fs) : Nested fs := by
  obtain ⟨members, -, h⟩ := members_of_fieldsOfJson rfl h
  have hall := membersOfJson_induct (P := NestedField) (fun m _ f hf v hv => ?_)
    List.Pairwise.nil (fun e he => by cases he) h
  · exact ⟨hall.1, hall.2⟩
  · simp only [nestedType, List.mem_cons, List.not_mem_nil, or_false] at hf
    rcases hf with rfl | rfl
    · obtain ⟨s, rfl⟩ := text_of_readValue (readValue_of_contentOfJson rfl hv)
      exact .traceId s
    · obtain ⟨i, hi, rfl⟩ := mood_of_readValue (readValue_of_contentOfJson rfl hv)
      exact .mood hi

/-- Parameters set fields of a request in order, each of its own type. -/
theorem request_of_fieldsOfJson {j : Json} {fs : Fields}
    (h : fieldsOfJson pool requestType j = some fs) : Request fs := by
  obtain ⟨members, -, h⟩ := members_of_fieldsOfJson rfl h
  have hall := membersOfJson_induct (P := RequestField) (fun m _ f hf v hv => ?_)
    List.Pairwise.nil (fun e he => by cases he) h
  · exact ⟨hall.1, hall.2⟩
  · simp only [requestType, List.mem_cons, List.not_mem_nil, or_false] at hf
    rcases hf with rfl | rfl | rfl | rfl | rfl
    · obtain ⟨s, rfl⟩ := text_of_readValue (readValue_of_contentOfJson rfl hv)
      exact .message s
    · obtain ⟨i, hi, rfl⟩ := int_of_readValue (readValue_of_contentOfJson rfl hv)
      exact .delay hi
    · obtain ⟨fs, hfs, hv⟩ := Option.map_eq_some_iff.mp (readValue_of_contentOfJson rfl hv)
      cases hv
      exact .nested (nested_of_fieldsOfJson hfs)
    · obtain ⟨s, rfl⟩ := text_of_readValue (readValue_of_contentOfJson rfl hv)
      exact .note s
    · obtain ⟨fs, hfs, hv⟩ := Option.map_eq_some_iff.mp (readValue_of_contentOfJson rfl hv)
      cases hv
      exact .label (label_of_fieldsOfJson hfs)

end RpcGateway.Echo
