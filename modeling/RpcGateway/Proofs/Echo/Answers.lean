import RpcGateway.Echo.Server
import RpcGateway.Proofs.Echo.Requests
import RpcGateway.Proofs.Proto.JsonForms

/-!
What the echo server makes of a request. The request is read as it was written, and read once more
as an answer, which has the text, the delay and the nested message but keeps the note and the label
as bytes that it does not know. Its JSON form shows the first three alone.
-/
namespace RpcGateway.Echo
open Proto Number

/-! ## From request to answer -/

/-- What is left of a field of a request once it was written. -/
def requestImage : Nat × Value → Fields
  | (3, .message fs) => [(3, .message (fs.flatMap Fields.shown))]
  | (4, v) => [(4, v)]
  | (5, .message fs) => [(5, .message (fs.flatMap Fields.shown))]
  | e => Fields.shown e

/-- What becomes of a field of a request in an answer. -/
def answerImage : Nat × Value → Fields
  | (3, .message fs) => [(3, .message (fs.flatMap Fields.shown))]
  | (4, v) => [(4, .raw (writeFields pool requestType [(4, v)]))]
  | (5, v) => [(5, .raw (writeFields pool requestType [(5, v)]))]
  | e => Fields.shown e

/-- The note has presence, so that also the empty one is written. -/
theorem writeFields_note (s : String) :
    writeFields pool requestType [(4, .text s)] = writeKey 4 .delimited ++ delimited (utf8 s) := by
  rw [writeFields_single (f := noteField) rfl (by simp)]
  rfl

section Crossing
variable {fs : Fields} {bound levels : Nat}

theorem Nested.carried (h : Nested fs) (hbound : (writeFields pool nestedType fs).length ≤ bound)
    (hlength : bound < words64) :
    Carried pool (nestedFields pool bound (levels + 2)) nestedType fs
      (fs.flatMap Fields.shown) := by
  refine carried_of_crosses (fun e he => ?_) h.sorted hbound hlength
  cases h.fields e he with
  | traceId s =>
    have hs : (utf8 s).length ≤ (writeFields pool nestedType fs).length :=
      length_text_le (by rfl) (by rfl) pool he
    exact Crosses.shown (by decide) rfl rfl rfl rfl (by decide) (.text (by omega)) rfl
  | mood hi => exact Crosses.shown (by decide) rfl rfl rfl rfl (by decide) (.enum hi.1 hi.2) rfl

theorem Label.carried (h : Label fs) (hbound : (writeFields pool labelType fs).length ≤ bound)
    (hlength : bound < words64) :
    Carried pool (nestedFields pool bound (levels + 2)) labelType fs
      (fs.flatMap Fields.shown) := by
  cases h with
  | empty => exact carried_of_crosses (List.forall_mem_nil _) List.Pairwise.nil hbound hlength
  | text s =>
    have hs : (utf8 s).length ≤ (writeFields pool labelType [(1, .text s)]).length :=
      length_text_le (by rfl) (by rfl) pool List.mem_cons_self
    refine carried_of_crosses (List.forall_mem_singleton.mpr ?_) (List.pairwise_singleton _ _)
      hbound hlength
    exact Crosses.shown (by decide) rfl rfl rfl rfl (by decide) (.text (by omega)) rfl

variable (h : Request fs) (hbound : (writeFields pool requestType fs).length ≤ bound)
  (hlength : bound < words64)
include h hbound hlength

/-- The first three fields are the same in requests and answers. -/
theorem crosses_shared {target : MessageType} (ht : target = requestType ∨ target = responseType) :
    ∀ e ∈ fs, e.1 ≤ 3 →
      Crosses pool (.within pool bound maxNesting) (.inEntries pool bound 99) requestType target e
        (requestImage e) := by
  intro e he hnumber
  cases h.fields e he with
  | message s =>
    have hs : (utf8 s).length ≤ (writeFields pool requestType fs).length :=
      length_text_le (by rfl) (by rfl) pool he
    rcases ht with rfl | rfl <;>
      exact Crosses.shown (by decide) rfl rfl rfl rfl (by decide) (.text (by omega)) rfl
  | delay hi =>
    rcases ht with rfl | rfl <;>
      exact Crosses.shown (by decide) rfl rfl rfl rfl (by decide) (.int32 hi.1 hi.2) rfl
  | nested hn =>
    have hfs : (writeFields pool (pool.messageType metaName) _).length ≤
        (writeFields pool requestType fs).length := length_message_le (by rfl) (by rfl) pool he
    rcases ht with rfl | rfl <;>
      exact Crosses.message (by decide) rfl rfl rfl rfl (by decide)
        (hn.carried (Nat.le_trans hfs hbound) hlength)
  | note s => exact absurd hnumber (by simp)
  | label hl => exact absurd hnumber (by simp)

theorem crosses_request : ∀ e ∈ fs,
    Crosses pool (.within pool bound maxNesting) (.inEntries pool bound 99) requestType
      requestType e (requestImage e) := by
  intro e he
  have hshared := crosses_shared h hbound hlength (.inl rfl) e he
  cases h.fields e he with
  | message | delay | nested => exact hshared (by simp)
  | note s =>
    have hs : (utf8 s).length ≤ (writeFields pool requestType fs).length :=
      length_text_le (by rfl) (by rfl) pool he
    have hslot : noteField.content = .single ⟨.scalar .string, true⟩ := rfl
    exact Crosses.plain (by decide) rfl rfl hslot hslot (by decide) (.text (by omega))
  | label hl =>
    have hfs : (writeFields pool (pool.messageType labelName) _).length ≤
        (writeFields pool requestType fs).length := length_message_le (by rfl) (by rfl) pool he
    exact Crosses.message (by decide) rfl rfl rfl rfl (by decide)
      (hl.carried (Nat.le_trans hfs hbound) hlength)

theorem crosses_answer : ∀ e ∈ fs,
    Crosses pool (.within pool bound maxNesting) (.inEntries pool bound 99) requestType
      responseType e (answerImage e) := by
  intro e he
  have hshared := crosses_shared h hbound hlength (.inr rfl) e he
  cases h.fields e he with
  | message | delay | nested => exact hshared (by simp)
  | note s =>
    have hs : (utf8 s).length ≤ (writeFields pool requestType fs).length :=
      length_text_le (by rfl) (by rfl) pool he
    exact Crosses.unknown (by decide) rfl rfl (writeFields_note s) (by omega)
  | label hl =>
    have hfs : (writeFields pool (pool.messageType labelName) _).length ≤
        (writeFields pool requestType fs).length := length_message_le (by rfl) (by rfl) pool he
    exact Crosses.unknown (by decide) rfl rfl (writeFields_message rfl rfl pool _) (by omega)

end Crossing

section Bytes
variable {fs : Fields} (h : Request fs)
  (hlength : (writeFields pool requestType fs).length < words64)
include h hlength

theorem ofBytes_request :
    Message.ofBytes pool requestType (Message.toBytes pool ⟨requestType, fs⟩) =
      .ok ⟨requestType, fs.flatMap requestImage⟩ :=
  ofBytes_of_crosses (crosses_request h (Nat.le_refl _) hlength) h.sorted

theorem toBytes_request :
    Message.toBytes pool ⟨requestType, fs.flatMap requestImage⟩ =
      Message.toBytes pool ⟨requestType, fs⟩ :=
  writeFields_of_crosses (crosses_request h (Nat.le_refl _) hlength)

theorem ofBytes_answer :
    Message.ofBytes pool responseType (Message.toBytes pool ⟨requestType, fs⟩) =
      .ok ⟨responseType, fs.flatMap answerImage⟩ :=
  ofBytes_of_crosses (crosses_answer h (Nat.le_refl _) hlength) h.sorted

theorem toBytes_answer :
    Message.toBytes pool ⟨responseType, fs.flatMap answerImage⟩ =
      Message.toBytes pool ⟨requestType, fs⟩ :=
  writeFields_of_crosses (crosses_answer h (Nat.le_refl _) hlength)

end Bytes

/-! ## What the answer sets -/

/-- A text that shows. -/
def textPart (n : Nat) (s : String) : Fields := if s = "" then [] else [(n, .text s)]

/-- A whole number that shows. -/
def wholePart (n : Nat) (i : Int) : Fields := if i = 0 then [] else [(n, .int i)]

/-- A nested message that is set, in as far as it shows. -/
def nestedPart (ns : Option Fields) : Fields :=
  ns.elim [] fun ns => [(3, .message (textPart 1 (textAt ns 1) ++ wholePart 2 (wholeAt ns 2)))]

/-- The fields of a nested message, if it is set. -/
def nested? (fs : Fields) (n : Nat) : Option Fields :=
  match Fields.get? fs n with
  | some (.message ns) => some ns
  | _ => none

theorem flatMap_part_congr {fs : Fields} {n : Nat} {f g : Nat × Value → Fields}
    (h : ∀ v, f (n, v) = g (n, v)) : (fs.part n).flatMap f = (fs.part n).flatMap g :=
  List.flatMap_congr fun e he => by rw [← Fields.fst_of_mem_part he] at h; exact h e.2

theorem flatMap_part_text {fs : Fields} {n : Nat} (h : ∀ v, (n, v) ∈ fs → ∃ s, v = .text s) :
    (fs.part n).flatMap Fields.shown = textPart n (textAt fs n) := by
  rw [Fields.part, textAt]
  cases hget : Fields.get? fs n with
  | none => rfl
  | some v =>
    obtain ⟨s, rfl⟩ := h v (Fields.mem_of_get? hget)
    simp [Fields.shown, textPart, Value.isDefault, String.isEmpty_iff]

theorem flatMap_part_whole {fs : Fields} {n : Nat} (h : ∀ v, (n, v) ∈ fs → ∃ i, v = .int i) :
    (fs.part n).flatMap Fields.shown = wholePart n (wholeAt fs n) := by
  rw [Fields.part, wholeAt]
  cases hget : Fields.get? fs n with
  | none => rfl
  | some v =>
    obtain ⟨i, rfl⟩ := h v (Fields.mem_of_get? hget)
    simp [Fields.shown, wholePart, Value.isDefault]

theorem Nested.shown {fs : Fields} (h : Nested fs) :
    fs.flatMap Fields.shown = textPart 1 (textAt fs 1) ++ wholePart 2 (wholeAt fs 2) := by
  have hparts : fs = [1, 2].flatMap fs.part := h.sorted.eq_flatMap_part (by decide) fun e he => by
    cases h.fields e he <;> simp
  have htext : ∀ v, (1, v) ∈ fs → ∃ s, v = .text s := fun v hv => by
    cases h.fields _ hv
    exact ⟨_, rfl⟩
  have hwhole : ∀ v, (2, v) ∈ fs → ∃ i, v = .int i := fun v hv => by
    cases h.fields _ hv
    exact ⟨_, rfl⟩
  rw [← flatMap_part_text htext, ← flatMap_part_whole hwhole]
  conv_lhs => rw [hparts]
  simp

/-- Every field keeps its number. -/
theorem fst_of_mem_answerImage {e p : Nat × Value} (h : p ∈ answerImage e) : p.1 = e.1 := by
  unfold answerImage at h
  split at h
  · rw [List.mem_singleton.mp h]
  · rw [List.mem_singleton.mp h]
  · rw [List.mem_singleton.mp h]
  · rw [Fields.shown] at h
    split at h
    · cases h
    · rw [List.mem_singleton.mp h]

theorem fst_of_mem_part_answerImage {fs : Fields} {n : Nat} {p : Nat × Value}
    (h : p ∈ (fs.part n).flatMap answerImage) : p.1 = n := by
  obtain ⟨e, he, hp⟩ := List.mem_flatMap.mp h
  rw [fst_of_mem_answerImage hp, Fields.fst_of_mem_part he]

/-- What an answer sets: the text, the delay and the nested message of the request, and nothing else
that the type knows. -/
theorem Request.answered {fs : Fields} (h : Request fs) :
    ∃ unknown : Fields, (∀ e ∈ unknown, responseType.field? e.1 = none) ∧
      fs.flatMap answerImage = textPart 1 (textAt fs 1) ++ wholePart 2 (wholeAt fs 2) ++
        nestedPart (nested? fs 3) ++ unknown := by
  have hparts : fs = [1, 2, 3, 4, 5].flatMap fs.part :=
    h.sorted.eq_flatMap_part (by decide) fun e he => by cases h.fields e he <;> simp
  have htext : ∀ v, (1, v) ∈ fs → ∃ s, v = .text s := fun v hv => by
    cases h.fields _ hv
    exact ⟨_, rfl⟩
  have hwhole : ∀ v, (2, v) ∈ fs → ∃ i, v = .int i := fun v hv => by
    cases h.fields _ hv
    exact ⟨_, rfl⟩
  have hnested : (fs.part 3).flatMap answerImage = nestedPart (nested? fs 3) := by
    rw [Fields.part, nested?]
    cases hget : Fields.get? fs 3 with
    | none => rfl
    | some v =>
      cases h.fields _ (Fields.mem_of_get? hget) with
      | nested hns => simp [answerImage, hns.shown, nestedPart]
  refine ⟨(fs.part 4).flatMap answerImage ++ (fs.part 5).flatMap answerImage, ?_, ?_⟩
  · intro e he
    rcases List.mem_append.mp he with he | he
    · rw [fst_of_mem_part_answerImage he]
      rfl
    · rw [fst_of_mem_part_answerImage he]
      rfl
  · rw [← flatMap_part_text htext, ← flatMap_part_whole hwhole, ← hnested]
    conv_lhs => rw [hparts]
    have h1 : (fs.part 1).flatMap answerImage = (fs.part 1).flatMap Fields.shown :=
      flatMap_part_congr fun _ => rfl
    have h2 : (fs.part 2).flatMap answerImage = (fs.part 2).flatMap Fields.shown :=
      flatMap_part_congr fun _ => rfl
    rw [List.flatMap_assoc]
    simp only [List.flatMap_cons, List.flatMap_nil, List.append_nil, List.append_assoc, h1, h2]

/-! ## The JSON form of an answer -/

/-- A mood by its name, or else its number. -/
def moodJson (i : Int) : Json := (moodType.name? i).elim (.int i) .str

/-- The members that the nested message shows, in full. -/
def nestedJson (fs : Fields) : Json :=
  .obj [("mood", moodJson (wholeAt fs 2)), ("traceId", .str (textAt fs 1))]

/-- The answer to a request: its text and its delay, and the nested message exactly if it is set.
Neither the note nor the label show. -/
def echoed (fs : Fields) : Json :=
  .obj ([("delayMs", .int (wholeAt fs 2)), ("message", .str (textAt fs 1))] ++
    (nested? fs 3).elim [] fun ns => [("meta", nestedJson ns)])

theorem jsonOfContent_nested (payload : MessagePrinter) (ns : Fields) :
    jsonOfContent pool true payload metaField.content
      (.message (textPart 1 (textAt ns 1) ++ wholePart 2 (wholeAt ns 2))) =
        .ok (nestedJson ns) := by
  unfold nestedJson
  generalize textAt ns 1 = s
  generalize wholeAt ns 2 = i
  rcases eq_or_ne s "" with rfl | hs <;> rcases eq_or_ne i 0 with rfl | hi
  · rfl
  · rw [wholePart, if_neg hi]
    rfl
  · rw [textPart, if_neg hs]
    rfl
  · rw [textPart, if_neg hs, wholePart, if_neg hi]
    rfl

theorem membersOfFields_plain (payload : MessagePrinter) (s : String) (i : Int) :
    membersOfFields pool true payload responseType (textPart 1 s ++ wholePart 2 i) =
      .ok ((if s = "" then [] else [("message", .str s)]) ++
        if i = 0 then [] else [("delayMs", .int i)]) := by
  unfold textPart wholePart
  split <;> split <;> rfl

theorem membersOfFields_nested (payload : MessagePrinter) (ns : Option Fields) :
    membersOfFields pool true payload responseType (nestedPart ns) =
      .ok (ns.elim [] fun ns => [("meta", nestedJson ns)]) := by
  cases ns with
  | none => rfl
  | some ns =>
    show (jsonOfContent pool true payload metaField.content _).bind _ = _
    rw [jsonOfContent_nested]
    rfl

/-- An answer has all its members, but for a nested message that is not set. -/
theorem toJson_answer {fs : Fields} (h : Request fs) :
    Message.toJson pool true ⟨responseType, fs.flatMap answerImage⟩ = .ok (echoed fs) := by
  obtain ⟨unknown, hunknown, himage⟩ := h.answered
  rw [himage, Message.toJson, jsonWithin]
  dsimp only
  rw [jsonOfType_append_unknown pool true _ responseType rfl _ hunknown, echoed]
  generalize textAt fs 1 = s
  generalize wholeAt fs 2 = i
  generalize nested? fs 3 = ns
  have hmembers (payload : MessagePrinter) := membersOfFields_append pool true payload responseType
    (textPart 1 s ++ wholePart 2 i) (nestedPart ns)
  simp only [membersOfFields_plain, membersOfFields_nested] at hmembers
  show (membersOfFields _ _ _ _ _).map _ = _
  rw [hmembers]
  show Except.ok (jsonOfMembers pool true responseType _ _) = _
  rcases eq_or_ne s "" with rfl | hs <;> rcases eq_or_ne i 0 with rfl | hi
  · cases ns <;> rfl
  · rw [wholePart, if_neg hi, if_neg hi]
    cases ns <;> rfl
  · rw [textPart, if_neg hs, if_neg hs]
    cases ns <;> rfl
  · rw [textPart, if_neg hs, if_neg hs, wholePart, if_neg hi, if_neg hi]
    cases ns <;> rfl

end RpcGateway.Echo
