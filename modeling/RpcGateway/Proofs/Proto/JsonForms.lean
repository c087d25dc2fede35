import RpcGateway.Proofs.Proto.FieldOrder
import RpcGateway.Proto.ToJson

/-!
The JSON forms of messages by their fields. What the type does not know gives no member.
-/
namespace RpcGateway.Proto

section Members
variable (pool : Pool) (full : Bool) (payload : MessagePrinter) (type : MessageType)

theorem membersOfFields_append (fields others : Fields) :
    membersOfFields pool full payload type (fields ++ others) =
      (membersOfFields pool full payload type fields).bind fun members =>
        (membersOfFields pool full payload type others).map (members ++ ·) := by
  induction fields with
  | nil =>
    show membersOfFields pool full payload type others = _
    rw [membersOfFields]
    cases membersOfFields pool full payload type others <;> rfl
  | cons e fields ih =>
    rw [List.cons_append, membersOfFields, membersOfFields, ih]
    cases type.field? e.1 with
    | none => rfl
    | some f =>
      dsimp only
      split
      · cases jsonOfContent pool full payload f.content e.2 <;>
          cases membersOfFields pool full payload type fields <;>
            cases membersOfFields pool full payload type others <;> rfl
      · rfl

theorem membersOfFields_unknown {unknown : Fields} (h : ∀ e ∈ unknown, type.field? e.1 = none) :
    membersOfFields pool full payload type unknown = .ok [] := by
  induction unknown with
  | nil => rfl
  | cons e unknown ih =>
    obtain ⟨n, v⟩ := e
    obtain ⟨hn, hrest⟩ := List.forall_mem_cons.mp h
    rw [← ih hrest, membersOfFields, hn]

theorem membersOfFields_append_unknown (fields : Fields) {unknown : Fields}
    (h : ∀ e ∈ unknown, type.field? e.1 = none) :
    membersOfFields pool full payload type (fields ++ unknown) =
      membersOfFields pool full payload type fields := by
  rw [membersOfFields_append, membersOfFields_unknown pool full payload type h]
  cases membersOfFields pool full payload type fields with
  | error _ => rfl
  | ok members => exact congrArg Except.ok (List.append_nil members)

theorem defaultMembers_append_unknown (set : List Nat) {unknown : List Nat}
    (h : ∀ n ∈ unknown, type.field? n = none) :
    defaultMembers pool type (set ++ unknown) = defaultMembers pool type set := by
  have hother : ∀ f ∈ type.fields, f.number ∉ unknown := by
    intro f hf hn
    have hnone := List.find?_eq_none.mp (h f.number hn) f hf
    simp at hnone
  unfold defaultMembers
  congr 1
  refine List.filter_congr fun f hf => ?_
  have hcontains : unknown.contains f.number = false := by simpa using hother f hf
  rw [List.contains_append, hcontains, Bool.or_false]

/-- The form of a message of an ordinary type is the same without what the type does not know. -/
theorem jsonOfType_append_unknown (htype : Standard.find? type = none) (fields : Fields)
    {unknown : Fields} (h : ∀ e ∈ unknown, type.field? e.1 = none) :
    (jsonOfType pool full payload type (fields ++ unknown) fun _ =>
      membersOfFields pool full payload type (fields ++ unknown)) =
    jsonOfType pool full payload type fields fun _ =>
      membersOfFields pool full payload type fields := by
  have hdefaults : defaultMembers pool type ((fields ++ unknown).map Prod.fst) =
      defaultMembers pool type (fields.map Prod.fst) := by
    rw [List.map_append]
    apply defaultMembers_append_unknown
    intro n hn
    obtain ⟨e, he, rfl⟩ := List.mem_map.mp hn
    exact h e he
  have hmembers : jsonOfMembers pool full type (fields ++ unknown) =
      jsonOfMembers pool full type fields := by
    funext members
    rw [jsonOfMembers, jsonOfMembers, hdefaults]
  unfold jsonOfType
  rw [htype]
  simp only [membersOfFields_append_unknown pool full payload type fields h, hmembers]

end Members

end RpcGateway.Proto
