import RpcGateway.Proofs.Proto.Linked

/-!
Names within the types of a linked pool. The fields of a message differ in their numbers and in
their names in JSON, and the values of an enum differ in their names.
-/
namespace RpcGateway.Proto
open Schema

/-! ## Fields -/

/-- No two fields have one number or one name in JSON. -/
structure MessageType.Distinct (t : MessageType) : Prop where
  numbers : (t.fields.map FieldDef.number).Nodup
  jsonNames : (t.fields.map FieldDef.jsonName).Nodup

/-- No two values have one name. -/
def EnumType.Distinct (e : EnumType) : Prop := (e.values.map Prod.fst).Nodup

theorem sublist_flatMap_of_mem {α β : Type} {xs : List α} {x : α} (h : x ∈ xs) (f : α → List β) :
    (f x).Sublist (xs.flatMap f) := by
  have hsingle := (List.singleton_sublist.mpr h).flatMap f
  rwa [List.flatMap_singleton] at hsingle

mutual

/-- The names of an enum that a message declares are among those of the message. -/
theorem enumNames_sublist_messageNames {file scope : String} {dialect : Option String}
    (d : MessageDecl) {p : Placed} (hp : p ∈ placedMessages file dialect scope d) {e : EnumDecl}
    (he : e ∈ p.decl.enums) :
    (enumNames file p.fullName e).Sublist (messageNames file scope d) := by
  obtain ⟨name, fields, nested, enums, oneofs, mapEntry, extensions, rules⟩ := d
  rw [placedMessages] at hp
  rw [messageNames]
  rcases List.mem_cons.mp hp with rfl | hp
  · have hown : (enumNames file (within scope name) e).Sublist
        (enums.flatMap (enumNames file (within scope name))) := sublist_flatMap_of_mem he _
    refine List.Sublist.trans ?_ (List.sublist_cons_self _ _)
    refine List.Sublist.trans ?_ (List.sublist_append_left _ _)
    refine List.Sublist.trans ?_ (List.sublist_append_left _ _)
    exact hown.trans (List.sublist_append_right _ _)
  · have hnested := enumNames_sublist_nestedNames nested hp he
    exact (hnested.trans (List.sublist_append_right _ _)).trans (List.sublist_cons_self _ _)

theorem enumNames_sublist_nestedNames {file scope : String} {dialect : Option String}
    (ds : List MessageDecl) {p : Placed} (hp : p ∈ placedNested file dialect scope ds)
    {e : EnumDecl} (he : e ∈ p.decl.enums) :
    (enumNames file p.fullName e).Sublist (nestedNames file scope ds) := by
  cases ds with
  | nil => cases hp
  | cons d ds =>
    rw [placedNested] at hp
    rw [nestedNames]
    rcases List.mem_append.mp hp with hp | hp
    · exact (enumNames_sublist_messageNames d hp he).trans (List.sublist_append_left _ _)
    · exact (enumNames_sublist_nestedNames ds hp he).trans (List.sublist_append_right _ _)

end

/-- What linking checks about names within types. -/
structure Pool.Distinct (pool : Pool) : Prop where
  messages : ∀ name t, pool.messages.get? name = some t → t.Distinct
  enums : ∀ name e, pool.enums.get? name = some e → e.Distinct

end RpcGateway.Proto
