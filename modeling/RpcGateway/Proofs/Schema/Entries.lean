import RpcGateway.Proofs.Collections
import RpcGateway.Schema.Registry

/-!
The entries that a file makes in the tables of types. Each stands under its own absolute name and
names the file that it came from, however deep its declaration is nested.
-/
namespace RpcGateway.Schema

/-! ## Absolute names -/

theorem isAbsolute_qualifiedName (package : String) (outers : List String) (name : String) :
    isAbsolute (qualifiedName package outers name) = true := by
  unfold isAbsolute qualifiedName
  generalize hs : (if package.isEmpty then outers else package :: outers) = scope
  -- The first component brings its dot, whether it is the package, an outer message or the name.
  obtain ⟨first, rest, hc⟩ : ∃ first rest, scope ++ [name] = first :: rest := by
    cases scope with
    | nil => exact ⟨name, [], rfl⟩
    | cons first rest => exact ⟨first, rest ++ [name], rfl⟩
  dsimp only
  rw [hc, List.map_cons, String.join_cons, String.toList_append, String.toList_append]
  rfl

theorem Message.isAbsolute_fullName (m : Message) : isAbsolute m.fullName = true :=
  isAbsolute_qualifiedName _ _ _

/-- An absolute name means one entry in every scope. -/
theorem resolve_of_isAbsolute {α : Type} (table : Table α) (location : String) {name : String}
    (h : isAbsolute name = true) : resolve table location name = table.get? name := by
  unfold resolve candidates
  rw [if_pos h]
  cases hg : table.get? name <;> simp [hg]

/-! ## Entries of messages -/

/-- A message belongs under a name, as all its fields say, and comes from a file. -/
structure Message.Filed (file name : String) (m : Message) : Prop where
  fullName : m.fullName = name
  owners : ∀ f ∈ m.fields, f.owner = name
  file : m.file = file

theorem Message.filed_ofDecl (file package : String) (outers : List String) (index : Nat)
    (d : MessageDecl) :
    Message.Filed file (Message.ofDecl file package outers index d).fullName
      (Message.ofDecl file package outers index d) := by
  refine ⟨rfl, ?_, rfl⟩
  intro f hf
  obtain ⟨decl, _, rfl⟩ := List.mem_map.mp hf
  rfl

mutual

theorem MessageDecl.filed_of_mem_entries {file package : String} {outers : List String}
    {index : Nat} (d : MessageDecl) {e : String × Message}
    (h : e ∈ d.entries file package outers index) : Message.Filed file e.1 e.2 := by
  obtain ⟨name, fields, nested, enums, oneofs, mapEntry, extensions, rules⟩ := d
  rw [MessageDecl.entries] at h
  rcases List.mem_cons.mp h with rfl | h
  · exact Message.filed_ofDecl file package outers index _
  · exact filed_of_mem_messageEntries nested h

theorem filed_of_mem_messageEntries {file package : String} {outers : List String} {index : Nat}
    (ds : List MessageDecl) {e : String × Message}
    (h : e ∈ messageEntries file package outers index ds) : Message.Filed file e.1 e.2 := by
  cases ds with
  | nil => cases h
  | cons d ds =>
    rw [messageEntries] at h
    rcases List.mem_append.mp h with h | h
    · exact d.filed_of_mem_entries h
    · exact filed_of_mem_messageEntries ds h

end

/-! ## Entries of enums -/

/-- An enum belongs under a name and comes from a file. -/
structure Enum.Filed (file name : String) (e : Enum) : Prop where
  fullName : e.fullName = name
  file : e.file = file

theorem filed_of_mem_enumEntries {file package : String} {outers : List String}
    {ds : List EnumDecl} {e : String × Enum} (h : e ∈ enumEntries file package outers ds) :
    Enum.Filed file e.1 e.2 := by
  obtain ⟨index, hi, rfl⟩ := List.mem_mapIdx.mp h
  exact ⟨rfl, rfl⟩

mutual

theorem MessageDecl.filed_of_mem_enumEntries {file package : String} {outers : List String}
    (d : MessageDecl) {e : String × Enum} (h : e ∈ d.enumEntries file package outers) :
    Enum.Filed file e.1 e.2 := by
  obtain ⟨name, fields, nested, enums, oneofs, mapEntry, extensions, rules⟩ := d
  rw [MessageDecl.enumEntries] at h
  rcases List.mem_append.mp h with h | h
  · exact filed_of_mem_nestedEnumEntries nested h
  · exact Schema.filed_of_mem_enumEntries h

theorem filed_of_mem_nestedEnumEntries {file package : String} {outers : List String}
    (ds : List MessageDecl) {e : String × Enum}
    (h : e ∈ nestedEnumEntries file package outers ds) : Enum.Filed file e.1 e.2 := by
  cases ds with
  | nil => cases h
  | cons d ds =>
    rw [nestedEnumEntries] at h
    rcases List.mem_append.mp h with h | h
    · exact d.filed_of_mem_enumEntries h
    · exact filed_of_mem_nestedEnumEntries ds h

end

namespace FileDecl

theorem filed_of_mem_messageEntries (d : FileDecl) {e : String × Message}
    (h : e ∈ d.messageEntries) : Message.Filed d.name e.1 e.2 :=
  Schema.filed_of_mem_messageEntries d.messages h

theorem filed_of_mem_enumEntries (d : FileDecl) {e : String × Enum} (h : e ∈ d.enumEntries) :
    Enum.Filed d.name e.1 e.2 := by
  rcases List.mem_append.mp h with h | h
  · exact filed_of_mem_nestedEnumEntries d.messages h
  · exact Schema.filed_of_mem_enumEntries h

end FileDecl

/-! ## Entries in a table -/

namespace Registry
variable {α : Type}

theorem insertAll_eq_fill (t : Table α) (entries : List (String × α)) :
    insertAll t entries = t.fill Prod.fst Prod.snd entries := rfl

/-- What a table holds after insertions is among the entries, or was there before. -/
theorem mem_or_get?_of_insertAll {entries : List (String × α)} {t : Table α} {name : String}
    {value : α} (h : (insertAll t entries).get? name = some value) :
    (name, value) ∈ entries ∨ t.get? name = some value := by
  rw [insertAll_eq_fill] at h
  rcases Table.mem_or_get?_of_fill h with ⟨e, he, rfl, rfl⟩ | h
  · exact .inl he
  · exact .inr h

/-- Insertions leave no entry out, and remove no name. -/
theorem isSome_insertAll {entries : List (String × α)} {t : Table α} {name : String} :
    ((insertAll t entries).get? name).isSome ↔
      name ∈ entries.map Prod.fst ∨ (t.get? name).isSome := by
  rw [insertAll_eq_fill]
  exact Table.isSome_get?_fill

end Registry

end RpcGateway.Schema
