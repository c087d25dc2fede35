import RpcGateway.Proofs.Schema.Entries
import RpcGateway.Proofs.Schema.Histories
import RpcGateway.Proofs.Schema.Resolution

/-!
The collections of a registry agree with each other after every history. Keys are the names of what
they stand for, types and targets belong to loaded files, and services are what their declarations
say, whatever was reloaded and wherever a load broke off.
-/
namespace RpcGateway.Schema.Registry

/-- No collection of a registry contradicts another. -/
structure Consistent (r : Registry) : Prop where
  messages : ∀ name m, r.messages.get? name = some m →
    m.fullName = name ∧ (∀ f ∈ m.fields, f.owner = name) ∧ (r.files.get? m.file).isSome
  enums : ∀ name e, r.enums.get? name = some e →
    e.fullName = name ∧ (r.files.get? e.file).isSome
  fileNames : ∀ path f, r.files.get? path = some f → f.name = path
  /-- The types that a file lists are registered. -/
  listed : ∀ path f, r.files.get? path = some f →
    (∀ name ∈ f.messages, (r.messages.get? name).isSome) ∧
      ∀ name ∈ f.enums, (r.enums.get? name).isSome
  services : ∀ path f, r.files.get? path = some f → f.Resolved
  nodup_targets : r.targets.Nodup
  targets : ∀ path ∈ r.targets, (r.files.get? path).isSome

theorem consistent_empty : Consistent empty where
  messages := fun _ _ h => by cases h
  enums := fun _ _ h => by cases h
  fileNames := fun _ _ h => by cases h
  listed := fun _ _ h => by cases h
  services := fun _ _ h => by cases h
  nodup_targets := List.nodup_nil
  targets := fun _ h => by cases h

/-! ## Registering a file -/

/-- A file lists what it registers. -/
theorem entryFor_listed (r : Registry) (d : FileDecl) :
    (∀ name ∈ (r.entryFor d).messages, ((r.loadFile d).messages.get? name).isSome) ∧
      ∀ name ∈ (r.entryFor d).enums, ((r.loadFile d).enums.get? name).isSome := by
  constructor
  · intro name hn
    rw [loadFile_messages]
    exact isSome_insertAll.mpr (.inl hn)
  · intro name hn
    rw [loadFile_enums]
    exact isSome_insertAll.mpr (.inl hn)

/-- Without services there is nothing to resolve. -/
theorem resolved_entryFor (r : Registry) (d : FileDecl) : (r.entryFor d).Resolved := by
  refine ⟨List.nil_sublist _, ?_⟩
  intro s hs
  cases hs

theorem Consistent.loadFile {r : Registry} (h : Consistent r) (d : FileDecl) :
    Consistent (r.loadFile d) where
  messages := by
    intro name m hm
    have hkeep : (r.files.get? m.file).isSome → ((r.loadFile d).files.get? m.file).isSome :=
      Table.isSome_get?_insert _ _
    rw [loadFile_messages] at hm
    rcases mem_or_get?_of_insertAll hm with he | hold
    · obtain ⟨hname, howners, hfile⟩ := d.filed_of_mem_messageEntries he
      refine ⟨hname, howners, ?_⟩
      rw [hfile, loadFile_files, Table.get?_insert_self]
      rfl
    · obtain ⟨hname, howners, hfile⟩ := h.messages name m hold
      exact ⟨hname, howners, hkeep hfile⟩
  enums := by
    intro name e he
    have hkeep : (r.files.get? e.file).isSome → ((r.loadFile d).files.get? e.file).isSome :=
      Table.isSome_get?_insert _ _
    rw [loadFile_enums] at he
    rcases mem_or_get?_of_insertAll he with hmem | hold
    · obtain ⟨hname, hfile⟩ := d.filed_of_mem_enumEntries hmem
      refine ⟨hname, ?_⟩
      rw [hfile, loadFile_files, Table.get?_insert_self]
      rfl
    · obtain ⟨hname, hfile⟩ := h.enums name e hold
      exact ⟨hname, hkeep hfile⟩
  fileNames := by
    intro path f hf
    rw [loadFile_files, Table.get?_insert] at hf
    split at hf
    · next hp =>
      cases hf
      exact hp.symm
    · exact h.fileNames path f hf
  listed := by
    intro path f hf
    rw [loadFile_files, Table.get?_insert] at hf
    split at hf
    · cases hf
      exact entryFor_listed r d
    · obtain ⟨hmessages, henums⟩ := h.listed path f hf
      exact ⟨fun name hn => isSome_insertAll.mpr (.inr (hmessages name hn)),
        fun name hn => isSome_insertAll.mpr (.inr (henums name hn))⟩
  services := by
    intro path f hf
    rw [loadFile_files, Table.get?_insert] at hf
    split at hf
    · cases hf
      exact resolved_entryFor r d
    · exact h.services path f hf
  nodup_targets := h.nodup_targets
  targets := by
    intro path hp
    rw [loadFile_targets] at hp
    rw [loadFile_files]
    exact Table.isSome_get?_insert _ _ (h.targets path hp)

/-! ## Loading services and adding targets -/

theorem Consistent.loadServices {r s : Registry} {path : String}
    (hs : r.loadServices path = .ok s) (h : Consistent r) : Consistent s := by
  obtain ⟨f, services, hget, hresolved, rfl⟩ := loadServices_eq_ok_iff.mp hs
  -- Every file of the new table is the old one of its name, with other services at most.
  have hfiles : ∀ p g, (r.files.insert path { f with services := services }).get? p = some g →
      ∃ g', r.files.get? p = some g' ∧ g.decl = g'.decl ∧ g.messages = g'.messages ∧
        g.enums = g'.enums ∧ (g.Resolved ∨ g = g') := by
    intro p g hg
    rw [Table.get?_insert] at hg
    split at hg
    · next hp =>
      cases hg
      exact ⟨f, hp ▸ hget, rfl, rfl, rfl, .inl (resolveServices_eq_ok hresolved)⟩
    · exact ⟨g, hg, rfl, rfl, rfl, .inr rfl⟩
  refine ⟨?_, ?_, ?_, ?_, ?_, h.nodup_targets, ?_⟩
  · intro name m hm
    obtain ⟨hname, howners, hfile⟩ := h.messages name m hm
    exact ⟨hname, howners, Table.isSome_get?_insert _ _ hfile⟩
  · intro name e he
    obtain ⟨hname, hfile⟩ := h.enums name e he
    exact ⟨hname, Table.isSome_get?_insert _ _ hfile⟩
  · intro p g hg
    obtain ⟨g', hg', hdecl, -⟩ := hfiles p g hg
    rw [File.name, hdecl]
    exact h.fileNames p g' hg'
  · intro p g hg
    obtain ⟨g', hg', -, hm, he, -⟩ := hfiles p g hg
    rw [hm, he]
    exact h.listed p g' hg'
  · intro p g hg
    obtain ⟨g', hg', -, -, -, hnew | rfl⟩ := hfiles p g hg
    · exact hnew
    · exact h.services p g hg'
  · intro p hp
    exact Table.isSome_get?_insert _ _ (h.targets p hp)

theorem nodup_addTarget {r : Registry} {path : String} (h : r.targets.Nodup) :
    (r.addTarget path).targets.Nodup := by
  rw [addTarget_targets]
  split
  · exact h
  · next hp =>
    rw [← List.concat_eq_append]
    exact h.concat hp

theorem Consistent.addTarget {r : Registry} {path : String} (hp : (r.files.get? path).isSome)
    (h : Consistent r) : Consistent (r.addTarget path) where
  messages := by simpa using h.messages
  enums := by simpa using h.enums
  fileNames := by simpa using h.fileNames
  listed := by simpa using h.listed
  services := by simpa using h.services
  nodup_targets := nodup_addTarget h.nodup_targets
  targets := by
    intro p hmem
    rw [addTarget_files]
    rw [addTarget_targets] at hmem
    split at hmem
    · exact h.targets p hmem
    · rcases List.mem_append.mp hmem with hmem | hmem
      · exact h.targets p hmem
      · rw [List.mem_singleton.mp hmem]
        exact hp

theorem kept_consistent : Kept (fun _ => True) Consistent where
  loadFile := fun _ h => h.loadFile _
  loadServices := fun hs h => h.loadServices hs
  addTarget := fun hp h => h.addTarget hp
  bindAlias := fun _ h => ⟨h.messages, h.enums, h.fileNames, h.listed, h.services,
    h.nodup_targets, h.targets⟩
  settings := fun _ _ _ _ _ h => ⟨h.messages, h.enums, h.fileNames, h.listed, h.services,
    h.nodup_targets, h.targets⟩

/-! ## Target files and where files come from -/

/-- In a consistent registry the targets are the names of the target files. -/
theorem Consistent.names_targetFiles {r : Registry} (h : Consistent r) :
    r.targetFiles.map File.name = r.targets := by
  have hnames : ∀ l : List String, (∀ path ∈ l, (r.files.get? path).isSome) →
      (l.filterMap r.files.get?).map File.name = l := by
    intro l hl
    induction l with
    | nil => rfl
    | cons path l ih =>
      obtain ⟨f, hf⟩ := Option.isSome_iff_exists.mp (hl path List.mem_cons_self)
      rw [List.filterMap_cons, hf, List.map_cons, h.fileNames path f hf,
        ih fun p hp => hl p (List.mem_cons_of_mem _ hp)]
  exact hnames r.targets h.targets

theorem exists_of_mem_targetFiles {r : Registry} {f : File} (h : f ∈ r.targetFiles) :
    ∃ path, r.files.get? path = some f := by
  obtain ⟨path, _, hf⟩ := List.mem_filterMap.mp h
  exact ⟨path, hf⟩

/-- All stored files were declared among those that `admits` holds of. -/
def DrawnFrom (admits : FileDecl → Prop) (r : Registry) : Prop :=
  ∀ path f, r.files.get? path = some f → admits f.decl

theorem kept_drawnFrom (admits : FileDecl → Prop) : Kept admits (DrawnFrom admits) where
  loadFile := by
    intro r d hd h path f hf
    rw [loadFile_files, Table.get?_insert] at hf
    split at hf
    · cases hf
      exact hd
    · exact h path f hf
  loadServices := by
    intro r s path hs h p g hg
    obtain ⟨f, services, hget, -, rfl⟩ := loadServices_eq_ok_iff.mp hs
    rw [Table.get?_insert] at hg
    split at hg
    · cases hg
      exact h path f hget
    · exact h p g hg
  addTarget := by
    intro r path _ h
    rw [DrawnFrom, addTarget_files]
    exact h
  bindAlias := fun _ h => h
  settings := fun _ _ _ _ _ h => h

/-! ## Every history -/

/-- A registered name means its own message in every scope. -/
theorem Consistent.lookupMessage {r : Registry} (h : Consistent r) (location : String)
    {name : String} (hn : (r.messages.get? name).isSome) :
    ∃ m, r.lookupMessage location name = .ok m ∧ m.fullName = name := by
  obtain ⟨m, hm⟩ := Option.isSome_iff_exists.mp hn
  have hname := (h.messages name m hm).1
  have habs : isAbsolute name = true := hname ▸ m.isAbsolute_fullName
  refine ⟨m, ?_, hname⟩
  rw [Registry.lookupMessage, resolve_of_isAbsolute _ _ habs, hm]

/-- After any history of operations, failed ones included, the collections of the registry agree,
and the full name of a registered message is found from every scope. -/
theorem consistent_after (history : List Operation) :
    Consistent (empty.after history) ∧
      ∀ location name, ((empty.after history).messages.get? name).isSome →
        ∃ m, (empty.after history).lookupMessage location name = .ok m ∧ m.fullName = name := by
  have h : Consistent (empty.after history) := kept_consistent.always consistent_empty history
  exact ⟨h, fun location _ hn => h.lookupMessage location hn⟩

/-- A file with a message of its package. -/
def strandedFile : FileDecl := { name := "s.proto", package := "p", messages := [{ name := "M" }] }

/-- The load breaks off at a target that is not there. The message of the file is registered all the
same, and is found from the scope of another package. -/
theorem consistent_after_failed_load :
    let r := empty.after [.load [strandedFile] ["missing.proto"]]
    (∃ e, (empty.load [strandedFile] ["missing.proto"]).2 = .error e) ∧ r.Consistent ∧
      (r.messages.get? ".p.M").isSome ∧
      ∃ m, r.lookupMessage ".q.N" ".p.M" = .ok m ∧ m.fullName = ".p.M" := by
  intro r
  have hsome : (r.messages.get? ".p.M").isSome := by decide +kernel
  obtain ⟨hconsistent, hfound⟩ := consistent_after [.load [strandedFile] ["missing.proto"]]
  exact ⟨⟨_, rfl⟩, hconsistent, hsome, hfound ".q.N" ".p.M" hsome⟩

end RpcGateway.Schema.Registry
