import RpcGateway.Proofs.Schema.Consistency

/-!
The order in which files are loaded. Files that declare nothing twice between them may be loaded in
any order: what is registered, what the services resolve to and how the load ends are the same, and
only the aliases of packages depend on who asked first.
-/
namespace RpcGateway.Schema

/-- All that is known of a file but the alias of its package. -/
def File.withoutAlias (f : File) : File := { f with package := { f.package with alias? := none } }

@[simp] theorem File.withoutAlias_decl (f : File) : f.withoutAlias.decl = f.decl := rfl

/-- Files that declare no type and no path in common. -/
structure FileDecl.Apart (d e : FileDecl) : Prop where
  name : d.name ≠ e.name
  messages : List.Disjoint (d.messageEntries.map Prod.fst) (e.messageEntries.map Prod.fst)
  enums : List.Disjoint (d.enumEntries.map Prod.fst) (e.enumEntries.map Prod.fst)

theorem FileDecl.Apart.symm {d e : FileDecl} (h : d.Apart e) : e.Apart d :=
  ⟨h.name.symm, h.messages.symm, h.enums.symm⟩

theorem FileDecl.pairwise_apart {ds : List FileDecl} (hnames : (ds.map FileDecl.name).Nodup)
    (hmessages : ((ds.flatMap FileDecl.messageEntries).map Prod.fst).Nodup)
    (henums : ((ds.flatMap FileDecl.enumEntries).map Prod.fst).Nodup) :
    ds.Pairwise FileDecl.Apart := by
  rw [List.map_flatMap, List.nodup_flatMap] at hmessages henums
  rw [List.Nodup, List.pairwise_map] at hnames
  have hboth := hnames.and (hmessages.2.and henums.2)
  exact hboth.imp fun h => ⟨h.1, h.2.1, h.2.2⟩

namespace Registry

/-- Two registries that differ in aliases at most. -/
structure Agree (r s : Registry) : Prop where
  messages : r.messages.get? = s.messages.get?
  enums : r.enums.get? = s.enums.get?
  files : ∀ path, (r.files.get? path).map File.withoutAlias =
    (s.files.get? path).map File.withoutAlias
  targets : r.targets = s.targets
  pathStart : r.pathStart = s.pathStart
  packageMap : r.packageMap = s.packageMap
  standalone : r.standalone = s.standalone
  useJsonNames : r.useJsonNames = s.useJsonNames
  depth : r.depth = s.depth

theorem Agree.refl (r : Registry) : Agree r r :=
  ⟨rfl, rfl, fun _ => rfl, rfl, rfl, rfl, rfl, rfl, rfl⟩

theorem Agree.trans {r s t : Registry} (h : Agree r s) (h' : Agree s t) : Agree r t :=
  ⟨h.messages.trans h'.messages, h.enums.trans h'.enums,
    fun path => (h.files path).trans (h'.files path), h.targets.trans h'.targets,
    h.pathStart.trans h'.pathStart, h.packageMap.trans h'.packageMap,
    h.standalone.trans h'.standalone, h.useJsonNames.trans h'.useJsonNames,
    h.depth.trans h'.depth⟩

/-! ## Registering files -/

theorem withoutAlias_entryFor (r : Registry) (d : FileDecl) :
    (r.entryFor d).withoutAlias =
      { decl := d
        package := ⟨r.packagePath d, lastSegment (r.packagePath d), none⟩
        outputName := Text.dropSuffix d.name schemaExtension
        messages := d.messageEntries.map Prod.fst
        enums := d.enumEntries.map Prod.fst
        services := [] } := rfl

theorem packagePath_congr {r s : Registry} (hstart : r.pathStart = s.pathStart)
    (hmap : r.packageMap = s.packageMap) (d : FileDecl) : r.packagePath d = s.packagePath d := by
  unfold packagePath
  rw [hstart, hmap]

theorem Agree.withoutAlias_entryFor {r s : Registry} (h : Agree r s) (d : FileDecl) :
    (r.entryFor d).withoutAlias = (s.entryFor d).withoutAlias := by
  rw [Registry.withoutAlias_entryFor, Registry.withoutAlias_entryFor,
    packagePath_congr h.pathStart h.packageMap]

/-- Registering a file leaves alone what package paths are made of. -/
theorem withoutAlias_entryFor_loadFile (r : Registry) (d e : FileDecl) :
    ((r.loadFile d).entryFor e).withoutAlias = (r.entryFor e).withoutAlias := by
  have hpath : (r.loadFile d).packagePath e = r.packagePath e := packagePath_congr rfl rfl e
  rw [withoutAlias_entryFor, withoutAlias_entryFor, hpath]

/-- What is found of a file, its alias aside, after a file was registered. -/
theorem withoutAlias_get?_loadFile (r : Registry) (d : FileDecl) (path : String) :
    ((r.loadFile d).files.get? path).map File.withoutAlias =
      if path = d.name then some (r.entryFor d).withoutAlias
      else (r.files.get? path).map File.withoutAlias := by
  rw [loadFile_files, Table.get?_insert]
  split <;> rfl

theorem Agree.loadFile {r s : Registry} (h : Agree r s) (d : FileDecl) :
    Agree (r.loadFile d) (s.loadFile d) where
  messages := by
    funext name
    rw [loadFile_messages, loadFile_messages]
    exact Table.get?_fill_congr (congrFun h.messages name) _
  enums := by
    funext name
    rw [loadFile_enums, loadFile_enums]
    exact Table.get?_fill_congr (congrFun h.enums name) _
  files := by
    intro path
    rw [withoutAlias_get?_loadFile, withoutAlias_get?_loadFile, h.files path,
      h.withoutAlias_entryFor d]
  targets := h.targets
  pathStart := h.pathStart
  packageMap := h.packageMap
  standalone := h.standalone
  useJsonNames := h.useJsonNames
  depth := h.depth

/-- Files that have nothing in common may be registered in either order. -/
theorem agree_loadFile_comm (r : Registry) {d e : FileDecl} (h : d.Apart e) :
    Agree ((r.loadFile d).loadFile e) ((r.loadFile e).loadFile d) where
  messages := by
    funext name
    simp only [loadFile_messages]
    exact Table.get?_fill_comm _ h.messages name
  enums := by
    funext name
    simp only [loadFile_enums]
    exact Table.get?_fill_comm _ h.enums name
  files := by
    intro path
    simp only [withoutAlias_get?_loadFile]
    rw [withoutAlias_entryFor_loadFile, withoutAlias_entryFor_loadFile]
    by_cases hpd : path = d.name
    · have hpe : path ≠ e.name := hpd ▸ h.name
      rw [if_neg hpe, if_pos hpd, if_pos hpd]
    · rw [if_neg hpd, if_neg hpd]
  targets := rfl
  pathStart := rfl
  packageMap := rfl
  standalone := rfl
  useJsonNames := rfl
  depth := rfl

theorem Agree.loadFiles {r s : Registry} (h : Agree r s) (ds : List FileDecl) :
    Agree (r.loadFiles ds) (s.loadFiles ds) := by
  induction ds generalizing r s with
  | nil => exact h
  | cons d ds ih => exact ih (h.loadFile d)

theorem agree_loadFiles_of_perm {ds ds' : List FileDecl} (hp : ds.Perm ds')
    (h : ds.Pairwise FileDecl.Apart) (r : Registry) :
    Agree (r.loadFiles ds) (r.loadFiles ds') := by
  induction hp generalizing r with
  | nil => exact .refl r
  | cons d _ ih => exact ih (List.pairwise_cons.mp h).2 (r.loadFile d)
  | swap d e ds =>
    have hde : e.Apart d := (List.pairwise_cons.mp h).1 d List.mem_cons_self
    exact (agree_loadFile_comm r hde).loadFiles ds
  | trans hp _ ih ih' =>
    exact (ih h r).trans (ih' (hp.pairwise h FileDecl.Apart.symm) r)

/-! ## Loading services -/

/-- Loading the services of a file ends in the same way in registries that agree. -/
theorem Agree.loadServices {r s : Registry} (h : Agree r s) (path : String) :
    (∃ e, r.loadServices path = .error e ∧ s.loadServices path = .error e) ∨
      ∃ r' s', r.loadServices path = .ok r' ∧ s.loadServices path = .ok s' ∧ Agree r' s' := by
  have hfile := h.files path
  cases hf : r.files.get? path with
  | none =>
    rw [hf] at hfile
    have hg : s.files.get? path = none := Option.map_eq_none_iff.mp hfile.symm
    left
    refine ⟨.lookup (.fileNotFound path), ?_, ?_⟩
    · simp only [Registry.loadServices, lookupFile, hf]
    · simp only [Registry.loadServices, lookupFile, hg]
  | some f =>
    rw [hf] at hfile
    obtain ⟨g, hg, hgf⟩ := Option.map_eq_some_iff.mp hfile.symm
    have hdecl : g.decl = f.decl := by
      rw [← g.withoutAlias_decl, hgf, f.withoutAlias_decl]
    cases hs : r.resolveServices f.decl with
    | error e =>
      left
      have hs' : s.resolveServices g.decl = .error e := by
        rw [← resolveServices_congr h.messages, hdecl, hs]
      refine ⟨e, ?_, ?_⟩
      · simp only [Registry.loadServices, lookupFile, hf, hs]
        rfl
      · simp only [Registry.loadServices, lookupFile, hg, hs']
        rfl
    | ok services =>
      right
      have hs' : s.resolveServices g.decl = .ok services := by
        rw [← resolveServices_congr h.messages, hdecl, hs]
      refine ⟨_, _, loadServices_eq_ok_iff.mpr ⟨f, services, hf, hs, rfl⟩,
        loadServices_eq_ok_iff.mpr ⟨g, services, hg, hs', rfl⟩, ?_⟩
      have hnew : ({ f with services := services } : File).withoutAlias =
          ({ g with services := services } : File).withoutAlias :=
        congrArg (fun k : File => { k with services := services }) hgf.symm
      refine ⟨h.messages, h.enums, ?_, h.targets, h.pathStart, h.packageMap, h.standalone,
        h.useJsonNames, h.depth⟩
      intro p
      rw [Table.get?_insert, Table.get?_insert]
      split
      · rw [Option.map_some, Option.map_some, hnew]
      · exact h.files p

theorem Agree.addTarget {r s : Registry} (h : Agree r s) (path : String) :
    Agree (r.addTarget path) (s.addTarget path) := by
  unfold Registry.addTarget
  rw [← h.targets]
  split
  · exact h
  · exact ⟨h.messages, h.enums, h.files, rfl, h.pathStart, h.packageMap, h.standalone,
      h.useJsonNames, h.depth⟩

/-- Loading targets ends in the same way in registries that agree, and they still agree then. -/
theorem Agree.loadTargets {r s : Registry} (h : Agree r s) (targets : List String) :
    (r.loadTargets targets).2 = (s.loadTargets targets).2 ∧
      Agree (r.loadTargets targets).1 (s.loadTargets targets).1 := by
  induction targets generalizing r s with
  | nil => exact ⟨rfl, h⟩
  | cons path rest ih =>
    unfold Registry.loadTargets
    rcases h.loadServices path with ⟨e, hr, hs⟩ | ⟨r', s', hr, hs, h'⟩
    · rw [hr, hs]
      exact ⟨rfl, h⟩
    · rw [hr, hs]
      exact ih (h'.addTarget path)

/-- Files whose paths, messages and enums all have different names may be loaded in any order: the
load succeeds or fails in the same way, and leaves the same tables, targets and files but for the
aliases of packages. -/
theorem agree_load_of_perm (r : Registry) {ds ds' : List FileDecl} (hp : ds.Perm ds')
    (hnames : (ds.map FileDecl.name).Nodup)
    (hmessages : ((ds.flatMap FileDecl.messageEntries).map Prod.fst).Nodup)
    (henums : ((ds.flatMap FileDecl.enumEntries).map Prod.fst).Nodup) (targets : List String) :
    (r.load ds targets).2 = (r.load ds' targets).2 ∧
      Agree (r.load ds targets).1 (r.load ds' targets).1 :=
  (agree_loadFiles_of_perm hp (FileDecl.pairwise_apart hnames hmessages henums) r).loadTargets
    targets

/-! ## A service whose types are declared in another file -/

/-- A file of the package `a.pb` with a service over a message of another file. -/
def callerFile : FileDecl where
  name := "a/pb/caller.proto"
  package := "a.pb"
  services := [⟨"Caller", [{ name := "Call", input := ".b.pb.M", output := ".b.pb.M" }], {}⟩]

/-- A file of the package `b.pb` with that message. -/
def calledFile : FileDecl where
  name := "b/pb/called.proto"
  package := "b.pb"
  messages := [{ name := "M" }]

/-- The identifier of a loaded file. -/
def identifier? (r : Registry) (path : String) : Option String :=
  (r.files.get? path).map fun f => f.package.identifier

theorem agree_load_of_perm_forward_reference :
    let load (ds : List FileDecl) := empty.load ds [callerFile.name]
    [callerFile, calledFile].Perm [calledFile, callerFile] ∧
    ([callerFile, calledFile].map FileDecl.name).Nodup ∧
    (([callerFile, calledFile].flatMap FileDecl.messageEntries).map Prod.fst).Nodup ∧
    (([callerFile, calledFile].flatMap FileDecl.enumEntries).map Prod.fst).Nodup ∧
    (load [callerFile, calledFile]).2 = .ok () ∧
    (load [callerFile, calledFile]).2 = (load [calledFile, callerFile]).2 ∧
    Agree (load [callerFile, calledFile]).1 (load [calledFile, callerFile]).1 ∧
    (load [callerFile, calledFile]).1.identifier? callerFile.name = some "pb" ∧
    (load [calledFile, callerFile]).1.identifier? callerFile.name = some "pb_0" := by
  intro load
  have hp : [callerFile, calledFile].Perm [calledFile, callerFile] := .swap _ _ _
  have hnames : ([callerFile, calledFile].map FileDecl.name).Nodup := by decide
  have hmessages : (([callerFile, calledFile].flatMap FileDecl.messageEntries).map
      Prod.fst).Nodup := by decide +kernel
  have henums : (([callerFile, calledFile].flatMap FileDecl.enumEntries).map
      Prod.fst).Nodup := by decide +kernel
  obtain ⟨hresult, hagree⟩ :=
    agree_load_of_perm empty hp hnames hmessages henums [callerFile.name]
  exact ⟨hp, hnames, hmessages, henums, rfl, hresult, hagree, by decide +kernel,
    by decide +kernel⟩

end Registry

end RpcGateway.Schema
