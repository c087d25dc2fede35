import RpcGateway.Proofs.Schema.Targets

/-!
The methods that files declare, and those that a registry has for them. Once files of different
names are loaded with each of them as a target, the methods of the targets are all that the files
declare, in the order of the declarations.
-/
namespace RpcGateway.Schema

/-- A method as a file declares it, with the names of its service. -/
structure DeclaredMethod where
  service : String
  serviceFullName : String
  decl : MethodDecl
  deriving DecidableEq, Repr

namespace DeclaredMethod

def name (m : DeclaredMethod) : String := m.decl.name

/-- The name under which the method is called. -/
def rpcName (m : DeclaredMethod) : String := m.service ++ "." ++ m.name

def isStreaming (m : DeclaredMethod) : Bool := m.decl.clientStreaming || m.decl.serverStreaming

end DeclaredMethod

/-- All methods that a file declares, service by service. -/
def FileDecl.methods (d : FileDecl) : List DeclaredMethod :=
  d.services.flatMap fun s => s.methods.map fun m => ⟨s.name, serviceFullName d.package s.name, m⟩

/-- The methods of a file's loaded services. -/
def File.methods (f : File) : List Method := f.services.flatMap Service.methods

/-- What the declarations say of a resolved method. -/
def Method.declared (m : Method) : DeclaredMethod := ⟨m.service, m.serviceFullName, m.decl⟩

namespace Registry

/-! ## Resolved services -/

theorem declared_of_resolveService {r : Registry} {file package : String} {sd : ServiceDecl}
    {s : Service} (h : r.resolveService file package sd = .ok s) :
    s.methods.map Method.declared =
      sd.methods.map fun m => ⟨sd.name, serviceFullName package sd.name, m⟩ := by
  obtain ⟨ms, hms, h⟩ := exists_of_bind_eq_ok h
  cases h
  refine map_eq_map_of_mapM_eq_ok (fun md m hm => ?_) hms
  obtain ⟨hdecl, hservice, hfull⟩ := resolveMethod_eq_ok hm
  rw [Method.declared, hdecl, hservice, hfull]

/-- The services of a file have all methods that it declares: one that is left out has none. -/
theorem declared_of_resolveServices {r : Registry} {d : FileDecl} {services : List Service}
    (h : r.resolveServices d = .ok services) :
    (services.flatMap Service.methods).map Method.declared = d.methods := by
  obtain ⟨all, hall, h⟩ := exists_of_bind_eq_ok h
  cases h
  have hkept : (all.filter fun s => !s.methods.isEmpty).flatMap Service.methods =
      all.flatMap Service.methods := by
    have hfilter : (all.filter fun s => !s.methods.isEmpty).map Service.methods =
        (all.map Service.methods).filter fun ms => !ms.isEmpty := by
      rw [List.filter_map]
      rfl
    rw [List.flatMap_def, List.flatMap_def, hfilter, List.flatten_filter_not_isEmpty]
  rw [hkept, List.map_flatMap, List.flatMap_def, FileDecl.methods, List.flatMap_def,
    map_eq_map_of_mapM_eq_ok (fun _ _ hs => declared_of_resolveService hs) hall]

/-! ## Targets -/

/-- All targets are stored with the services that their declarations are resolved to. -/
def TargetsLoaded (r : Registry) : Prop :=
  ∀ path ∈ r.targets, ∃ f, r.files.get? path = some f ∧ r.resolveServices f.decl = .ok f.services

/-- Loading the services of a target leaves alone what services are resolved against. -/
theorem resolveServices_of_loadServices {r s : Registry} {path : String}
    (hs : r.loadServices path = .ok s) (d : FileDecl) :
    (s.addTarget path).resolveServices d = r.resolveServices d := by
  obtain ⟨f, services, -, -, rfl⟩ := loadServices_eq_ok_iff.mp hs
  exact resolveServices_congr (by rw [addTarget_messages]) d

theorem TargetsLoaded.addTarget {r s : Registry} {path : String} (h : r.TargetsLoaded)
    (hs : r.loadServices path = .ok s) : (s.addTarget path).TargetsLoaded := by
  intro p hp
  simp only [resolveServices_of_loadServices hs]
  obtain ⟨f, services, -, hresolved, rfl⟩ := loadServices_eq_ok_iff.mp hs
  rw [addTarget_files, Table.get?_insert]
  rcases (mem_targets_addTarget _ path p).mp hp with hpath | hold
  · rw [if_pos hpath]
    exact ⟨_, rfl, hresolved⟩
  · split
    · exact ⟨_, rfl, hresolved⟩
    · exact h p hold

theorem TargetsLoaded.loadTargets {r : Registry} (h : r.TargetsLoaded) (targets : List String) :
    (r.loadTargets targets).1.TargetsLoaded := by
  induction targets generalizing r with
  | nil => exact h
  | cons path rest ih =>
    rw [Registry.loadTargets]
    cases hs : r.loadServices path with
    | error e => exact h
    | ok s => exact ih (h.addTarget hs)

/-- A run through new and different targets that succeeds adds all of them in order. -/
theorem targets_of_loadTargets {r s : Registry} {targets : List String} (hnodup : targets.Nodup)
    (hnew : ∀ path ∈ targets, path ∉ r.targets) (h : r.loadTargets targets = (s, .ok ())) :
    s.targets = r.targets ++ targets := by
  induction targets generalizing r with
  | nil =>
    cases h
    exact (List.append_nil _).symm
  | cons path rest ih =>
    rw [Registry.loadTargets] at h
    cases hs : r.loadServices path with
    | error e =>
      rw [hs] at h
      cases h
    | ok next =>
      rw [hs] at h
      obtain ⟨f, services, -, -, rfl⟩ := loadServices_eq_ok_iff.mp hs
      obtain ⟨hpath, hrest⟩ := List.forall_mem_cons.mp hnew
      rw [List.nodup_cons] at hnodup
      have hadded := addTarget_targets
        { r with files := r.files.insert path { f with services := services } } path
      rw [if_neg hpath] at hadded
      rw [ih hnodup.2 ?_ h, hadded, List.append_assoc, List.singleton_append]
      intro p hp hmem
      rw [hadded] at hmem
      rcases List.mem_append.mp hmem with hmem | hmem
      · exact hrest p hp hmem
      · exact hnodup.1 (List.mem_singleton.mp hmem ▸ hp)

/-! ## Loading files as targets -/

/-- Of files with different names, each is stored. -/
theorem decl_loadFiles {ds : List FileDecl} (hnames : (ds.map FileDecl.name).Nodup) {d : FileDecl}
    (hd : d ∈ ds) (r : Registry) : ((r.loadFiles ds).files.get? d.name).map File.decl = some d := by
  induction ds generalizing r with
  | nil => cases hd
  | cons e ds ih =>
    rw [List.map_cons, List.nodup_cons] at hnames
    rcases List.mem_cons.mp hd with rfl | hd
    · have hlater : ∀ d' ∈ ds, d'.name ≠ d.name := fun d' hd' hname =>
        hnames.1 (hname ▸ List.mem_map_of_mem hd')
      refine (kept_view (fun _ _ => rfl) _ d.name).loadFiles hlater ?_
      rw [loadFile_files, Table.get?_insert_self]
      rfl
    · exact ih hnames.2 hd (r.loadFile e)

section LoadAll
variable {r s : Registry} {ds : List FileDecl} (hnames : (ds.map FileDecl.name).Nodup)
  (hfresh : r.targets = []) (h : r.loadAll ds = (s, .ok ()))
include hnames hfresh h

theorem decl_targetFiles : s.targetFiles.map File.decl = ds := by
  have hloaded : (r.loadFiles ds).loadTargets (ds.map FileDecl.name) = (s, .ok ()) := h
  have hnone : (r.loadFiles ds).targets = [] := by rw [loadFiles_targets, hfresh]
  have htargets : s.targets = ds.map FileDecl.name := by
    rw [targets_of_loadTargets hnames (by simp [hnone]) hloaded, hnone, List.nil_append]
  have hstored : ∀ d ∈ ds, (s.files.get? d.name).map File.decl = some d := by
    intro d hd
    have hkept := (kept_view (fun _ _ => rfl) (some d) d.name).loadTargets
      (ds.map FileDecl.name) (decl_loadFiles hnames hd r)
    rwa [hloaded] at hkept
  rw [targetFiles, htargets, List.map_filterMap, List.filterMap_map]
  exact (List.filterMap_congr hstored).trans List.filterMap_some

/-- The methods of the target files are the declared ones, in order. -/
theorem declared_targetFiles :
    (s.targetFiles.flatMap File.methods).map Method.declared = ds.flatMap FileDecl.methods := by
  have hloaded : s.TargetsLoaded := by
    have hstart : (r.loadFiles ds).TargetsLoaded := by
      intro path hpath
      rw [loadFiles_targets, hfresh] at hpath
      cases hpath
    have hend := hstart.loadTargets (ds.map FileDecl.name)
    rwa [show (r.loadFiles ds).loadTargets (ds.map FileDecl.name) = (s, .ok ()) from h] at hend
  have hfile : ∀ f ∈ s.targetFiles, f.methods.map Method.declared = f.decl.methods := by
    intro f hf
    obtain ⟨path, hpath, hget⟩ := List.mem_filterMap.mp hf
    obtain ⟨g, hg, hresolved⟩ := hloaded path hpath
    cases hget.symm.trans hg
    exact declared_of_resolveServices hresolved
  rw [List.map_flatMap, List.flatMap_congr hfile, ← decl_targetFiles hnames hfresh h,
    List.flatMap_map]

end LoadAll

/-! ## All stored files -/

def storedFiles (r : Registry) : List File := r.files.entries.map Prod.snd

/-- The methods of all loaded services. -/
def methods (r : Registry) : List Method := r.storedFiles.flatMap File.methods

theorem kept_nodup_files : Kept (fun _ => True) fun r => r.files.names.Nodup where
  loadFile := by
    intro r d _ h
    rw [loadFile_files]
    exact Table.nodup_names_insert _ _ h
  loadServices := by
    intro r s path hs h
    obtain ⟨f, services, -, -, rfl⟩ := loadServices_eq_ok_iff.mp hs
    exact Table.nodup_names_insert _ _ h
  addTarget := by
    intro r path _ h
    rw [addTarget_files]
    exact h
  bindAlias := fun _ h => h
  settings := fun _ _ _ _ _ h => h

/-- After any history the files are stored under different names. -/
theorem nodup_files_after (history : List Operation) :
    (empty.after history).files.names.Nodup := by
  have hempty : empty.files.names.Nodup := List.nodup_nil
  exact kept_nodup_files.always hempty history

theorem exists_of_mem_storedFiles {r : Registry} (h : r.files.names.Nodup) {f : File}
    (hf : f ∈ r.storedFiles) : ∃ path, r.files.get? path = some f := by
  obtain ⟨⟨path, g⟩, hmem, rfl⟩ := List.mem_map.mp hf
  exact ⟨path, Table.get?_of_mem_entries h hmem⟩

theorem Consistent.names_storedFiles {r : Registry} (hr : r.Consistent)
    (h : r.files.names.Nodup) : r.storedFiles.map File.name = r.files.names := by
  rw [storedFiles, List.map_map]
  refine List.map_congr_left ?_
  rintro ⟨path, f⟩ hmem
  exact hr.fileNames path f (Table.get?_of_mem_entries h hmem)

end Registry

/-- The methods of a file with resolved services are declared in it. -/
theorem File.Resolved.exists_declaration {f : File} (h : f.Resolved) {m : Method}
    (hm : m ∈ f.methods) : ∃ s ∈ f.decl.services, m.decl ∈ s.methods ∧
      m.serviceFullName = serviceFullName f.decl.package s.name := by
  obtain ⟨s, hs, hm⟩ := List.mem_flatMap.mp hm
  have hresolved := h.services s hs
  refine ⟨s.decl, h.declared.subset (List.mem_map_of_mem hs), ?_, ?_⟩
  · rw [← hresolved.methods]
    exact List.mem_map_of_mem hm
  · rw [(hresolved.names m hm).2, Service.fullName, hresolved.package, Service.name]

end RpcGateway.Schema
