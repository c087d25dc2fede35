import RpcGateway.Proofs.Collections
import RpcGateway.Proofs.Schema.FreeAlias
import RpcGateway.Schema.Services

/-!
What can happen to a registry. Every operation is made of a few single changes: a file is registered,
the services of a file are stored, a target is added, an alias is bound, or a setting is made. A
property that each of them keeps is kept by every history.
-/
namespace RpcGateway.Schema

/-- The files that an operation registers. -/
def Operation.files : Operation → List FileDecl
  | .load files _ => files
  | .loadAll files => files
  | _ => []

namespace Registry

/-! ## Registering a file -/

/-- The identifier that the package of a file is given. -/
def identifierFor (r : Registry) (d : FileDecl) : String :=
  r.freeAlias (r.wantedAlias (lastSegment (r.packagePath d))) (r.packagePath d)

/-- The file that is stored for a declaration. -/
def entryFor (r : Registry) (d : FileDecl) : File where
  decl := d
  package := (r.assignPackage d).1
  outputName := Text.dropSuffix d.name schemaExtension
  messages := d.messageEntries.map Prod.fst
  enums := d.enumEntries.map Prod.fst
  services := []

@[simp] theorem entryFor_path (r : Registry) (d : FileDecl) :
    (r.entryFor d).package.path = r.packagePath d := rfl

@[simp] theorem entryFor_identifier (r : Registry) (d : FileDecl) :
    (r.entryFor d).package.identifier = r.identifierFor d := by
  have hp : (r.entryFor d).package = ⟨r.packagePath d, lastSegment (r.packagePath d),
      if r.identifierFor d = lastSegment (r.packagePath d) then none
      else some (r.identifierFor d)⟩ := rfl
  rw [hp, Package.identifier]
  by_cases h : r.identifierFor d = lastSegment (r.packagePath d)
  · rw [if_pos h, h]
    rfl
  · rw [if_neg h]
    rfl

/-- All that registering a file changes. -/
theorem loadFile_eq (r : Registry) (d : FileDecl) :
    r.loadFile d =
      { r with
        aliases := r.aliases.insert (r.identifierFor d) (r.packagePath d)
        messages := insertAll r.messages d.messageEntries
        enums := insertAll r.enums d.enumEntries
        files := r.files.insert d.name (r.entryFor d) } := rfl

@[simp] theorem loadFile_files (r : Registry) (d : FileDecl) :
    (r.loadFile d).files = r.files.insert d.name (r.entryFor d) := by
  rw [loadFile_eq]

@[simp] theorem loadFile_messages (r : Registry) (d : FileDecl) :
    (r.loadFile d).messages = insertAll r.messages d.messageEntries := by
  rw [loadFile_eq]

@[simp] theorem loadFile_enums (r : Registry) (d : FileDecl) :
    (r.loadFile d).enums = insertAll r.enums d.enumEntries := by
  rw [loadFile_eq]

@[simp] theorem loadFile_aliases (r : Registry) (d : FileDecl) :
    (r.loadFile d).aliases = r.aliases.insert (r.identifierFor d) (r.packagePath d) := by
  rw [loadFile_eq]

@[simp] theorem loadFile_targets (r : Registry) (d : FileDecl) :
    (r.loadFile d).targets = r.targets := by
  rw [loadFile_eq]

@[simp] theorem loadFile_standalone (r : Registry) (d : FileDecl) :
    (r.loadFile d).standalone = r.standalone := by
  rw [loadFile_eq]

/-! ## Storing services and targets -/

theorem lookupFile_eq_ok_iff {r : Registry} {path : String} {f : File} :
    r.lookupFile path = .ok f ↔ r.files.get? path = some f := by
  unfold lookupFile
  cases r.files.get? path <;> simp

theorem loadServices_of_absent {r : Registry} {path : String} (h : r.files.get? path = none) :
    r.loadServices path = .error (.lookup (.fileNotFound path)) := by
  rw [loadServices, lookupFile, h]

theorem loadServices_of_stored {r : Registry} {path : String} {f : File}
    (h : r.files.get? path = some f) :
    r.loadServices path = (r.resolveServices f.decl).map fun services =>
      { r with files := r.files.insert path { f with services := services } } := by
  rw [loadServices, lookupFile, h]
  show (r.resolveServices f.decl >>= _) = _
  cases r.resolveServices f.decl <;> rfl

/-- All that loading the services of a file changes. -/
theorem loadServices_eq_ok_iff {r s : Registry} {path : String} :
    r.loadServices path = .ok s ↔
      ∃ f services, r.files.get? path = some f ∧ r.resolveServices f.decl = .ok services ∧
        s = { r with files := r.files.insert path { f with services := services } } := by
  unfold loadServices
  constructor
  · intro h
    split at h
    · cases h
    · next f hf =>
      obtain ⟨services, hs, h⟩ := exists_of_bind_eq_ok h
      cases h
      exact ⟨f, services, lookupFile_eq_ok_iff.mp hf, hs, rfl⟩
  · rintro ⟨f, services, hget, hs, rfl⟩
    rw [lookupFile_eq_ok_iff.mpr hget]
    show (r.resolveServices f.decl >>= _) = _
    rw [hs]
    rfl

@[simp] theorem addTarget_files (r : Registry) (path : String) :
    (r.addTarget path).files = r.files := by
  unfold addTarget
  split <;> rfl

@[simp] theorem addTarget_messages (r : Registry) (path : String) :
    (r.addTarget path).messages = r.messages := by
  unfold addTarget
  split <;> rfl

@[simp] theorem addTarget_enums (r : Registry) (path : String) :
    (r.addTarget path).enums = r.enums := by
  unfold addTarget
  split <;> rfl

@[simp] theorem addTarget_aliases (r : Registry) (path : String) :
    (r.addTarget path).aliases = r.aliases := by
  unfold addTarget
  split <;> rfl

theorem addTarget_targets (r : Registry) (path : String) :
    (r.addTarget path).targets = if path ∈ r.targets then r.targets else r.targets ++ [path] := by
  unfold addTarget
  by_cases h : path ∈ r.targets <;> simp [h]

/-! ## Whole operations -/

/-- A property of registries that every single change keeps, as long as the registered files are
among those that `admits` holds of. -/
structure Kept (admits : FileDecl → Prop) (P : Registry → Prop) : Prop where
  loadFile : ∀ {r : Registry} {d : FileDecl}, admits d → P r → P (r.loadFile d)
  loadServices : ∀ {r s : Registry} {path : String}, r.loadServices path = .ok s → P r → P s
  addTarget : ∀ {r : Registry} {path : String},
    (r.files.get? path).isSome → P r → P (r.addTarget path)
  bindAlias : ∀ {r : Registry} {name path : String}, r.isFree name path = true → P r →
    P { r with aliases := r.aliases.insert name path }
  settings : ∀ {r : Registry} (pathStart : String) (packageMap : Table String)
    (standalone useJsonNames : Bool) (depth : Nat), P r →
    P { r with
      pathStart := pathStart
      packageMap := packageMap
      standalone := standalone
      useJsonNames := useJsonNames
      depth := depth }

namespace Kept
variable {admits : FileDecl → Prop} {P : Registry → Prop}

theorem loadFiles (hP : Kept admits P) {ds : List FileDecl} (hd : ∀ d ∈ ds, admits d)
    {r : Registry} (hr : P r) : P (r.loadFiles ds) := by
  induction ds generalizing r with
  | nil => exact hr
  | cons d ds ih =>
    exact ih (fun d' h => hd d' (List.mem_cons_of_mem _ h))
      (hP.loadFile (hd d List.mem_cons_self) hr)

theorem loadTargets (hP : Kept admits P) (targets : List String) {r : Registry} (hr : P r) :
    P (r.loadTargets targets).1 := by
  induction targets generalizing r with
  | nil => exact hr
  | cons path rest ih =>
    unfold Registry.loadTargets
    cases hs : r.loadServices path with
    | error e => exact hr
    | ok s =>
      obtain ⟨f, services, -, -, rfl⟩ := loadServices_eq_ok_iff.mp hs
      exact ih (hP.addTarget (by simp) (hP.loadServices hs hr))

theorem load (hP : Kept admits P) {ds : List FileDecl} (hd : ∀ d ∈ ds, admits d)
    (targets : List String) {r : Registry} (hr : P r) : P (r.load ds targets).1 :=
  hP.loadTargets targets (hP.loadFiles hd hr)

theorem reserveAlias (hP : Kept admits P) (name path : String) {r : Registry} (hr : P r) :
    P ((r.reserveAlias name path).toOption.getD r) := by
  unfold Registry.reserveAlias
  cases hg : r.aliases.get? name with
  | none => exact hP.bindAlias (isFree_iff.mpr (by simp [hg])) hr
  | some holder =>
    simp only
    split <;> exact hr

/-- An operation keeps what its single changes keep, whether it succeeds or fails. -/
theorem apply (hP : Kept admits P) {op : Operation} (hop : ∀ d ∈ op.files, admits d)
    {r : Registry} (hr : P r) : P (r.apply op) := by
  cases op with
  | load files targets => exact hP.load hop targets hr
  | loadAll files => exact hP.load hop _ hr
  | loadServices path =>
    show P ((r.loadServices path).toOption.getD r)
    cases hs : r.loadServices path with
    | error e => exact hr
    | ok s => exact hP.loadServices hs hr
  | reserveAlias name path => exact hP.reserveAlias name path hr
  | allocateAlias name path => exact hP.bindAlias (isFree_freeAlias r name path) hr
  | mapPackage file path => exact hP.settings _ _ _ _ _ hr
  | setPathStart value => exact hP.settings _ _ _ _ _ hr
  | setStandalone value => exact hP.settings _ _ _ _ _ hr
  | setUseJsonNames value => exact hP.settings _ _ _ _ _ hr
  | setDepth value => exact hP.settings _ _ _ _ _ hr

theorem after (hP : Kept admits P) {history : List Operation}
    (hh : ∀ op ∈ history, ∀ d ∈ op.files, admits d) {r : Registry} (hr : P r) :
    P (r.after history) := by
  induction history generalizing r with
  | nil => exact hr
  | cons op rest ih =>
    exact ih (fun op' h => hh op' (List.mem_cons_of_mem _ h))
      (hP.apply (hh op List.mem_cons_self) hr)

end Kept

/-- What any history keeps, whichever files it loads. -/
theorem Kept.always {P : Registry → Prop} (hP : Kept (fun _ => True) P) {r : Registry} (hr : P r)
    (history : List Operation) : P (r.after history) :=
  hP.after (fun _ _ _ _ => trivial) hr

/-- What is known of a file but for its services is kept until the file is registered again. -/
theorem kept_view {β : Type} {view : File → β}
    (hview : ∀ f services, view { f with services := services } = view f) (o : Option β)
    (path : String) :
    Kept (fun d => d.name ≠ path) (fun r => (r.files.get? path).map view = o) where
  loadFile := by
    intro r d hd h
    rw [loadFile_files, Table.get?_insert_of_ne _ _ hd.symm]
    exact h
  loadServices := by
    intro r s p hs h
    obtain ⟨f, services, hf, -, rfl⟩ := loadServices_eq_ok_iff.mp hs
    show ((r.files.insert p { f with services := services }).get? path).map view = o
    rw [Table.get?_insert]
    split
    · next hp =>
      rw [hp, hf] at h
      rw [Option.map_some, hview]
      exact h
    · exact h
  addTarget := by
    intro r p _ h
    rw [addTarget_files]
    exact h
  bindAlias := fun _ h => h
  settings := fun _ _ _ _ _ h => h

theorem after_append (r : Registry) (h h' : List Operation) :
    r.after (h ++ h') = (r.after h).after h' := List.foldl_append

end Registry

end RpcGateway.Schema
