import RpcGateway.Proofs.Schema.Entries
import RpcGateway.Proofs.Schema.Identifiers
import RpcGateway.Proofs.Schema.Resolution

/-!
Loading the same files twice in a row. The second load inserts under each name what the first one
did: the packages find their aliases bound, and the services are resolved against the same messages.
So it ends in the same way, and nothing is changed by it.
-/
namespace RpcGateway.Schema

def File.withoutServices (f : File) : File := { f with services := [] }

@[simp] theorem File.withoutServices_decl (f : File) : f.withoutServices.decl = f.decl := rfl

/-- The alias of a stored file with the package that holds it. -/
def aliasEntry (e : String × File) : String × String :=
  (e.2.package.identifier, e.2.package.path)

/-- Targets with more of them, each at its first place. -/
def withTargets (targets more : List String) : List String :=
  more.foldl (fun ts path => if path ∈ ts then ts else ts ++ [path]) targets

theorem mem_withTargets {targets more : List String} {path : String} :
    path ∈ withTargets targets more ↔ path ∈ targets ∨ path ∈ more := by
  induction more generalizing targets with
  | nil => simp [withTargets]
  | cons p more ih =>
    rw [withTargets, List.foldl_cons, ← withTargets, ih]
    split <;> grind

theorem withTargets_of_subset {targets more : List String} (h : ∀ path ∈ more, path ∈ targets) :
    withTargets targets more = targets := by
  induction more with
  | nil => rfl
  | cons p more ih =>
    obtain ⟨hp, hmore⟩ := List.forall_mem_cons.mp h
    rw [withTargets, List.foldl_cons, if_pos hp]
    exact ih hmore

namespace Registry

theorem insertAll_append {α : Type} (t : Table α) (xs ys : List (String × α)) :
    insertAll t (xs ++ ys) = insertAll (insertAll t xs) ys := List.foldl_append

theorem insertAll_insertAll {α : Type} (t : Table α) (xs : List (String × α)) :
    insertAll (insertAll t xs) xs = insertAll t xs := Table.fill_fill_self t xs

/-! ## Registering files -/

/-- The entries that files make in the table of files, one after the other. -/
def fileEntries (r : Registry) : List FileDecl → List (String × File)
  | [] => []
  | d :: ds => (d.name, r.entryFor d) :: (r.loadFile d).fileEntries ds

theorem map_fst_fileEntries (r : Registry) (ds : List FileDecl) :
    (r.fileEntries ds).map Prod.fst = ds.map FileDecl.name := by
  induction ds generalizing r with
  | nil => rfl
  | cons d ds ih => rw [fileEntries, List.map_cons, ih, List.map_cons]

/-- All that registering files changes. -/
theorem loadFiles_eq (r : Registry) (ds : List FileDecl) :
    r.loadFiles ds =
      { r with
        messages := insertAll r.messages (ds.flatMap FileDecl.messageEntries)
        enums := insertAll r.enums (ds.flatMap FileDecl.enumEntries)
        files := insertAll r.files (r.fileEntries ds)
        aliases := insertAll r.aliases ((r.fileEntries ds).map aliasEntry) } := by
  induction ds generalizing r with
  | nil => rfl
  | cons d ds ih =>
    have hfile : aliasEntry (d.name, r.entryFor d) = (r.identifierFor d, r.packagePath d) := by
      rw [aliasEntry, entryFor_identifier, entryFor_path]
    rw [loadFiles, List.foldl_cons, ← loadFiles, ih, fileEntries, List.map_cons, hfile,
      List.flatMap_cons, List.flatMap_cons, insertAll_append, insertAll_append]
    rfl

theorem entryFor_congr {r s : Registry} {d : FileDecl} (hpath : s.packagePath d = r.packagePath d)
    (hid : s.identifierFor d = r.identifierFor d) : s.entryFor d = r.entryFor d := by
  have hentry : ∀ t : Registry, t.entryFor d =
      { decl := d
        package := ⟨t.packagePath d, lastSegment (t.packagePath d),
          if t.identifierFor d = lastSegment (t.packagePath d) then none
          else some (t.identifierFor d)⟩
        outputName := Text.dropSuffix d.name schemaExtension
        messages := d.messageEntries.map Prod.fst
        enums := d.enumEntries.map Prod.fst
        services := [] } := fun _ => rfl
  rw [hentry, hentry, hpath, hid]

/-- In a registry that keeps the aliases of files and has the same settings, the files make the same
entries as they did. -/
theorem fileEntries_of_kept {r s : Registry} {ds : List FileDecl}
    (hk : AliasesKept (r.loadFiles ds) s) (hstart : s.pathStart = r.pathStart)
    (hmap : s.packageMap = r.packageMap) (hmode : s.standalone = r.standalone) :
    s.fileEntries ds = r.fileEntries ds := by
  induction ds generalizing r s with
  | nil => rfl
  | cons d ds ih =>
    have hrest : AliasesKept (r.loadFile d) s :=
      ((kept_aliasesKept _).loadFiles (fun _ _ => trivial) (.refl _)).trans hk
    have hpath : s.packagePath d = r.packagePath d := by
      unfold packagePath
      rw [hstart, hmap]
    have hid : s.identifierFor d = r.identifierFor d := by
      have hbound : (r.loadFile d).aliases.get? (r.identifierFor d) = some (r.packagePath d) := by
        rw [loadFile_aliases, Table.get?_insert_self]
      unfold identifierFor
      rw [hpath, wantedAlias_eq, hmode]
      exact freeAlias_of_kept ((aliasesKept_loadFile r d).trans hrest) (hrest _ _ hbound)
    rw [fileEntries, fileEntries, entryFor_congr hpath hid,
      ih (hk.trans (aliasesKept_loadFile s d)) hstart hmap hmode]

/-! ## Running through targets -/

/-- A registry with a file stored under its path, which is a target from then on. -/
def storeTarget (r : Registry) (e : String × File) : Registry :=
  { r with files := r.files.insert e.1 e.2 }.addTarget e.1

def storeTargets (r : Registry) (es : List (String × File)) : Registry := es.foldl storeTarget r

/-- All that storing targets changes. -/
theorem storeTargets_eq (r : Registry) (es : List (String × File)) :
    r.storeTargets es =
      { r with
        files := insertAll r.files es
        targets := withTargets r.targets (es.map Prod.fst) } := by
  induction es generalizing r with
  | nil => rfl
  | cons e es ih =>
    have hstep : r.storeTarget e =
        { r with
          files := r.files.insert e.1 e.2
          targets := if e.1 ∈ r.targets then r.targets else r.targets ++ [e.1] } := by
      unfold storeTarget addTarget
      by_cases h : e.1 ∈ r.targets <;> simp [h]
    rw [storeTargets, List.foldl_cons, ← storeTargets, ih, hstep]
    rfl

/-- Two registries with the same messages, and with the same files but for their services. -/
structure Alike (r s : Registry) : Prop where
  messages : r.messages.get? = s.messages.get?
  files : ∀ path, (r.files.get? path).map File.withoutServices =
    (s.files.get? path).map File.withoutServices

theorem Alike.refl (r : Registry) : Alike r r := ⟨rfl, fun _ => rfl⟩

theorem Alike.storeTarget {r s : Registry} (h : Alike r s) (e : String × File) :
    Alike (r.storeTarget e) (s.storeTarget e) where
  messages := by
    rw [Registry.storeTarget, Registry.storeTarget, addTarget_messages, addTarget_messages]
    exact h.messages
  files := by
    intro path
    rw [Registry.storeTarget, Registry.storeTarget, addTarget_files, addTarget_files,
      Table.get?_insert, Table.get?_insert]
    split
    · rfl
    · exact h.files path

/-- A target fails in all registries that are alike, or the same file is stored in all of them. -/
theorem loadServices_alike (r : Registry) (path : String) :
    (∃ e, ∀ s, Alike r s → s.loadServices path = .error e) ∨
      ∃ f, ∀ s, Alike r s → s.loadServices path =
        .ok { s with files := s.files.insert path f } := by
  cases hf : r.files.get? path with
  | none =>
    refine .inl ⟨.lookup (.fileNotFound path), fun s h => ?_⟩
    have hs := h.files path
    rw [hf] at hs
    exact loadServices_of_absent (Option.map_eq_none_iff.mp hs.symm)
  | some f =>
    have hstored : ∀ s, Alike r s → ∃ g, s.files.get? path = some g ∧
        g.withoutServices = f.withoutServices ∧
        s.resolveServices g.decl = r.resolveServices f.decl := by
      intro s h
      have hs := h.files path
      rw [hf] at hs
      obtain ⟨g, hg, hgf⟩ := Option.map_eq_some_iff.mp hs.symm
      have hdecl : g.decl = f.decl := by
        rw [← g.withoutServices_decl, hgf, f.withoutServices_decl]
      exact ⟨g, hg, hgf, by rw [hdecl, resolveServices_congr h.messages]⟩
    cases hr : r.resolveServices f.decl with
    | error e =>
      refine .inl ⟨e, fun s h => ?_⟩
      obtain ⟨g, hg, -, hs⟩ := hstored s h
      rw [loadServices_of_stored hg, hs, hr]
      rfl
    | ok services =>
      refine .inr ⟨{ f with services := services }, fun s h => ?_⟩
      obtain ⟨g, hg, hgf, hs⟩ := hstored s h
      have hnew : ({ g with services := services } : File) = { f with services := services } :=
        congrArg (fun k : File => { k with services := services }) hgf
      rw [loadServices_of_stored hg, hs, hr, ← hnew]
      rfl

/-- A run through targets stores the same files and ends in the same way in all registries that are
alike. -/
theorem loadTargets_alike (r : Registry) (targets : List String) :
    ∃ es result, ∀ s, Alike r s → s.loadTargets targets = (s.storeTargets es, result) := by
  induction targets generalizing r with
  | nil => exact ⟨[], .ok (), fun _ _ => rfl⟩
  | cons path rest ih =>
    rcases loadServices_alike r path with ⟨e, he⟩ | ⟨f, hf⟩
    · refine ⟨[], .error e, fun s h => ?_⟩
      rw [loadTargets, he s h]
      rfl
    · obtain ⟨es, result, hrest⟩ := ih (r.storeTarget (path, f))
      refine ⟨(path, f) :: es, result, fun s h => ?_⟩
      rw [loadTargets, hf s h]
      exact hrest (s.storeTarget (path, f)) (h.storeTarget (path, f))

/-! ## The second load -/

section Again
variable {r s : Registry} {ds : List FileDecl} {targets : List String}

/-- Registering files again after a load takes back nothing but services. -/
theorem alike_loadFiles (hs : (r.load ds targets).1 = s)
    (hentries : s.fileEntries ds = r.fileEntries ds)
    (hmessages : s.messages = (r.loadFiles ds).messages) :
    Alike (r.loadFiles ds) (s.loadFiles ds) where
  messages := by
    rw [loadFiles_eq s, hmessages, loadFiles_eq r]
    exact congrArg Table.get? (insertAll_insertAll _ _).symm
  files := by
    intro path
    by_cases hpath : path ∈ ds.map FileDecl.name
    · have hmem : path ∈ (r.fileEntries ds).map Prod.fst := by rwa [map_fst_fileEntries]
      rw [loadFiles_eq s, hentries, loadFiles_eq r]
      exact congrArg _ (Table.get?_fill_of_mem _ hmem)
    · have hne : ∀ d ∈ ds, d.name ≠ path := fun d hd hn => hpath (hn ▸ List.mem_map_of_mem hd)
      have hfirst : (s.files.get? path).map File.withoutServices =
          ((r.loadFiles ds).files.get? path).map File.withoutServices :=
        hs ▸ (kept_view (fun _ _ => rfl) _ path).loadTargets targets rfl
      exact ((kept_view (fun _ _ => rfl) _ path).loadFiles hne hfirst).symm

/-- What files and targets insert a second time changes nothing. -/
theorem storeTargets_loadFiles {es : List (String × File)}
    (hs : (r.loadFiles ds).storeTargets es = s)
    (hentries : s.fileEntries ds = r.fileEntries ds) :
    (s.loadFiles ds).storeTargets es = s := by
  have htargets : ∀ path ∈ es.map Prod.fst, path ∈ withTargets r.targets (es.map Prod.fst) :=
    fun path h => mem_withTargets.mpr (.inr h)
  have hfiles : insertAll (insertAll (insertAll (insertAll r.files (r.fileEntries ds)) es)
      (r.fileEntries ds)) es = insertAll (insertAll r.files (r.fileEntries ds)) es := by
    rw [← insertAll_append r.files, ← insertAll_append _ (r.fileEntries ds), insertAll_insertAll]
  rw [loadFiles_eq s, hentries, storeTargets_eq]
  rw [loadFiles_eq r, storeTargets_eq] at hs
  subst hs
  simp only [insertAll_insertAll, hfiles, withTargets_of_subset htargets]

end Again

/-- Loading the same files with the same targets a second time in a row ends as the first time did,
with success or with the same error, and leaves the registry exactly as it is. -/
theorem load_load (r : Registry) (ds : List FileDecl) (targets : List String) :
    (r.load ds targets).1.load ds targets = r.load ds targets := by
  obtain ⟨es, result, hrun⟩ := loadTargets_alike (r.loadFiles ds) targets
  have hfirst : r.load ds targets = ((r.loadFiles ds).storeTargets es, result) :=
    hrun _ (.refl _)
  obtain ⟨s, hs⟩ : ∃ s, (r.loadFiles ds).storeTargets es = s := ⟨_, rfl⟩
  have hload : (r.load ds targets).1 = s := by rw [hfirst, hs]
  have hentries : s.fileEntries ds = r.fileEntries ds := by
    have hkept : AliasesKept (r.loadFiles ds) s :=
      hload ▸ (kept_aliasesKept _).loadTargets targets (.refl _)
    rw [storeTargets_eq, loadFiles_eq] at hs
    exact fileEntries_of_kept hkept (hs ▸ rfl) (hs ▸ rfl) (hs ▸ rfl)
  have hmessages : s.messages = (r.loadFiles ds).messages := by rw [← hs, storeTargets_eq]
  have hsecond : s.load ds targets = ((s.loadFiles ds).storeTargets es, result) :=
    hrun _ (alike_loadFiles hload hentries hmessages)
  rw [hload, hsecond, storeTargets_loadFiles hs hentries, hfirst, hs]

end Registry

end RpcGateway.Schema
