import Mathlib.Data.List.Induction
import RpcGateway.Proofs.Schema.Histories

/-!
The identifiers of packages. An alias keeps its package for ever, the identifier of a loaded file is
bound to the package of that file and to no other, and files of one package that were registered in
one mode share their identifier.
-/
namespace RpcGateway.Schema

/-- The alias that a package of a name asks for in a mode. -/
def aliasUnder (standalone : Bool) (name : String) : String :=
  if standalone then "ext" ++ Text.capitalize name else name

/-- A file was registered last by an operation before which the standalone flag had a value. -/
def RegisteredUnder (history : List Operation) (name : String) (standalone : Bool) : Prop :=
  ∃ before op later, history = before ++ op :: later ∧
    (∃ d ∈ op.files, d.name = name) ∧ (∀ o ∈ later, ∀ d ∈ o.files, d.name ≠ name) ∧
    (Registry.empty.after before).standalone = standalone

namespace Registry

theorem wantedAlias_eq (r : Registry) (name : String) :
    r.wantedAlias name = aliasUnder r.standalone name := rfl

/-! ## Aliases are kept -/

theorem aliasesKept_loadFile (r : Registry) (d : FileDecl) : AliasesKept r (r.loadFile d) :=
  aliasesKept_insert (isFree_freeAlias r _ _)

theorem loadServices_aliases {r s : Registry} {path : String} (h : r.loadServices path = .ok s) :
    s.aliases = r.aliases := by
  obtain ⟨f, services, -, -, rfl⟩ := loadServices_eq_ok_iff.mp h
  rfl

theorem kept_aliasesKept (r : Registry) : Kept (fun _ => True) (AliasesKept r) where
  loadFile := fun _ h => h.trans (aliasesKept_loadFile _ _)
  loadServices := by
    intro s t path hs h a p ha
    rw [loadServices_aliases hs]
    exact h a p ha
  addTarget := by
    intro s path _ h a p ha
    rw [addTarget_aliases]
    exact h a p ha
  bindAlias := fun hfree h => h.trans (aliasesKept_insert hfree)
  settings := fun _ _ _ _ _ h => h

/-! ## The identifier of a loaded file -/

/-- The identifier of a file is bound to its package, and the search in the mode of the file's
registration ends at it. -/
structure Settled (standalone : Bool) (r : Registry) (f : File) : Prop where
  bound : r.aliases.get? f.package.identifier = some f.package.path
  found : r.freeAlias (aliasUnder standalone (lastSegment f.package.path)) f.package.path =
    f.package.identifier

theorem Settled.of_kept {standalone : Bool} {r s : Registry} {f : File} (hk : AliasesKept r s)
    (h : Settled standalone r f) : Settled standalone s f := by
  have hb := hk _ _ h.bound
  refine ⟨hb, ?_⟩
  rw [← h.found] at hb
  rw [freeAlias_of_kept hk hb, h.found]

/-- The file of a name, if it is loaded, is settled in a mode. -/
def SettledAt (standalone : Bool) (name : String) (r : Registry) : Prop :=
  ∀ f, r.files.get? name = some f → Settled standalone r f

/-- Registering a file settles it in the mode of the moment. -/
theorem settledAt_loadFile (r : Registry) (d : FileDecl) :
    SettledAt r.standalone d.name (r.loadFile d) := by
  intro f hf
  rw [loadFile_files, Table.get?_insert_self] at hf
  cases hf
  have hb : (r.loadFile d).aliases.get? (r.identifierFor d) = some (r.packagePath d) := by
    rw [loadFile_aliases, Table.get?_insert_self]
  refine ⟨?_, ?_⟩
  · rw [entryFor_identifier, entryFor_path]
    exact hb
  · rw [entryFor_identifier, entryFor_path, ← wantedAlias_eq]
    exact freeAlias_of_kept (aliasesKept_loadFile r d) hb

theorem kept_settledAt (standalone : Bool) (name : String) :
    Kept (fun d => d.name ≠ name) (SettledAt standalone name) where
  loadFile := by
    intro r d hd h f hf
    rw [loadFile_files, Table.get?_insert_of_ne _ _ hd.symm] at hf
    exact (h f hf).of_kept (aliasesKept_loadFile r d)
  loadServices := by
    intro r s path hs h f hf
    obtain ⟨g, services, hg, -, rfl⟩ := loadServices_eq_ok_iff.mp hs
    have hk : AliasesKept r { r with files := r.files.insert path { g with services } } :=
      fun _ _ ha => ha
    rw [Table.get?_insert] at hf
    split at hf
    · next he =>
      cases hf
      subst he
      obtain ⟨hb, hfound⟩ := (h g hg).of_kept hk
      exact ⟨hb, hfound⟩
    · exact (h f hf).of_kept hk
  addTarget := by
    intro r path _ h f hf
    rw [addTarget_files] at hf
    refine (h f hf).of_kept fun a p ha => ?_
    rw [addTarget_aliases]
    exact ha
  bindAlias := fun hfree h f hf => (h f hf).of_kept (aliasesKept_insert hfree)
  settings := by
    intro r pathStart packageMap mode useJsonNames depth h f hf
    obtain ⟨hb, hfound⟩ := h f hf
    exact ⟨hb, hfound⟩

/-- All files that a list of declarations registers are settled in the mode of the moment. -/
theorem settledAt_loadFiles {name : String} {ds : List FileDecl} (r : Registry)
    (h : SettledAt r.standalone name r ∨ ∃ d ∈ ds, d.name = name) :
    SettledAt r.standalone name (r.loadFiles ds) := by
  induction ds generalizing r with
  | nil =>
    rcases h with h | ⟨d, hd, -⟩
    · exact h
    · cases hd
  | cons d ds ih =>
    rw [← loadFile_standalone r d]
    refine ih (r.loadFile d) ?_
    rw [loadFile_standalone]
    by_cases hn : d.name = name
    · exact .inl (hn ▸ settledAt_loadFile r d)
    · rcases h with h | ⟨d', hd', hn'⟩
      · exact .inl ((kept_settledAt _ name).loadFile hn h)
      · rcases List.mem_cons.mp hd' with rfl | hd'
        · exact absurd hn' hn
        · exact .inr ⟨d', hd', hn'⟩

theorem settledAt_load {name : String} {ds : List FileDecl} (r : Registry) (targets : List String)
    (h : ∃ d ∈ ds, d.name = name) : SettledAt r.standalone name (r.load ds targets).1 :=
  (kept_settledAt _ name).loadTargets targets (settledAt_loadFiles r (.inr h))

theorem settledAt_apply {name : String} (r : Registry) {op : Operation}
    (h : ∃ d ∈ op.files, d.name = name) : SettledAt r.standalone name (r.apply op) := by
  cases op with
  | load files targets => exact settledAt_load r targets h
  | loadAll files => exact settledAt_load r _ h
  | _ =>
    obtain ⟨d, hd, -⟩ := h
    cases hd

/-- A loaded file is settled in the mode of its last registration. -/
theorem settledAt_of_registeredUnder {history : List Operation} {name : String} {standalone : Bool}
    (h : RegisteredUnder history name standalone) :
    SettledAt standalone name (empty.after history) := by
  obtain ⟨before, op, later, rfl, hop, hlater, rfl⟩ := h
  rw [after_append]
  exact (kept_settledAt _ name).after hlater (settledAt_apply _ hop)

/-! ## Every loaded file was registered -/

theorem kept_not_loaded (name : String) :
    Kept (fun d => d.name ≠ name) (fun r => r.files.get? name = none) where
  loadFile := by
    intro r d hd h
    rw [loadFile_files, Table.get?_insert_of_ne _ _ hd.symm]
    exact h
  loadServices := by
    intro r s path hs h
    obtain ⟨g, services, hg, -, rfl⟩ := loadServices_eq_ok_iff.mp hs
    have hn : name ≠ path := by
      rintro rfl
      rw [h] at hg
      cases hg
    show (r.files.insert path { g with services }).get? name = none
    rw [Table.get?_insert_of_ne _ _ hn]
    exact h
  addTarget := by
    intro r path _ h
    rw [addTarget_files]
    exact h
  bindAlias := fun _ h => h
  settings := fun _ _ _ _ _ h => h

/-- Of the operations that register a file one is the last. -/
theorem exists_registeredUnder {history : List Operation} {name : String} {f : File}
    (h : (empty.after history).files.get? name = some f) :
    ∃ standalone, RegisteredUnder history name standalone := by
  -- From the end of the history: the last operation that registers the file is the one.
  induction history using List.reverseRecOn generalizing f with
  | nil => cases h
  | append_singleton before op ih =>
    by_cases hop : ∃ d ∈ op.files, d.name = name
    · exact ⟨_, before, op, [], rfl, hop, by simp, rfl⟩
    · have hne : ∀ d ∈ op.files, d.name ≠ name := fun d hd hn => hop ⟨d, hd, hn⟩
      rw [after_append] at h
      cases hb : (empty.after before).files.get? name with
      | none =>
        have hn : ((empty.after before).apply op).files.get? name = none :=
          (kept_not_loaded name).apply hne hb
        exact absurd (hn.symm.trans h) (by simp)
      | some g =>
        obtain ⟨standalone, first, o, rest, rfl, ho, hrest, hs⟩ := ih hb
        refine ⟨standalone, first, o, rest ++ [op], by simp, ho, ?_, hs⟩
        intro o' ho'
        rcases List.mem_append.mp ho' with ho' | ho'
        · exact hrest o' ho'
        · rw [List.mem_singleton.mp ho']
          exact hne

/-- After any history of operations, failed ones included: bound aliases keep their packages in all
that follows; the identifier of each loaded file is bound to the package path of that file, so
different paths have different identifiers; and files of one path have one identifier if the mode
was the same when they were registered last. -/
theorem identifiers_after (history : List Operation) :
    (∀ later name path, (empty.after history).aliasPath? name = some path →
      ((empty.after history).after later).aliasPath? name = some path) ∧
    (∀ k f, (empty.after history).files.get? k = some f →
      (empty.after history).aliasPath? f.package.identifier = some f.package.path ∧
      ∃ standalone, RegisteredUnder history k standalone) ∧
    ∀ k l f g, (empty.after history).files.get? k = some f →
      (empty.after history).files.get? l = some g →
      (f.package.path ≠ g.package.path → f.package.identifier ≠ g.package.identifier) ∧
      (f.package.path = g.package.path →
        ∀ standalone, RegisteredUnder history k standalone →
          RegisteredUnder history l standalone → f.package.identifier = g.package.identifier) := by
  have hbound : ∀ k f, (empty.after history).files.get? k = some f →
      (empty.after history).aliasPath? f.package.identifier = some f.package.path := by
    intro k f hf
    obtain ⟨standalone, hreg⟩ := exists_registeredUnder hf
    exact (settledAt_of_registeredUnder hreg f hf).bound
  refine ⟨?_, ?_, ?_⟩
  · intro later name path hb
    exact (kept_aliasesKept _).always (.refl _) later name path hb
  · intro k f hf
    exact ⟨hbound k f hf, exists_registeredUnder hf⟩
  · intro k l f g hf hg
    constructor
    · intro hne he
      have hp := hbound k f hf
      rw [he, hbound l g hg] at hp
      exact hne (Option.some.inj hp).symm
    · intro hp standalone hk hl
      have hfound := (settledAt_of_registeredUnder hk f hf).found
      rw [hp, (settledAt_of_registeredUnder hl g hg).found] at hfound
      exact hfound.symm

/-! ### Two packages with the same last segment -/

/-- An empty file of a package. -/
def packageFile (name package : String) : FileDecl := { name, package }

/-- The second load adds another file to the first of two packages with the same last segment. -/
def rivalPackages : List Operation :=
  [.load [packageFile "x.proto" "a.pb", packageFile "y.proto" "b.pb"] [],
    .load [packageFile "z.proto" "a.pb"] []]

theorem registeredUnder_rivalPackages :
    RegisteredUnder rivalPackages "x.proto" false ∧
      RegisteredUnder rivalPackages "z.proto" false :=
  ⟨⟨[], _, _, rfl, ⟨_, List.mem_cons_self, rfl⟩, by decide, rfl⟩,
    ⟨[.load _ _], _, [], rfl, ⟨_, List.mem_cons_self, rfl⟩, by decide, rfl⟩⟩

/-- The late file shares the identifier of its package. The other package has another one, and is
not given that of the first by any later request. -/
theorem identifiers_after_rivalPackages :
    let r := empty.after rivalPackages
    ∃ f g h, r.files.get? "x.proto" = some f ∧ r.files.get? "y.proto" = some g ∧
      r.files.get? "z.proto" = some h ∧
      f.package.path ≠ g.package.path ∧ f.package.identifier ≠ g.package.identifier ∧
      f.package.path = h.package.path ∧ f.package.identifier = h.package.identifier ∧
      r.aliasPath? "pb" = some "a::pb" ∧
      (r.after [.reserveAlias "pb" "b::pb", .load [packageFile "x.proto" "b.pb"] []]).aliasPath?
        "pb" = some "a::pb" := by
  intro r
  obtain ⟨hkept, -, hpair⟩ := identifiers_after rivalPackages
  obtain ⟨f, hf, hpath⟩ : ∃ f, r.files.get? "x.proto" = some f ∧ f.package.path = "a::pb" :=
    ⟨_, rfl, by decide +kernel⟩
  obtain ⟨g, hg, hother⟩ : ∃ g, r.files.get? "y.proto" = some g ∧ g.package.path = "b::pb" :=
    ⟨_, rfl, by decide +kernel⟩
  obtain ⟨h, hh, hsame⟩ : ∃ h, r.files.get? "z.proto" = some h ∧ h.package.path = "a::pb" :=
    ⟨_, rfl, by decide +kernel⟩
  have hne : f.package.path ≠ g.package.path := by
    rw [hpath, hother]
    decide
  have heq : f.package.path = h.package.path := hpath.trans hsame.symm
  obtain ⟨hx, hz⟩ := registeredUnder_rivalPackages
  have hbound : r.aliasPath? "pb" = some "a::pb" := by decide +kernel
  exact ⟨f, g, h, hf, hg, hh, hne, (hpair _ _ f g hf hg).1 hne, heq,
    (hpair _ _ f h hf hh).2 heq false hx hz, hbound, hkept _ _ _ hbound⟩

end Registry

end RpcGateway.Schema
