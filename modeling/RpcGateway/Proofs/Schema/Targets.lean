import Mathlib.Data.List.Induction
import RpcGateway.Proofs.Schema.Consistency

/-!
Targets and loaded services. A path becomes a target for good once a load gets to it; services are
stored by loads that get to the file and by loading them alone, and are lost when the file is
registered again. So a file may be a target without services, and have services without being one.
-/
namespace RpcGateway.Schema

/-! ## What happened since -/

/-- Something happened in a history, and all that came later was of another kind. -/
def Since {α : Type} (P : List α → α → Prop) (Q : α → Prop) (xs : List α) : Prop :=
  ∃ before x later, xs = before ++ x :: later ∧ P before x ∧ ∀ y ∈ later, Q y

theorem not_since_nil {α : Type} (P : List α → α → Prop) (Q : α → Prop) : ¬ Since P Q [] := by
  rintro ⟨before, x, later, h, -⟩
  simp at h

/-- The last step is the one, or leaves things as they were before it. -/
theorem since_concat {α : Type} {P : List α → α → Prop} {Q : α → Prop} {xs : List α} {x : α} :
    Since P Q (xs ++ [x]) ↔ P xs x ∨ (Since P Q xs ∧ Q x) := by
  constructor
  · rintro ⟨before, y, later, h, hp, hq⟩
    rcases List.eq_nil_or_concat later with rfl | ⟨rest, z, rfl⟩
    · obtain ⟨rfl, hxy⟩ := List.append_inj' h rfl
      cases hxy
      exact .inl hp
    · rw [List.concat_eq_append, ← List.cons_append, ← List.append_assoc] at h
      obtain ⟨rfl, hxz⟩ := List.append_inj' h rfl
      cases hxz
      exact .inr ⟨⟨before, y, rest, rfl, hp, fun w hw => hq w (by simp [hw])⟩, hq x (by simp)⟩
  · rintro (hp | ⟨⟨before, y, later, rfl, hp, hq⟩, hx⟩)
    · exact ⟨xs, x, [], rfl, hp, by simp⟩
    · refine ⟨before, y, later ++ [x], by simp, hp, ?_⟩
      intro w hw
      rcases List.mem_append.mp hw with hw | hw
      · exact hq w hw
      · rw [List.mem_singleton.mp hw]
        exact hx

/-- A declaration with a method in one of its services. -/
def FileDecl.HasMethods (d : FileDecl) : Prop := ∃ s ∈ d.services, s.methods ≠ []

/-- The targets of an operation. -/
def Operation.targets : Operation → List String
  | .load _ targets => targets
  | .loadAll files => files.map FileDecl.name
  | _ => []

/-- Whether an operation is one of those that load files or services. -/
def Operation.loads : Operation → Bool
  | .load _ _ | .loadAll _ | .loadServices _ => true
  | _ => false

theorem Operation.files_of_not_loads {op : Operation} (h : op.loads = false) :
    op.files = [] ∧ op.targets = [] := by
  cases op with
  | load | loadAll | loadServices => cases h
  | _ => exact ⟨rfl, rfl⟩

namespace Registry

/-- Loading targets one after the other gets to a path and succeeds there. -/
def Reaches (r : Registry) (targets : List String) (path : String) : Prop :=
  ∃ before after, targets = before ++ path :: after ∧
    (r.loadTargets (before ++ [path])).2 = .ok ()

/-- An operation loads a file as one of its targets. -/
def LoadsTarget (r : Registry) (op : Operation) (path : String) : Prop :=
  (r.loadFiles op.files).Reaches op.targets path

/-- An operation loads the services of a file, as one of its targets or alone. -/
def LoadsServices (r : Registry) (op : Operation) (path : String) : Prop :=
  r.LoadsTarget op path ∨ (op = .loadServices path ∧ ∃ s, r.loadServices path = .ok s)

/-- The file of a path is stored with services. -/
def HasServices (r : Registry) (path : String) : Prop :=
  ∃ f, r.files.get? path = some f ∧ f.services ≠ []

/-- If a file is stored under a path, its declaration has methods. -/
def DeclaresMethods (r : Registry) (path : String) : Prop :=
  ∀ f, r.files.get? path = some f → f.decl.HasMethods

/-! ## Declarations stay -/

theorem kept_declaration (o : Option FileDecl) (path : String) :
    Kept (fun d => d.name ≠ path) (fun r => (r.files.get? path).map File.decl = o) :=
  kept_view (fun _ _ => rfl) o path

theorem DeclaresMethods.congr {r s : Registry} {path : String}
    (h : (r.files.get? path).map File.decl = (s.files.get? path).map File.decl)
    (hs : s.DeclaresMethods path) : r.DeclaresMethods path := by
  intro f hf
  rw [hf, Option.map_some] at h
  obtain ⟨g, hg, hdecl⟩ := Option.map_eq_some_iff.mp h.symm
  exact hdecl ▸ hs g hg

/-! ## Single changes -/

/-- A resolved service has all methods of its declaration. -/
theorem map_decl_resolveService {r : Registry} {file package : String} {sd : ServiceDecl}
    {s : Service} (h : r.resolveService file package sd = .ok s) :
    s.methods.map Method.decl = s.decl.methods := by
  obtain ⟨ms, hms, h⟩ := exists_of_bind_eq_ok h
  cases h
  exact map_of_mapM_eq_ok (fun _ _ hm => (resolveMethod_eq_ok hm).1) hms

theorem resolveServices_ne_nil {r : Registry} {d : FileDecl} (hd : d.HasMethods)
    {services : List Service} (h : r.resolveServices d = .ok services) : services ≠ [] := by
  obtain ⟨all, hall, h⟩ := exists_of_bind_eq_ok h
  cases h
  have hdecl : all.map Service.decl = d.services :=
    map_of_mapM_eq_ok (fun _ _ hs => (resolveService_eq_ok hs).1) hall
  obtain ⟨sd, hsd, hmethods⟩ := hd
  rw [← hdecl] at hsd
  obtain ⟨s, hs, rfl⟩ := List.mem_map.mp hsd
  obtain ⟨sd, _, hsd⟩ := exists_mem_of_mapM_eq_ok hall hs
  have hkept : s.methods ≠ [] := by
    intro hnil
    rw [← map_decl_resolveService hsd, hnil] at hmethods
    exact hmethods rfl
  exact List.ne_nil_of_mem (List.mem_filter.mpr ⟨hs, by simpa using hkept⟩)

theorem hasServices_loadFile (r : Registry) (d : FileDecl) (path : String) :
    (r.loadFile d).HasServices path ↔ r.HasServices path ∧ d.name ≠ path := by
  unfold HasServices
  rw [loadFile_files, Table.get?_insert]
  by_cases h : path = d.name
  · rw [if_pos h]
    constructor
    · rintro ⟨f, hf, hne⟩
      cases hf
      exact absurd rfl hne
    · rintro ⟨-, hne⟩
      exact absurd h.symm hne
  · rw [if_neg h]
    exact ⟨fun hs => ⟨hs, Ne.symm h⟩, And.left⟩

theorem hasServices_loadFiles (r : Registry) (ds : List FileDecl) (path : String) :
    (r.loadFiles ds).HasServices path ↔ r.HasServices path ∧ ∀ d ∈ ds, d.name ≠ path := by
  induction ds generalizing r with
  | nil => simp [loadFiles]
  | cons d ds ih =>
    rw [loadFiles, List.foldl_cons, ← loadFiles, ih, hasServices_loadFile, List.forall_mem_cons,
      and_assoc]

/-- Loading the services of a file with methods stores some, and changes no other file. -/
theorem hasServices_loadServices {r s : Registry} {p path : String}
    (hd : r.DeclaresMethods path) (h : r.loadServices p = .ok s) :
    s.HasServices path ↔ path = p ∨ r.HasServices path := by
  obtain ⟨f, services, hf, hservices, rfl⟩ := loadServices_eq_ok_iff.mp h
  unfold HasServices
  show (∃ g, (r.files.insert p { f with services := services }).get? path = some g ∧ _) ↔ _
  rw [Table.get?_insert]
  by_cases hp : path = p
  · subst hp
    rw [if_pos rfl]
    exact ⟨fun _ => .inl rfl, fun _ => ⟨_, rfl, resolveServices_ne_nil (hd f hf) hservices⟩⟩
  · rw [if_neg hp]
    exact ⟨.inr, fun ho => ho.resolve_left hp⟩

theorem DeclaresMethods.loadServices {r s : Registry} {p path : String}
    (hd : r.DeclaresMethods path) (h : r.loadServices p = .ok s) : s.DeclaresMethods path :=
  hd.congr ((kept_declaration _ path).loadServices h rfl)

theorem hasServices_addTarget (r : Registry) (p path : String) :
    (r.addTarget p).HasServices path ↔ r.HasServices path := by
  unfold HasServices
  rw [addTarget_files]

theorem declaresMethods_addTarget {r : Registry} {p path : String} :
    (r.addTarget p).DeclaresMethods path ↔ r.DeclaresMethods path := by
  unfold DeclaresMethods
  rw [addTarget_files]

theorem mem_targets_addTarget (r : Registry) (p path : String) :
    path ∈ (r.addTarget p).targets ↔ path = p ∨ path ∈ r.targets := by
  rw [addTarget_targets]
  split
  · next hp => exact ⟨.inr, fun h => h.elim (fun he => he ▸ hp) id⟩
  · simp [or_comm]

/-! ## Runs through targets -/

theorem not_reaches_nil (r : Registry) (path : String) : ¬ r.Reaches [] path := by
  rintro ⟨before, after, h, -⟩
  simp at h

/-- The first target is reached if it loads, and so are those that the rest of the run reaches. -/
theorem reaches_cons {r : Registry} {p path : String} {rest : List String} :
    r.Reaches (p :: rest) path ↔
      ∃ s, r.loadServices p = .ok s ∧ (path = p ∨ (s.addTarget p).Reaches rest path) := by
  constructor
  · rintro ⟨before, after, h, hok⟩
    cases before with
    | nil =>
      cases h
      cases hs : r.loadServices p with
      | error e => simp [loadTargets, hs] at hok
      | ok s => exact ⟨s, rfl, .inl rfl⟩
    | cons q before =>
      cases h
      cases hs : r.loadServices p with
      | error e => simp [loadTargets, hs] at hok
      | ok s =>
        rw [List.cons_append, loadTargets, hs] at hok
        exact ⟨s, rfl, .inr ⟨before, after, rfl, hok⟩⟩
  · rintro ⟨s, hs, rfl | ⟨before, after, rfl, hok⟩⟩
    · exact ⟨[], rest, rfl, by simp [loadTargets, hs]⟩
    · refine ⟨p :: before, after, rfl, ?_⟩
      rw [List.cons_append, loadTargets, hs]
      exact hok

theorem mem_targets_loadTargets (r : Registry) (targets : List String) (path : String) :
    path ∈ (r.loadTargets targets).1.targets ↔ r.Reaches targets path ∨ path ∈ r.targets := by
  induction targets generalizing r with
  | nil => simp [loadTargets, not_reaches_nil]
  | cons p rest ih =>
    rw [reaches_cons, loadTargets]
    cases hs : r.loadServices p with
    | error e => simp
    | ok s =>
      have htargets : s.targets = r.targets := by
        obtain ⟨f, services, -, -, rfl⟩ := loadServices_eq_ok_iff.mp hs
        rfl
      simp only [ih, mem_targets_addTarget, htargets, Except.ok.injEq, exists_eq_left', or_assoc]
      rw [or_left_comm]

theorem hasServices_loadTargets {r : Registry} {path : String} (hd : r.DeclaresMethods path)
    (targets : List String) :
    (r.loadTargets targets).1.HasServices path ↔ r.Reaches targets path ∨ r.HasServices path := by
  induction targets generalizing r with
  | nil => simp [loadTargets, not_reaches_nil]
  | cons p rest ih =>
    rw [reaches_cons, loadTargets]
    cases hs : r.loadServices p with
    | error e => simp
    | ok s =>
      have hd' : (s.addTarget p).DeclaresMethods path :=
        declaresMethods_addTarget.mpr (hd.loadServices hs)
      simp only [ih hd', hasServices_addTarget, hasServices_loadServices hd hs, Except.ok.injEq,
        exists_eq_left', or_assoc]
      rw [or_left_comm]

/-! ## Operations -/

theorem loadFiles_targets (r : Registry) (ds : List FileDecl) :
    (r.loadFiles ds).targets = r.targets := by
  induction ds generalizing r with
  | nil => rfl
  | cons d ds ih => exact ih (r.loadFile d)

theorem not_loadsTarget {r : Registry} {op : Operation} (h : op.targets = []) (path : String) :
    ¬ r.LoadsTarget op path := by
  unfold LoadsTarget
  rw [h]
  exact not_reaches_nil _ path

theorem mem_targets_load (r : Registry) (ds : List FileDecl) (targets : List String)
    (path : String) : path ∈ (r.load ds targets).1.targets ↔
      (r.loadFiles ds).Reaches targets path ∨ path ∈ r.targets := by
  rw [load, mem_targets_loadTargets, loadFiles_targets]

theorem hasServices_load {r : Registry} {ds : List FileDecl} {targets : List String}
    {path : String} (hd : (r.load ds targets).1.DeclaresMethods path) :
    (r.load ds targets).1.HasServices path ↔
      (r.loadFiles ds).Reaches targets path ∨
        (r.HasServices path ∧ ∀ d ∈ ds, d.name ≠ path) := by
  have hd' : (r.loadFiles ds).DeclaresMethods path :=
    hd.congr ((kept_declaration _ path).loadTargets targets rfl).symm
  rw [load, hasServices_loadTargets hd', hasServices_loadFiles]

/-- Operations that load nothing leave files and targets alone. -/
theorem apply_of_not_loads (r : Registry) {op : Operation} (h : op.loads = false) :
    (r.apply op).files = r.files ∧ (r.apply op).targets = r.targets := by
  cases op with
  | load | loadAll | loadServices => cases h
  | reserveAlias name path =>
    simp only [Registry.apply, Registry.reserveAlias]
    split
    · exact ⟨rfl, rfl⟩
    · split <;> exact ⟨rfl, rfl⟩
  | allocateAlias | mapPackage | setPathStart | setStandalone | setUseJsonNames | setDepth =>
    exact ⟨rfl, rfl⟩

/-- A path is a target after an operation if it was one before or the operation gets to it. -/
theorem mem_targets_apply (r : Registry) (op : Operation) (path : String) :
    path ∈ (r.apply op).targets ↔ r.LoadsTarget op path ∨ path ∈ r.targets := by
  cases hop : op.loads with
  | false =>
    rw [(r.apply_of_not_loads hop).2,
      or_iff_right (not_loadsTarget (Operation.files_of_not_loads hop).2 path)]
  | true =>
    cases op with
    | load files targets => exact mem_targets_load r files targets path
    | loadAll files => exact mem_targets_load r files _ path
    | loadServices p =>
      rw [or_iff_right (not_loadsTarget rfl path)]
      show path ∈ ((r.loadServices p).toOption.getD r).targets ↔ _
      cases hs : r.loadServices p with
      | error e => exact Iff.rfl
      | ok s =>
        obtain ⟨f, services, -, -, rfl⟩ := loadServices_eq_ok_iff.mp hs
        exact Iff.rfl
    | _ => cases hop

theorem loadsServices_iff_of_ne {r : Registry} {op : Operation} {path : String}
    (h : op ≠ .loadServices path) : r.LoadsServices op path ↔ r.LoadsTarget op path :=
  or_iff_left fun hs => h hs.1

theorem hasServices_applyLoadServices {r : Registry} {p path : String}
    (hd : (r.apply (.loadServices p)).DeclaresMethods path) :
    (r.apply (.loadServices p)).HasServices path ↔
      r.LoadsServices (.loadServices p) path ∨ r.HasServices path := by
  rw [LoadsServices, or_iff_right (not_loadsTarget rfl path)]
  change ((r.loadServices p).toOption.getD r).DeclaresMethods path at hd
  show ((r.loadServices p).toOption.getD r).HasServices path ↔ _
  cases hs : r.loadServices p with
  | error e =>
    have hnone : ¬ (Operation.loadServices p = .loadServices path ∧
        ∃ s, r.loadServices path = .ok s) := by
      rintro ⟨heq, s, hok⟩
      cases heq
      rw [hs] at hok
      cases hok
    rw [or_iff_right hnone]
    exact Iff.rfl
  | ok s =>
    rw [hs] at hd
    have hd' : r.DeclaresMethods path :=
      hd.congr ((kept_declaration _ path).loadServices hs rfl).symm
    refine (hasServices_loadServices hd' hs).trans (or_congr_left ?_)
    constructor
    · rintro rfl
      exact ⟨rfl, s, hs⟩
    · rintro ⟨heq, -⟩
      cases heq
      rfl

/-- A file has services after an operation if the operation loads them, or if it had some before
and was not registered again. -/
theorem hasServices_apply {r : Registry} {op : Operation} {path : String}
    (hd : (r.apply op).DeclaresMethods path) :
    (r.apply op).HasServices path ↔
      r.LoadsServices op path ∨ (r.HasServices path ∧ ∀ d ∈ op.files, d.name ≠ path) := by
  cases hop : op.loads with
  | false =>
    obtain ⟨hfiles, htargets⟩ := Operation.files_of_not_loads hop
    have hne : op ≠ .loadServices path := by
      rintro rfl
      cases hop
    rw [loadsServices_iff_of_ne hne, or_iff_right (not_loadsTarget htargets path), hfiles,
      HasServices, (r.apply_of_not_loads hop).1]
    simp [HasServices]
  | true =>
    cases op with
    | load files targets =>
      rw [loadsServices_iff_of_ne (by simp)]
      exact hasServices_load hd
    | loadAll files =>
      rw [loadsServices_iff_of_ne (by simp)]
      exact hasServices_load hd
    | loadServices p =>
      have hall : ∀ d ∈ (Operation.loadServices p).files, d.name ≠ path := fun _ hd => nomatch hd
      rw [and_iff_left hall]
      exact hasServices_applyLoadServices hd
    | _ => cases hop

/-! ## Histories -/

/-- A load of a history got to a path as one of its targets. -/
def Targeted (history : List Operation) (path : String) : Prop :=
  Since (fun before op => (empty.after before).LoadsTarget op path) (fun _ => True) history

/-- The services of a file were loaded in a history, and it was not registered again later. -/
def ServicesCurrent (history : List Operation) (path : String) : Prop :=
  Since (fun before op => (empty.after before).LoadsServices op path)
    (fun op => ∀ d ∈ op.files, d.name ≠ path) history

theorem mem_targets_iff (history : List Operation) (path : String) :
    path ∈ (empty.after history).targets ↔ Targeted history path := by
  induction history using List.reverseRecOn with
  | nil =>
    refine iff_of_false ?_ (not_since_nil _ _)
    intro h
    cases h
  | append_singleton before op ih =>
    have hstep : (empty.after (before ++ [op])) = (empty.after before).apply op :=
      after_append empty before [op]
    rw [hstep, mem_targets_apply, ih, Targeted, Targeted, since_concat, and_true]

theorem hasServices_iff {history : List Operation} {path : String}
    (hd : (empty.after history).DeclaresMethods path) :
    (empty.after history).HasServices path ↔ ServicesCurrent history path := by
  induction history using List.reverseRecOn with
  | nil =>
    refine iff_of_false ?_ (not_since_nil _ _)
    rintro ⟨f, hf, -⟩
    cases hf
  | append_singleton before op ih =>
    have hstep : (empty.after (before ++ [op])) = (empty.after before).apply op :=
      after_append empty before [op]
    rw [hstep] at hd ⊢
    rw [hasServices_apply hd, ServicesCurrent, since_concat]
    refine or_congr_right (and_congr_left fun hkept => ih ?_)
    -- The file was not registered again, so it is declared as it was before.
    exact hd.congr ((kept_declaration _ path).apply hkept rfl).symm

theorem mem_targetFiles_iff {r : Registry} (h : r.Consistent) {path : String} {f : File}
    (hf : r.files.get? path = some f) : f ∈ r.targetFiles ↔ path ∈ r.targets := by
  unfold targetFiles
  rw [List.mem_filterMap]
  constructor
  · rintro ⟨p, hp, hg⟩
    rw [← h.fileNames path f hf, h.fileNames p f hg]
    exact hp
  · exact fun hp => ⟨path, hp, hf⟩

/-- A stored file that declares a method is given as a target file exactly if some load got to it
as a target, and has services exactly if they were loaded since it was registered last. So the two
agree exactly if these two events do. -/
theorem targets_agree_iff (history : List Operation) {path : String} {f : File}
    (hf : (empty.after history).files.get? path = some f) (hd : f.decl.HasMethods) :
    (f ∈ (empty.after history).targetFiles ↔ Targeted history path) ∧
    (f.services ≠ [] ↔ ServicesCurrent history path) ∧
    ((f ∈ (empty.after history).targetFiles ↔ f.services ≠ []) ↔
      (Targeted history path ↔ ServicesCurrent history path)) := by
  have hr : (empty.after history).Consistent := kept_consistent.always consistent_empty history
  have htarget : f ∈ (empty.after history).targetFiles ↔ Targeted history path := by
    rw [mem_targetFiles_iff hr hf, mem_targets_iff]
  have hdeclares : (empty.after history).DeclaresMethods path := by
    intro g hg
    cases hf.symm.trans hg
    exact hd
  have hservices : f.services ≠ [] ↔ ServicesCurrent history path := by
    rw [← hasServices_iff hdeclares, HasServices]
    constructor
    · exact fun hne => ⟨f, hf, hne⟩
    · rintro ⟨g, hg, hne⟩
      cases hf.symm.trans hg
      exact hne
  exact ⟨htarget, hservices, by rw [htarget, hservices]⟩

/-! ## One of the two without the other -/

/-- A file with a method over its own message. -/
def heraldFile : FileDecl where
  name := "herald.proto"
  package := "a"
  messages := [{ name := "M" }]
  services := [⟨"Herald", [{ name := "Cry", input := ".a.M", output := ".a.M" }], {}⟩]

theorem hasMethods_heraldFile : heraldFile.HasMethods :=
  ⟨_, List.mem_singleton_self _, List.cons_ne_nil _ _⟩

/-- Services that are loaded alone leave the file no target, and a target that is registered again
without being one is left without services. -/
theorem targets_disagree :
    let alone := empty.after [.load [heraldFile] [], .loadServices "herald.proto"]
    let again := empty.after [.load [heraldFile] ["herald.proto"], .load [heraldFile] []]
    (∃ f, alone.files.get? "herald.proto" = some f ∧ f.decl.HasMethods ∧ f.services ≠ [] ∧
      f ∉ alone.targetFiles) ∧
    ∃ f, again.files.get? "herald.proto" = some f ∧ f.decl.HasMethods ∧ f.services = [] ∧
      f ∈ again.targetFiles := by
  intro alone again
  constructor
  · refine ⟨_, rfl, hasMethods_heraldFile, List.cons_ne_nil _ _, ?_⟩
    have hnone : alone.targetFiles = [] := rfl
    rw [hnone]
    exact List.not_mem_nil
  · exact ⟨_, rfl, hasMethods_heraldFile, rfl, List.mem_singleton_self _⟩

theorem targets_agree_late_target :
    let history := [Operation.load [heraldFile] [], .load [] ["herald.proto"]]
    ∃ f, (empty.after history).files.get? "herald.proto" = some f ∧ f.decl.HasMethods ∧
      Targeted history "herald.proto" ∧ ServicesCurrent history "herald.proto" := by
  intro history
  obtain ⟨f, hf, hd, hservices, htarget⟩ : ∃ f,
      (empty.after history).files.get? "herald.proto" = some f ∧ f.decl.HasMethods ∧
        f.services ≠ [] ∧ f ∈ (empty.after history).targetFiles :=
    ⟨_, rfl, hasMethods_heraldFile, List.cons_ne_nil _ _, List.mem_singleton_self _⟩
  obtain ⟨htargeted, hcurrent, -⟩ := targets_agree_iff history hf hd
  exact ⟨f, hf, hd, htargeted.mp htarget, hcurrent.mp hservices⟩

end Registry

end RpcGateway.Schema
