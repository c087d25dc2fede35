import RpcGateway.Proofs.Schema.MissingTypes

/-!
Loads that break off. Services are stored only when all methods of their file are resolved, so a
target that fails leaves no trace, and a load that fails is the load of the targets before that one.
-/
namespace RpcGateway.Schema

namespace Registry
variable {r : Registry}

/-! ## The target that fails -/

/-- A run through targets fails at the first that does, and leaves what those before it made. -/
theorem loadTargets_eq_error_iff {targets : List String} {s : Registry} {e : ResolveError} :
    r.loadTargets targets = (s, .error e) ↔ ∃ before path after, targets = before ++ path :: after ∧
      r.loadTargets before = (s, .ok ()) ∧ s.loadServices path = .error e := by
  induction targets generalizing r with
  | nil => simp [loadTargets]
  | cons first rest ih =>
    constructor
    · intro h
      rw [loadTargets] at h
      cases hs : r.loadServices first with
      | error e' =>
        rw [hs] at h
        cases h
        exact ⟨[], first, rest, rfl, rfl, hs⟩
      | ok r' =>
        rw [hs] at h
        obtain ⟨before, path, after, rfl, hbefore, he⟩ := ih.mp h
        refine ⟨first :: before, path, after, rfl, ?_, he⟩
        rw [loadTargets, hs]
        exact hbefore
    · rintro ⟨before, path, after, htargets, hbefore, he⟩
      cases before with
      | nil =>
        cases htargets
        cases hbefore
        rw [loadTargets, he]
      | cons first' before =>
        cases htargets
        rw [loadTargets] at hbefore ⊢
        cases hs : r.loadServices first with
        | error e' =>
          rw [hs] at hbefore
          cases hbefore
        | ok r' =>
          rw [hs] at hbefore
          exact ih.mpr ⟨before, path, after, rfl, hbefore, he⟩

end Registry

/-! ## Loading step by step -/

/-- Steps that are taken on a registry one after the other. What they did to it is not taken back
where one of them fails. -/
abbrev Procedure (α : Type) := EStateM ResolveError Registry α

namespace Procedure

/-- A result with the registry that is left. -/
def leaving {α : Type} (r : Registry) : Except ResolveError α → EStateM.Result ResolveError Registry α
  | .ok a => .ok a r
  | .error e => .error e r

/-- Asks the registry as it stands. -/
def ask {α : Type} (question : Registry → Except ResolveError α) : Procedure α :=
  fun r => leaving r (question r)

/-- Resolves the methods of a file one by one, and stores the services when the last one is. -/
def loadServices (path : String) : Procedure Unit := do
  let file ← ask fun r => (r.lookupFile path).mapError .lookup
  let services ← file.decl.services.mapM fun s => do
    let methods ← s.methods.mapM fun m => ask fun r => r.resolveMethod file.decl.package s m
    return Service.mk file.decl.name file.decl.package s methods
  let services := services.filter fun s => !s.methods.isEmpty
  modify fun r => { r with files := r.files.insert path { file with services := services } }

/-- Registers files one by one, then loads the services of the targets in turn. -/
def load (files : List FileDecl) (targets : List String) : Procedure Unit := do
  files.forM fun d => modify fun r => r.loadFile d
  targets.forM fun path => do
    loadServices path
    modify fun r => r.addTarget path

section Steps
variable {α β : Type} {r s : Registry}

theorem bind_of_ok {p : Procedure α} {a : α} (h : p r = .ok a s) (f : α → Procedure β) :
    (p >>= f) r = f a s := by
  simp only [bind, EStateM.bind, h]

theorem bind_of_error {p : Procedure α} {e : ResolveError} (h : p r = .error e s)
    (f : α → Procedure β) : (p >>= f) r = .error e s := by
  simp only [bind, EStateM.bind, h]

theorem leaving_eq_error_iff {x : Except ResolveError α} {e : ResolveError} :
    leaving r x = .error e s ↔ s = r ∧ x = .error e := by
  cases x with
  | error e' => simp [leaving, eq_comm, and_comm]
  | ok a => simp [leaving]

theorem bind_of_leaving {p : Procedure α} {x : Except ResolveError α} (hp : p r = leaving r x)
    {f : α → Procedure β} {g : α → Except ResolveError β} (hf : ∀ a, f a r = leaving r (g a)) :
    (p >>= f) r = leaving r (x >>= g) := by
  cases x with
  | error e => exact bind_of_error hp f
  | ok a => exact (bind_of_ok hp f).trans (hf a)

/-- Where each step only asks, a list of steps only asks, up to the first that fails. -/
theorem mapM_of_leaving {f : α → Procedure β} {g : α → Except ResolveError β}
    (h : ∀ x, f x r = leaving r (g x)) (xs : List α) : xs.mapM f r = leaving r (xs.mapM g) := by
  induction xs with
  | nil => rfl
  | cons x xs ih =>
    rw [List.mapM_cons, List.mapM_cons]
    exact bind_of_leaving (h x) fun y => bind_of_leaving ih fun ys => rfl

end Steps

theorem resolveService_of_leaving (file package : String) (s : ServiceDecl) (r : Registry) :
    (do
      let methods ← s.methods.mapM fun m => ask fun r => r.resolveMethod package s m
      return Service.mk file package s methods : Procedure Service) r =
        leaving r (r.resolveService file package s) :=
  bind_of_leaving (mapM_of_leaving (fun _ => rfl) s.methods) fun _ => rfl

/-- However many methods are resolved before one fails, the registry is left as it was. -/
theorem loadServices_eq (path : String) (r : Registry) :
    loadServices path r = match r.loadServices path with
      | .ok s => .ok () s
      | .error e => .error e r := by
  cases hf : r.files.get? path with
  | none =>
    have hfile : ask (fun r => (r.lookupFile path).mapError .lookup) r =
        .error (.lookup (.fileNotFound path)) r := by
      rw [ask, Registry.lookupFile, hf]
      rfl
    rw [Registry.loadServices_of_absent hf]
    exact bind_of_error hfile _
  | some f =>
    have hfile : ask (fun r => (r.lookupFile path).mapError .lookup) r = .ok f r := by
      rw [ask, Registry.lookupFile, hf]
      rfl
    have hservices := mapM_of_leaving
      (fun s => resolveService_of_leaving f.decl.name f.decl.package s r) f.decl.services
    rw [Registry.loadServices_of_stored hf, loadServices, bind_of_ok hfile,
      Registry.resolveServices_eq_map]
    cases hs : f.decl.services.mapM (r.resolveService f.decl.name f.decl.package) with
    | error e =>
      rw [hs] at hservices
      exact bind_of_error hservices _
    | ok services =>
      rw [hs] at hservices
      exact bind_of_ok hservices _

theorem loadServices_eq_error_iff {path : String} {r s : Registry} {e : ResolveError} :
    loadServices path r = .error e s ↔ s = r ∧ r.loadServices path = .error e := by
  rw [loadServices_eq]
  cases r.loadServices path with
  | error e' => simp [eq_comm, and_comm]
  | ok s' => simp

theorem loadFiles_eq (files : List FileDecl) (r : Registry) :
    (files.forM fun d => modify fun r => r.loadFile d : Procedure Unit) r =
      .ok () (r.loadFiles files) := by
  induction files generalizing r with
  | nil => rfl
  | cons d files ih => exact ih (r.loadFile d)

theorem loadTargets_eq (targets : List String) (r : Registry) :
    (targets.forM fun path => do
      loadServices path
      modify fun r => r.addTarget path : Procedure Unit) r =
        leaving (r.loadTargets targets).1 (r.loadTargets targets).2 := by
  induction targets generalizing r with
  | nil => rfl
  | cons path rest ih =>
    have hpath := loadServices_eq path r
    rw [Registry.loadTargets]
    cases hs : r.loadServices path with
    | error e =>
      rw [hs] at hpath
      exact bind_of_error (bind_of_error hpath _) _
    | ok s =>
      rw [hs] at hpath
      have hstep : (do
          loadServices path
          modify fun r => r.addTarget path : Procedure Unit) r = .ok () (s.addTarget path) :=
        bind_of_ok hpath _
      exact (bind_of_ok hstep _).trans (ih (s.addTarget path))

theorem load_eq_error_iff {files : List FileDecl} {targets : List String} {r s : Registry}
    {e : ResolveError} :
    load files targets r = .error e s ↔ r.load files targets = (s, .error e) := by
  have hload : load files targets r = leaving (r.load files targets).1 (r.load files targets).2 :=
    (bind_of_ok (loadFiles_eq files r) _).trans (loadTargets_eq targets _)
  rw [hload, leaving_eq_error_iff, Prod.ext_iff, eq_comm]

end Procedure

namespace Registry

/-- A load fails exactly if the services of one of its targets are not loaded after the targets
before it were. It ends with the error of that target, and leaves the registry that the same files
and the targets before it make. Loading the services of a file fails for the first method with a
type that is not found, if the file is there, and leaves the registry as it was. -/
theorem load_fails_iff (r s : Registry) (e : ResolveError) :
    (∀ files targets, r.load files targets = (s, .error e) ↔
      ∃ before path after, targets = before ++ path :: after ∧
        r.load files before = (s, .ok ()) ∧ s.loadServices path = .error e) ∧
    (∀ files targets, Procedure.load files targets r = .error e s ↔
      r.load files targets = (s, .error e)) ∧
    (∀ path, Procedure.loadServices path r = .error e s ↔
      s = r ∧ r.loadServices path = .error e) ∧
    ∀ path, r.loadServices path = .error e ↔ r.ServicesFail path e :=
  ⟨fun _ _ => loadTargets_eq_error_iff, fun _ _ => Procedure.load_eq_error_iff,
    fun _ => Procedure.loadServices_eq_error_iff, fun _ => loadServices_eq_error_iff⟩

/-- The second method of a file has an unknown type, so its first is not stored either. -/
example :
    let file : FileDecl :=
      { name := "s.proto"
        messages := [{ name := "M" }]
        services := [⟨"S", [{ name := "Get", input := "M", output := "M" },
          { name := "Put", input := "M", output := "N" }], {}⟩] }
    let loaded := empty.load [file] ["s.proto"]
    loaded.2 = .error (.unresolvedMethodType "S" "Put" .output "N" (.messageNotFound "N")) ∧
      loaded.1.targets = [] ∧ loaded.1.files.names = ["s.proto"] ∧
      loaded.1.files.entries.map (fun e => e.2.services) = [[]] := by
  decide

end Registry

end RpcGateway.Schema
