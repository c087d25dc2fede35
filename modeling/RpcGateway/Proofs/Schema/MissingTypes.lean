import RpcGateway.Proofs.Schema.Histories
import RpcGateway.Proofs.Schema.Resolution

/-!
Why the services of a file are not loaded: the file is not there, or a method of it has a type that
is not found. The first such method gives the error, and of its types the first.
-/
namespace RpcGateway.Schema

namespace Registry
variable {r : Registry}

/-! ## The first method that is not resolved -/

/-- Both types of a method are found from a package. -/
def FindsTypes (r : Registry) (package : String) (m : MethodDecl) : Prop :=
  (∃ found, r.lookupMessage package m.input = .ok found) ∧
    ∃ found, r.lookupMessage package m.output = .ok found

/-- The error for the first of a method's two types that is not found. -/
inductive MissesType (r : Registry) (package service : String) (m : MethodDecl) :
    ResolveError → Prop
  | input (missing : ∀ found, r.lookupMessage package m.input ≠ .ok found) :
      MissesType r package service m
        (.unresolvedMethodType service m.name .input m.input (.messageNotFound m.input))
  | output (found : ∃ found, r.lookupMessage package m.input = .ok found)
      (missing : ∀ found, r.lookupMessage package m.output ≠ .ok found) :
      MissesType r package service m
        (.unresolvedMethodType service m.name .output m.output (.messageNotFound m.output))

/-- Everything before a method of a declaration is resolved, service by service. -/
def ResolvedUpTo (r : Registry) (d : FileDecl) (s : ServiceDecl) (m : MethodDecl) : Prop :=
  (∃ before after, d.services = before ++ s :: after ∧
    ∀ earlier ∈ before, ∀ m' ∈ earlier.methods, r.FindsTypes d.package m') ∧
  ∃ before after, s.methods = before ++ m :: after ∧ ∀ m' ∈ before, r.FindsTypes d.package m'

/-- Why the services of a file are not loaded. -/
inductive ServicesFail (r : Registry) (path : String) : ResolveError → Prop
  | noFile (absent : r.files.get? path = none) : ServicesFail r path (.lookup (.fileNotFound path))
  | method (f : File) (s : ServiceDecl) (m : MethodDecl) (e : ResolveError)
      (stored : r.files.get? path = some f) (earlier : r.ResolvedUpTo f.decl s m)
      (missing : r.MissesType f.decl.package s.name m e) : ServicesFail r path e

/-! ## Methods, services and files -/

section Method
variable {package service : String} {m : MethodDecl} {e : ResolveError}

theorem methodType_input :
    r.methodType package service m .input =
      match r.lookupMessage package m.input with
      | .ok found => .ok found.fullName
      | .error cause => .error (.unresolvedMethodType service m.name .input m.input cause) := rfl

theorem methodType_output :
    r.methodType package service m .output =
      match r.lookupMessage package m.output with
      | .ok found => .ok found.fullName
      | .error cause => .error (.unresolvedMethodType service m.name .output m.output cause) := rfl

/-- A method is resolved, or one of its types is missing. -/
theorem resolveMethod_cases (r : Registry) (package : String) (s : ServiceDecl) (m : MethodDecl) :
    (r.FindsTypes package m ∧ ∃ resolved, r.resolveMethod package s m = .ok resolved) ∨
      ∃ e, r.MissesType package s.name m e ∧ r.resolveMethod package s m = .error e := by
  cases hi : r.lookupMessage package m.input with
  | error cause =>
    obtain ⟨hmissing, rfl⟩ := lookupMessage_eq_error_iff.mp hi
    refine .inr ⟨_, .input hmissing, ?_⟩
    rw [resolveMethod, methodType_input, hi]
    rfl
  | ok input =>
    cases ho : r.lookupMessage package m.output with
    | error cause =>
      obtain ⟨hmissing, rfl⟩ := lookupMessage_eq_error_iff.mp ho
      refine .inr ⟨_, .output ⟨input, hi⟩ hmissing, ?_⟩
      rw [resolveMethod, methodType_input, methodType_output, hi, ho]
      rfl
    | ok output =>
      refine .inl ⟨⟨⟨input, hi⟩, output, ho⟩, ?_⟩
      rw [resolveMethod, methodType_input, methodType_output, hi, ho]
      exact ⟨_, rfl⟩

theorem FindsTypes.not_misses (h : r.FindsTypes package m) : ¬ r.MissesType package service m e := by
  intro hm
  cases hm with
  | input hmissing => exact h.1.elim hmissing
  | output _ hmissing => exact h.2.elim hmissing

theorem MissesType.unique {e' : ResolveError} (h : r.MissesType package service m e)
    (h' : r.MissesType package service m e') : e = e' := by
  cases h with
  | input hmissing =>
    cases h' with
    | input => rfl
    | output hfound => exact absurd hfound.choose_spec (hmissing _)
  | output hfound =>
    cases h' with
    | input hmissing => exact absurd hfound.choose_spec (hmissing _)
    | output => rfl

theorem exists_resolveMethod_iff {s : ServiceDecl} :
    (∃ resolved, r.resolveMethod package s m = .ok resolved) ↔ r.FindsTypes package m := by
  rcases resolveMethod_cases r package s m with ⟨hfinds, hok⟩ | ⟨e, hm, he⟩
  · exact iff_of_true hok hfinds
  · refine iff_of_false ?_ fun hfinds => hfinds.not_misses hm
    rintro ⟨resolved, hok⟩
    rw [he] at hok
    cases hok

theorem resolveMethod_eq_error_iff {s : ServiceDecl} :
    r.resolveMethod package s m = .error e ↔ r.MissesType package s.name m e := by
  rcases resolveMethod_cases r package s m with ⟨hfinds, resolved, hok⟩ | ⟨e', hm, he⟩
  · refine iff_of_false ?_ hfinds.not_misses
    rw [hok]
    intro h
    cases h
  · rw [he]
    constructor
    · intro h
      cases h
      exact hm
    · intro h
      rw [hm.unique h]

end Method

section Service
variable {file package : String} {s : ServiceDecl} {e : ResolveError}

theorem resolveService_eq_map (r : Registry) (file package : String) (s : ServiceDecl) :
    r.resolveService file package s =
      (s.methods.mapM (r.resolveMethod package s)).map (Service.mk file package s) := by
  unfold resolveService
  cases s.methods.mapM (r.resolveMethod package s) <;> rfl

theorem exists_resolveService_iff :
    (∃ resolved, r.resolveService file package s = .ok resolved) ↔
      ∀ m ∈ s.methods, r.FindsTypes package m := by
  rw [resolveService_eq_map]
  constructor
  · rintro ⟨resolved, h⟩ m hm
    obtain ⟨methods, hmethods, -⟩ := exists_of_map_eq_ok h
    exact exists_resolveMethod_iff.mp (exists_of_mem_of_mapM_eq_ok hmethods hm)
  · intro h
    obtain ⟨methods, hmethods⟩ :=
      exists_mapM_eq_ok fun m hm => exists_resolveMethod_iff (s := s).mpr (h m hm)
    rw [hmethods]
    exact ⟨_, rfl⟩

theorem resolveService_eq_error_iff :
    r.resolveService file package s = .error e ↔ ∃ before m after, s.methods = before ++ m :: after ∧
      (∀ m' ∈ before, r.FindsTypes package m') ∧ r.MissesType package s.name m e := by
  rw [resolveService_eq_map, map_eq_error_iff, mapM_eq_error_iff]
  simp only [exists_resolveMethod_iff, resolveMethod_eq_error_iff]

end Service

theorem resolveServices_eq_map (r : Registry) (d : FileDecl) :
    r.resolveServices d = (d.services.mapM (r.resolveService d.name d.package)).map
      (List.filter fun s => !s.methods.isEmpty) := by
  unfold resolveServices
  cases d.services.mapM (r.resolveService d.name d.package) <;> rfl

theorem resolveServices_eq_error_iff {d : FileDecl} {e : ResolveError} :
    r.resolveServices d = .error e ↔
      ∃ s m, r.ResolvedUpTo d s m ∧ r.MissesType d.package s.name m e := by
  rw [resolveServices_eq_map, map_eq_error_iff, mapM_eq_error_iff]
  simp only [exists_resolveService_iff, resolveService_eq_error_iff]
  constructor
  · rintro ⟨before, s, after, hs, hbefore, done, m, rest, hm, hdone, hmissing⟩
    exact ⟨s, m, ⟨⟨before, after, hs, hbefore⟩, done, rest, hm, hdone⟩, hmissing⟩
  · rintro ⟨s, m, ⟨⟨before, after, hs, hbefore⟩, done, rest, hm, hdone⟩, hmissing⟩
    exact ⟨before, s, after, hs, hbefore, done, m, rest, hm, hdone, hmissing⟩

theorem loadServices_eq_error_iff {path : String} {e : ResolveError} :
    r.loadServices path = .error e ↔ r.ServicesFail path e := by
  cases hf : r.files.get? path with
  | none =>
    rw [loadServices_of_absent hf]
    constructor
    · intro h
      cases h
      exact .noFile hf
    · rintro (_ | ⟨f, s, m, _, hstored, -, -⟩)
      · rfl
      · rw [hf] at hstored
        cases hstored
  | some f =>
    rw [loadServices_of_stored hf, map_eq_error_iff, resolveServices_eq_error_iff]
    constructor
    · rintro ⟨s, m, hearlier, hmissing⟩
      exact .method f s m e hf hearlier hmissing
    · rintro (habsent | ⟨g, s, m, _, hstored, hearlier, hmissing⟩)
      · rw [hf] at habsent
        cases habsent
      · cases hf.symm.trans hstored
        exact ⟨s, m, hearlier, hmissing⟩

end Registry

end RpcGateway.Schema
