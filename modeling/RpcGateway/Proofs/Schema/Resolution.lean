import RpcGateway.Proofs.Collections
import RpcGateway.Schema.Services

/-!
What the services of a file are resolved to. Services without methods are left out; every other one
keeps its place, and its methods are those that it declares.
-/
namespace RpcGateway.Schema

/-- A service that was resolved from its declaration in a file. -/
structure Service.ResolvedFrom (d : FileDecl) (s : Service) : Prop where
  file : s.file = d.name
  package : s.package = d.package
  methods_ne_nil : s.methods ≠ []
  /-- The methods are those of the declaration, in order. -/
  methods : s.methods.map Method.decl = s.decl.methods
  names : ∀ m ∈ s.methods, m.service = s.name ∧ m.serviceFullName = s.fullName

/-- A file whose services, if they are loaded, were resolved from its own declaration. -/
structure File.Resolved (f : File) : Prop where
  declared : (f.services.map Service.decl).Sublist f.decl.services
  services : ∀ s ∈ f.services, s.ResolvedFrom f.decl

namespace Registry

theorem lookupMessage_eq_error_iff {r : Registry} {location name : String} {e : LookupError} :
    r.lookupMessage location name = .error e ↔
      (∀ m, r.lookupMessage location name ≠ .ok m) ∧ e = .messageNotFound name := by
  unfold lookupMessage
  cases resolve r.messages location name <;> simp [eq_comm]

/-- What services are resolved to depends on the registered messages alone. -/
theorem resolveServices_congr {r s : Registry} (h : r.messages.get? = s.messages.get?)
    (d : FileDecl) : r.resolveServices d = s.resolveServices d := by
  have hl : r.lookupMessage = s.lookupMessage := by
    funext location name
    unfold lookupMessage resolve
    rw [h]
  have hm : r.methodType = s.methodType := by
    funext package service m role
    unfold methodType
    rw [hl]
  unfold resolveServices resolveService resolveMethod
  rw [hm]

/-! ## What is resolved -/

theorem resolveMethod_eq_ok {r : Registry} {package : String} {s : ServiceDecl} {d : MethodDecl}
    {m : Method} (h : r.resolveMethod package s d = .ok m) :
    m.decl = d ∧ m.service = s.name ∧ m.serviceFullName = serviceFullName package s.name := by
  obtain ⟨request, _, h⟩ := exists_of_bind_eq_ok h
  obtain ⟨response, _, h⟩ := exists_of_bind_eq_ok h
  cases h
  exact ⟨rfl, rfl, rfl⟩

theorem resolveService_eq_ok {r : Registry} {d : FileDecl} {sd : ServiceDecl} {s : Service}
    (h : r.resolveService d.name d.package sd = .ok s) :
    s.decl = sd ∧ (s.methods ≠ [] → s.ResolvedFrom d) := by
  obtain ⟨ms, hms, h⟩ := exists_of_bind_eq_ok h
  cases h
  refine ⟨rfl, fun hne => ⟨rfl, rfl, hne, ?_, ?_⟩⟩
  · exact map_of_mapM_eq_ok (fun _ _ hm => (resolveMethod_eq_ok hm).1) hms
  · intro m hm
    obtain ⟨md, _, hmd⟩ := exists_mem_of_mapM_eq_ok hms hm
    exact (resolveMethod_eq_ok hmd).2

theorem resolveServices_eq_ok {r : Registry} {f : File} {services : List Service}
    (h : r.resolveServices f.decl = .ok services) :
    File.Resolved { f with services := services } := by
  obtain ⟨all, hall, h⟩ := exists_of_bind_eq_ok h
  cases h
  have hdecl : all.map Service.decl = f.decl.services :=
    map_of_mapM_eq_ok (fun _ _ hs => (resolveService_eq_ok hs).1) hall
  refine ⟨hdecl ▸ List.filter_sublist.map _, ?_⟩
  intro s hs
  obtain ⟨hmem, hne⟩ := List.mem_filter.mp hs
  obtain ⟨sd, _, hsd⟩ := exists_mem_of_mapM_eq_ok hall hmem
  exact (resolveService_eq_ok hsd).2 (by simpa using hne)

end Registry

end RpcGateway.Schema
