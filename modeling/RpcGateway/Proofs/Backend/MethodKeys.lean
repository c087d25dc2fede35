import RpcGateway.Backend.Proxy
import RpcGateway.Proofs.Proto.Linked
import RpcGateway.Proofs.Schema.DeclaredMethods

/-!
What tells proxied methods apart. The methods of linked files differ in the full names of their
services or in their own names, and so do methods of one route that have different paths.
-/
namespace RpcGateway.Backend
open Http Rpc Proto Schema

/-- All methods that are proxied, in the order of their registration. -/
def targetMethods (r : Registry) : List Method := r.targetFiles.flatMap unaryMethods

theorem targetMethods_eq_filter (r : Registry) :
    targetMethods r = (r.targetFiles.flatMap File.methods).filter fun m => !m.isStreaming :=
  List.filter_flatMap.symm

/-- What distinguishes a method from all others of a pool. -/
def methodKey (m : Method) : String × String := (m.serviceFullName, m.name)

/-! ## Methods of linked files -/

theorem keys_service {d : FileDecl} {s : Service} (h : s.ResolvedFrom d) :
    s.methods.map methodKey =
      s.decl.methods.map fun m => (within d.package s.decl.name, m.name) := by
  rw [← h.methods, List.map_map]
  apply List.map_congr_left
  intro m hm
  show (m.serviceFullName, m.decl.name) = (within d.package s.decl.name, m.decl.name)
  rw [(h.names m hm).2, Service.fullName, h.package]
  rfl

theorem keys_methods {f : File} (h : f.Resolved) :
    (f.methods.map methodKey).Sublist (methodKeys f.decl) := by
  have hall : f.methods.map methodKey =
      (f.services.map Service.decl).flatMap fun s =>
        s.methods.map fun m => (within f.decl.package s.name, m.name) := by
    rw [File.methods, List.map_flatMap, List.flatMap_map]
    exact List.flatMap_congr fun s hs => keys_service (h.services s hs)
  rw [hall]
  exact h.declared.flatMap _

/-- No two methods of different files have the same service and the same name, if the files are
among linked ones. -/
theorem nodup_keys_of_files {files : List FileDecl} {pool : Pool} (hp : Linked files pool)
    {fs : List File} (hdecls : (fs.map File.decl).Nodup) (hsubset : fs.map File.decl ⊆ files)
    (hresolved : ∀ f ∈ fs, f.Resolved) : ((fs.flatMap File.methods).map methodKey).Nodup := by
  -- The declarations are part of the linked files, in an order of their own.
  obtain ⟨ordered, hperm, hsub⟩ := List.subperm_of_subset hdecls hsubset
  have hordered : (ordered.flatMap methodKeys).Nodup :=
    (hsub.flatMap methodKeys).nodup hp.nodup_methodKeys
  have hkeys : ((fs.map File.decl).flatMap methodKeys).Nodup :=
    (hperm.flatMap_right methodKeys).nodup_iff.mp hordered
  refine List.Sublist.nodup ?_ hkeys
  rw [List.map_flatMap, List.flatMap_map]
  exact List.Sublist.flatMap_right _ fun f hf => keys_methods (hresolved f hf)

/-- No two proxied methods have the same service and the same name. -/
theorem nodup_methodKey {files : List FileDecl} {pool : Pool} (hp : Linked files pool)
    {r : Registry} (hr : r.Consistent) (hd : r.DrawnFrom (· ∈ files)) :
    ((targetMethods r).map methodKey).Nodup := by
  have hdecls : (r.targetFiles.map File.decl).Nodup := by
    apply List.Nodup.of_map FileDecl.name
    rw [List.map_map]
    exact hr.names_targetFiles ▸ hr.nodup_targets
  have hsubset : r.targetFiles.map File.decl ⊆ files := by
    intro d hmem
    obtain ⟨f, hf, rfl⟩ := List.mem_map.mp hmem
    obtain ⟨path, hget⟩ := Registry.exists_of_mem_targetFiles hf
    exact hd path f hget
  have hresolved : ∀ f ∈ r.targetFiles, f.Resolved := by
    intro f hf
    obtain ⟨path, hget⟩ := Registry.exists_of_mem_targetFiles hf
    exact hr.services path f hget
  rw [targetMethods_eq_filter]
  exact (List.filter_sublist.map _).nodup (nodup_keys_of_files hp hdecls hsubset hresolved)

/-! ## Names and paths -/

/-- Of two texts that end in parts of different lengths after one separator, the longer part ends in
the separator and the shorter one. -/
theorem exists_of_append_eq {c : Char} {s s' n n' : List Char} (h : s ++ c :: n = s' ++ c :: n')
    (hl : n.length < n'.length) : ∃ u, n' = u ++ c :: n := by
  rcases List.append_eq_append_iff.mp h with ⟨x, -, hx⟩ | ⟨x, -, hx⟩
  · have hlen := congrArg List.length hx
    simp only [List.length_cons, List.length_append] at hlen
    omega
  · cases x with
    | nil =>
      cases hx
      omega
    | cons a u => exact ⟨u, (List.cons.inj hx).2⟩

theorem not_shorter {s s' t t' n n' : List Char} (hdot : s ++ '.' :: n = s' ++ '.' :: n')
    (hslash : t ++ '/' :: n = t' ++ '/' :: n') : ¬ n.length < n'.length := by
  intro hl
  obtain ⟨u, hu⟩ := exists_of_append_eq hdot hl
  obtain ⟨v, hv⟩ := exists_of_append_eq hslash hl
  have hsep := (List.append_inj' (hu.symm.trans hv) rfl).2
  cases hsep

/-- The route and the path together tell a method, whatever characters its names are made of. -/
theorem methodKey_eq_of_rpcName_of_path {m m' : Method} (hname : m.rpcName = m'.rpcName)
    (hpath : m.path = m'.path) : methodKey m = methodKey m' := by
  have hdot : m.service.toList ++ '.' :: m.name.toList =
      m'.service.toList ++ '.' :: m'.name.toList := by
    have h := congrArg String.toList hname
    simpa [Method.rpcName, String.toList_append] using h
  have hslash : m.serviceFullName.toList ++ '/' :: m.name.toList =
      m'.serviceFullName.toList ++ '/' :: m'.name.toList := by
    have h := congrArg String.toList hpath
    simpa [Method.path, String.toList_append] using h
  have hlen : m.name.toList.length = m'.name.toList.length := by
    have h1 := not_shorter hdot hslash
    have h2 := not_shorter hdot.symm hslash.symm
    omega
  obtain ⟨hservice, htail⟩ := List.append_inj' hslash (by simp [hlen])
  rw [methodKey, methodKey, String.toList_inj.mp hservice,
    String.toList_inj.mp (List.cons.inj htail).2]

end RpcGateway.Backend
