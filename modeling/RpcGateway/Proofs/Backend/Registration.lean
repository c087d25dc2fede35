import RpcGateway.Proofs.Backend.Calls
import RpcGateway.Proofs.Echo.Requests
import RpcGateway.Proofs.Mux.Acceptance

/-!
Registering what was loaded from the files of a pool. The registry and the pool name the same
methods, so every unary method gets a route and streaming ones get none. Only a service whose name
begins with a dot may be missed: the pool looks it up without the dot.
-/
namespace RpcGateway

/-! ## Routed names -/

namespace Mux
open Http

theorem mem_methods_iff {mux : Mux} {name : String} :
    name ∈ mux.methods ↔ (mux.handlers.get? name).isSome := by
  rw [methods, List.mem_mergeSort, Table.mem_names_iff]

/-- Where no name is routed twice, the names are listed in strictly ascending order. -/
theorem pairwise_methods {mux : Mux} (h : mux.handlers.names.Nodup) :
    mux.methods.Pairwise (· < ·) := by
  have hsorted : mux.methods.Pairwise fun a b => decide (a ≤ b) = true :=
    List.pairwise_mergeSort (by simpa using fun a b c => String.le_trans)
      (by simpa using String.le_total) _
  have hnodup : mux.methods.Nodup := (List.mergeSort_perm _ _).nodup_iff.mpr h
  refine (hsorted.and hnodup).imp ?_
  rintro a b ⟨hle, hne⟩
  exact Std.lt_of_le_of_ne (of_decide_eq_true hle) hne

/-- A call that nobody takes is answered as unimplemented. -/
theorem serve_of_unrouted {mux : Mux} {q : Request} {m : Envelope}
    (hq : Decodes mux.options.maxBodyBytes q m) (h : mux.handlers.get? m.method = none) :
    mux.serve q = errorResponse m (.of .unimplemented "method not implemented")
      mux.options.marshaler mux.options.pool := by
  rw [serve_of_decodes hq, dispatch, h]
  rfl

end Mux

namespace Backend
open Http Rpc Proto Schema

/-! ## Success and failure -/

theorem known_iff {pool : Pool} {ms : List Method} :
    Known pool ms ↔ ∀ m ∈ ms, (pool.method? m.serviceFullName m.name).isSome := by
  refine forall₂_congr fun m _ => ?_
  unfold typeOf
  cases pool.method? m.serviceFullName m.name <;> simp

theorem exists_registerMethod {pool : Pool} {m : Method}
    (h : (pool.method? m.serviceFullName m.name).isSome) (b : Backend) (mux : Mux) :
    ∃ mux', b.registerMethod pool mux m = .ok mux' := by
  obtain ⟨t, ht⟩ := Option.isSome_iff_exists.mp h
  refine ⟨mux.register m.rpcName (b.proxyHandler pool t), ?_⟩
  rw [registerMethod, methodType, ht]
  rfl

/-- Registration succeeds if the pool has all methods. -/
theorem exists_registerAll {pool : Pool} {r : Registry} (h : Known pool (targetMethods r))
    (b : Backend) (mux : Mux) : ∃ mux' n, b.registerAll pool mux r = .ok (mux', n) := by
  suffices hall : ∃ s, b.registerAll pool mux r = .ok s by
    obtain ⟨⟨mux', n⟩, hs⟩ := hall
    exact ⟨mux', n, hs⟩
  refine exists_foldlM_eq_ok ?_ (mux, 0)
  rintro f hf ⟨mux, count⟩
  have hmethod : ∀ m ∈ unaryMethods f, ∀ mux, ∃ mux', b.registerMethod pool mux m = .ok mux' :=
    fun m hm mux => exists_registerMethod
      (known_iff.mp h m (List.mem_flatMap.mpr ⟨f, hf, hm⟩)) b mux
  obtain ⟨next, hnext⟩ := exists_foldlM_eq_ok hmethod mux
  refine ⟨(next, count + (unaryMethods f).length), ?_⟩
  dsimp only
  rw [registerFile, hnext]
  rfl

/-- Registration succeeds exactly if the pool has all methods, and fails otherwise for one that it
does not have. -/
theorem registerAll_cases (b : Backend) (pool : Pool) (mux : Mux) (r : Registry) :
    (Known pool (targetMethods r) ∧ b.registerAll pool mux r =
      .ok (b.withHandlers pool mux (targetMethods r), (targetMethods r).length)) ∨
    (¬ Known pool (targetMethods r) ∧
      ∃ path, b.registerAll pool mux r = .error (.methodNotInPool path)) := by
  cases h : b.registerAll pool mux r with
  | ok result =>
    obtain ⟨mux', n⟩ := result
    obtain ⟨hknown, rfl, rfl⟩ := registerAll_eq_ok h
    exact .inl ⟨hknown, rfl⟩
  | error e =>
    obtain ⟨path⟩ := e
    refine .inr ⟨fun hknown => ?_, path, rfl⟩
    obtain ⟨mux', n, hok⟩ := exists_registerAll hknown b mux
    cases h.symm.trans hok

/-! ## Methods of loaded files -/

/-- The unary methods that files declare. -/
def unaryDeclared (files : List FileDecl) : List DeclaredMethod :=
  (files.flatMap FileDecl.methods).filter fun m => !m.isStreaming

/-- A method that a pool of the files does not find: its service has a dot in front of its name, and
no service of the name without the dot declares a method of its name. -/
def Missed (files : List FileDecl) (m : DeclaredMethod) : Prop :=
  isAbsolute m.serviceFullName = true ∧ ∀ other ∈ files.flatMap FileDecl.methods,
    other.serviceFullName = Pool.withoutDot m.serviceFullName → other.name ≠ m.name

theorem mem_methodKeys_iff {files : List FileDecl} {service name : String} :
    (service, name) ∈ files.flatMap methodKeys ↔
      ∃ m ∈ files.flatMap FileDecl.methods, m.serviceFullName = service ∧ m.name = name := by
  have hkeys : files.flatMap methodKeys =
      (files.flatMap FileDecl.methods).map fun m => (m.serviceFullName, m.name) := by
    rw [List.map_flatMap]
    refine List.flatMap_congr fun d _ => ?_
    rw [FileDecl.methods, List.map_flatMap]
    refine List.flatMap_congr fun s _ => ?_
    rw [List.map_map]
    rfl
  rw [hkeys, List.mem_map]
  simp only [Prod.mk.injEq]

section Loaded
variable {files : List FileDecl} {pool : Pool} (hlink : Pool.link files = .ok pool)
include hlink

/-- The pool finds all declared methods but the missed ones. -/
theorem isSome_method?_iff_not_missed {m : DeclaredMethod}
    (hm : m ∈ files.flatMap FileDecl.methods) :
    (pool.method? m.serviceFullName m.name).isSome ↔ ¬ Missed files m := by
  rw [isSome_method?_iff hlink, mem_methodKeys_iff, Missed, not_and]
  constructor
  · rintro ⟨other, hother, hservice, hname⟩ - hnone
    exact hnone other hother hservice hname
  · intro hnot
    cases ha : isAbsolute m.serviceFullName with
    | false => exact ⟨m, hm, (withoutDot_of_not_isAbsolute ha).symm, rfl⟩
    | true =>
      by_contra hnone
      refine hnot ha fun other hother hservice hname => hnone ⟨other, hother, hservice, hname⟩

variable {r₀ r : Registry} (hfresh : r₀.targets = []) (hload : r₀.loadAll files = (r, .ok ()))
include hfresh hload

/-- The proxied methods are the unary ones that the files declare, in order. -/
theorem declared_targetMethods : (targetMethods r).map Method.declared = unaryDeclared files := by
  rw [targetMethods_eq_filter, unaryDeclared,
    ← Registry.declared_targetFiles (linked_of_link hlink).files hfresh hload, List.filter_map]
  rfl

theorem known_targetMethods_iff :
    Known pool (targetMethods r) ↔ ∀ m ∈ unaryDeclared files, ¬ Missed files m := by
  rw [known_iff, ← declared_targetMethods hlink hfresh hload, List.forall_mem_map]
  refine forall₂_congr fun m hm => isSome_method?_iff_not_missed hlink (m := m.declared) ?_
  have hmem : m.declared ∈ unaryDeclared files :=
    declared_targetMethods hlink hfresh hload ▸ List.mem_map_of_mem hm
  exact List.mem_of_mem_filter hmem

/-- Once the files of a pool are loaded into a registry without targets, registration fails exactly
if one of their unary methods is missed. Otherwise it counts the unary methods, their names in
ascending order are the routed ones, and a call of a streaming method whose name no unary one has is
answered as unimplemented. -/
theorem registerAll_loadAll (b : Backend) (o : Mux.Options) :
    let register := b.registerAll pool ⟨.empty, o⟩ r
    ((∃ path, register = .error (.methodNotInPool path)) ↔
      ∃ m ∈ unaryDeclared files, Missed files m) ∧
    ((∃ mux, register = .ok (mux, (unaryDeclared files).length)) ↔
      ∀ m ∈ unaryDeclared files, ¬ Missed files m) ∧
    ∀ mux n, register = .ok (mux, n) →
      n = (unaryDeclared files).length ∧
      mux.methods.Pairwise (· < ·) ∧
      (∀ name, name ∈ mux.methods ↔ ∃ m ∈ unaryDeclared files, m.rpcName = name) ∧
      ∀ m ∈ files.flatMap FileDecl.methods, m.isStreaming = true →
        (∀ other ∈ unaryDeclared files, other.rpcName ≠ m.rpcName) →
        ∀ q e, Mux.Decodes o.maxBodyBytes q e → e.method = m.rpcName →
          mux.serve q = Mux.errorResponse e (.of .unimplemented "method not implemented")
            o.marshaler o.pool := by
  intro register
  have hdeclared := declared_targetMethods hlink hfresh hload
  have hlength : (targetMethods r).length = (unaryDeclared files).length := by
    rw [← hdeclared, List.length_map]
  have hcases := registerAll_cases b pool ⟨.empty, o⟩ r
  rw [known_targetMethods_iff hlink hfresh hload] at hcases
  refine ⟨?_, ?_, ?_⟩
  · rcases hcases with ⟨hfound, hok⟩ | ⟨hmissed, herror⟩
    · refine iff_of_false ?_ fun ⟨m, hm, hmiss⟩ => hfound m hm hmiss
      rintro ⟨path, he⟩
      cases hok.symm.trans he
    · refine iff_of_true herror ?_
      simpa using hmissed
  · rcases hcases with ⟨hfound, hok⟩ | ⟨hmissed, path, herror⟩
    · exact iff_of_true ⟨_, hlength ▸ hok⟩ hfound
    · refine iff_of_false ?_ hmissed
      rintro ⟨mux, hok⟩
      cases herror.symm.trans hok
  · intro mux n hok
    obtain ⟨-, rfl, rfl⟩ := registerAll_eq_ok hok
    have hrouted : ∀ name, ((b.withHandlers pool ⟨.empty, o⟩ (targetMethods r)).handlers.get?
        name).isSome ↔ ∃ m ∈ unaryDeclared files, m.rpcName = name := by
      intro name
      rw [withHandlers, Table.isSome_get?_fill, ← hdeclared]
      simp only [List.mem_map, Table.get?_empty, Option.isSome_none, Bool.false_eq_true, or_false,
        exists_exists_and_eq_and]
      rfl
    refine ⟨hlength, Mux.pairwise_methods (Table.nodup_names_fill _ List.nodup_nil),
      fun name => Mux.mem_methods_iff.trans (hrouted name), ?_⟩
    intro m _ _ hother q e hq he
    refine Mux.serve_of_unrouted hq (Option.not_isSome_iff_eq_none.mp fun hsome => ?_)
    obtain ⟨other, hmem, hname⟩ := (hrouted e.method).mp hsome
    exact hother other hmem (hname.trans he)

end Loaded

/-! ## A service with a dot in front of its name, and a schema with a streaming method -/

def dottedFile : FileDecl where
  name := "s.proto"
  messages := [{ name := "M" }]
  services := [⟨".S", [{ name := "Say", input := ".M", output := ".M" }], {}⟩]
  dialect := some implicitDialect

/-- The file is a pool of its own and is loaded, but the pool has no service `S`. -/
theorem dotted_service_missed :
    Pool.link [dottedFile] = .ok (poolOf [dottedFile]) ∧
    Registry.empty.loadAll [dottedFile] = (registryOf [dottedFile], .ok ()) ∧
    Backend.registerAll default (poolOf [dottedFile]) ⟨.empty, {}⟩ (registryOf [dottedFile]) =
      .error (.methodNotInPool "/.S/Say") :=
  ⟨rfl, rfl, rfl⟩

theorem registerAll_loadAll_echo :
    let streaming := "EchoService.ServerStreamingEcho"
    Pool.link Echo.files = .ok Echo.pool ∧ Registry.empty.targets = [] ∧
    Registry.empty.loadAll Echo.files = (registryOf Echo.files, .ok ()) ∧
    ∃ mux, Backend.registerAll default Echo.pool ⟨.empty, {}⟩ (registryOf Echo.files) =
        .ok (mux, 3) ∧
      mux.methods.Pairwise (· < ·) ∧
      (∀ name, name ∈ mux.methods ↔
        name ∈ ["EchoService.UnaryEcho", "EchoService.Fail", "EchoService.Slow"]) ∧
      mux.serve (callTo streaming) = Mux.errorResponse (calling streaming)
        (.of .unimplemented "method not implemented") .json none := by
  intro streaming
  have hlink : Pool.link Echo.files = .ok Echo.pool := Echo.link_files
  have hload : Registry.empty.loadAll Echo.files = (registryOf Echo.files, .ok ()) := by rfl
  have hdots : ∀ m ∈ unaryDeclared Echo.files, isAbsolute m.serviceFullName = false := by
    decide
  have hunary : (unaryDeclared Echo.files).map DeclaredMethod.rpcName =
      ["EchoService.UnaryEcho", "EchoService.Fail", "EchoService.Slow"] := by decide
  obtain ⟨-, hok, hmux⟩ := registerAll_loadAll hlink rfl hload default {}
  obtain ⟨mux, hregister⟩ := hok.mpr fun m hm hmissed =>
    Bool.false_ne_true ((hdots m hm).symm.trans hmissed.1)
  obtain ⟨-, hsorted, hnames, hanswer⟩ := hmux mux _ hregister
  refine ⟨hlink, rfl, hload, mux, hregister, hsorted, ?_, ?_⟩
  · intro name
    rw [hnames, ← List.mem_map, hunary]
  · have hq : Mux.Decodes ({} : Mux.Options).maxBodyBytes (callTo streaming) (calling streaming) :=
      Mux.accept_eq_ok_iff.mp (rfl : (⟨.empty, {}⟩ : Mux).accept (callTo streaming) = _)
    let m : DeclaredMethod :=
      ⟨"EchoService", "echo.v1.EchoService", Echo.method "ServerStreamingEcho" true⟩
    exact hanswer m (by decide) rfl (by decide) _ _ hq rfl

end Backend

end RpcGateway
