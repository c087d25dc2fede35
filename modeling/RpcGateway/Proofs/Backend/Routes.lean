import RpcGateway.Proofs.Backend.MethodKeys

/-!
Which methods the routes of a proxy lead to. Routes are named by service and method alone, without
the package, so of methods with one such name only the last is reached. The main statement says when
every method is reached under its name, and when as many routes are made as are counted.
-/
namespace RpcGateway.Backend
open Http Rpc Proto Schema

/-! ## Handlers -/

theorem unary_congr {b b' : Backend} {pool : Pool} {t : MethodType}
    (hready : b.notReady = b'.notReady)
    (hcall : ∀ q : Backend.Request, pathOf t = .ok q.path → b.call q = b'.call q)
    (payload : Proto.Message) (headers : List (String × Bytes)) (limit : Option Duration) :
    b.unary pool t payload headers limit = b'.unary pool t payload headers limit := by
  unfold unary
  rw [hready]
  cases hp : pathOf t with
  | error e => rfl
  | ok path =>
    cases hm : metadataOf headers with
    | error e => rfl
    | ok metadata =>
      cases he : encodeRequest pool t payload with
      | error s => rfl
      | ok message =>
        have hq := hcall ⟨path, sentMetadata metadata limit, message⟩ hp
        simp only [bind, Except.bind]
        rw [hq]

/-- A handler asks the server for nothing but the path of its method. -/
theorem proxyHandler_congr {b b' : Backend} {pool : Pool} {t : MethodType}
    (hready : b.notReady = b'.notReady)
    (hcall : ∀ q : Backend.Request, pathOf t = .ok q.path → b.call q = b'.call q) :
    b.proxyHandler pool t = b'.proxyHandler pool t := by
  funext ctx params
  unfold proxyHandler
  cases decodeParams pool t params with
  | error s => rfl
  | ok message =>
    simp only
    rw [unary_congr hready hcall]

/-! ## Registration -/

/-- The type that a pool has for a method. -/
def typeOf (pool : Pool) (m : Method) : MethodType :=
  (pool.method? m.serviceFullName m.name).getD default

/-- The types that routes lead to: a later method replaces an earlier one of its name. -/
def routes (pool : Pool) (ms : List Method) : Table MethodType :=
  Table.empty.fill Method.rpcName (typeOf pool) ms

/-- Handlers for some methods, in place of those of their names. -/
def withHandlers (b : Backend) (pool : Pool) (mux : Mux) (ms : List Method) : Mux :=
  { mux with
    handlers := mux.handlers.fill Method.rpcName (fun m => b.proxyHandler pool (typeOf pool m)) ms }

def Known (pool : Pool) (ms : List Method) : Prop :=
  ∀ m ∈ ms, pool.method? m.serviceFullName m.name = some (typeOf pool m)

theorem registerMethod_eq_ok {b : Backend} {pool : Pool} {mux mux' : Mux} {m : Method}
    (h : b.registerMethod pool mux m = .ok mux') :
    pool.method? m.serviceFullName m.name = some (typeOf pool m) ∧
      mux' = b.withHandlers pool mux [m] := by
  obtain ⟨t, ht, h⟩ := exists_of_bind_eq_ok h
  cases h
  have hfound : pool.method? m.serviceFullName m.name = some t := by
    rw [methodType] at ht
    split at ht
    · next hm =>
      cases ht
      exact hm
    · cases ht
  have htype : typeOf pool m = t := by rw [typeOf, hfound, Option.getD_some]
  rw [hfound, htype]
  refine ⟨rfl, ?_⟩
  show mux.register m.rpcName (b.proxyHandler pool t) =
    mux.register m.rpcName (b.proxyHandler pool (typeOf pool m))
  rw [htype]

theorem withHandlers_append (b : Backend) (pool : Pool) (mux : Mux) (ms ms' : List Method) :
    b.withHandlers pool mux (ms ++ ms') =
      b.withHandlers pool (b.withHandlers pool mux ms) ms' := by
  unfold withHandlers
  rw [Table.fill_append]

theorem registerMethods_eq_ok {b : Backend} {pool : Pool} {ms : List Method} {mux mux' : Mux}
    (h : ms.foldlM (b.registerMethod pool) mux = .ok mux') :
    Known pool ms ∧ mux' = b.withHandlers pool mux ms := by
  induction ms generalizing mux with
  | nil =>
    cases h
    exact ⟨by simp [Known], rfl⟩
  | cons m ms ih =>
    rw [List.foldlM_cons] at h
    obtain ⟨next, hm, h⟩ := exists_of_bind_eq_ok h
    obtain ⟨hfound, rfl⟩ := registerMethod_eq_ok hm
    obtain ⟨hknown, rfl⟩ := ih h
    exact ⟨List.forall_mem_cons.mpr ⟨hfound, hknown⟩,
      (withHandlers_append b pool mux [m] ms).symm⟩

theorem registerFile_eq_ok {b : Backend} {pool : Pool} {mux mux' : Mux} {f : File} {n : Nat}
    (h : b.registerFile pool mux f = .ok (mux', n)) :
    Known pool (unaryMethods f) ∧ mux' = b.withHandlers pool mux (unaryMethods f) ∧
      n = (unaryMethods f).length := by
  obtain ⟨_, hms, h⟩ := exists_of_bind_eq_ok h
  cases h
  obtain ⟨hknown, hmux⟩ := registerMethods_eq_ok hms
  exact ⟨hknown, hmux, rfl⟩

theorem registerFiles_eq_ok {b : Backend} {pool : Pool} {fs : List File} {mux mux' : Mux}
    {count n : Nat}
    (h : fs.foldlM (fun (mux, count) f => do
      let (mux, n) ← b.registerFile pool mux f
      return (mux, count + n)) (mux, count) = .ok (mux', n)) :
    Known pool (fs.flatMap unaryMethods) ∧
      mux' = b.withHandlers pool mux (fs.flatMap unaryMethods) ∧
      n = count + (fs.flatMap unaryMethods).length := by
  induction fs generalizing mux count with
  | nil =>
    cases h
    exact ⟨by simp [Known], rfl, rfl⟩
  | cons f fs ih =>
    rw [List.foldlM_cons] at h
    obtain ⟨⟨next, sum⟩, hstep, h⟩ := exists_of_bind_eq_ok h
    obtain ⟨⟨_, _⟩, hf, hstep⟩ := exists_of_bind_eq_ok hstep
    obtain ⟨hhead, rfl, rfl⟩ := registerFile_eq_ok hf
    cases hstep
    obtain ⟨htail, rfl, rfl⟩ := ih h
    rw [List.flatMap_cons]
    refine ⟨?_, ?_, ?_⟩
    · exact fun m hm => (List.mem_append.mp hm).elim (hhead m) (htail m)
    · rw [withHandlers_append]
    · rw [List.length_append]
      omega

theorem registerAll_eq_ok {b : Backend} {pool : Pool} {mux mux' : Mux} {r : Registry} {n : Nat}
    (h : b.registerAll pool mux r = .ok (mux', n)) :
    Known pool (targetMethods r) ∧ mux' = b.withHandlers pool mux (targetMethods r) ∧
      n = (targetMethods r).length := by
  obtain ⟨hknown, hmux, hn⟩ := registerFiles_eq_ok h
  exact ⟨hknown, hmux, by rw [hn, Nat.zero_add, targetMethods]⟩

/-! ## Reached methods -/

/-- The route of a method's name leads to the method's path. -/
def Reached (pool : Pool) (ms : List Method) (m : Method) : Prop :=
  ∃ t, (routes pool ms).get? m.rpcName = some t ∧ t.path = m.path

theorem path_typeOf {files : List FileDecl} {pool : Pool} (hp : Linked files pool) {m : Method}
    (h : pool.method? m.serviceFullName m.name = some (typeOf pool m)) :
    (typeOf pool m).path = m.path ↔ isAbsolute m.serviceFullName = false := by
  obtain ⟨hservice, hname⟩ := hp.method? h
  rw [MethodType.path, Method.path, hservice, hname]
  constructor
  · intro he
    cases ha : isAbsolute m.serviceFullName with
    | false => rfl
    | true =>
      have hs : Pool.withoutDot m.serviceFullName = m.serviceFullName := by
        simpa [String.append_left_inj, String.append_right_inj] using he
      exact absurd hs (withoutDot_ne_of_isAbsolute ha)
  · intro ha
    rw [withoutDot_of_not_isAbsolute ha]

/-- All methods are reached exactly if their routes differ and no service is named with a dot in
front. -/
theorem all_reached_iff {files : List FileDecl} {pool : Pool} (hp : Linked files pool)
    {ms : List Method} (hknown : Known pool ms) (hkeys : (ms.map methodKey).Nodup) :
    (∀ m ∈ ms, Reached pool ms m) ↔
      (ms.map Method.rpcName).Nodup ∧ ∀ m ∈ ms, isAbsolute m.serviceFullName = false := by
  constructor
  · intro hreached
    have hnames : (ms.map Method.rpcName).Nodup := by
      -- Two methods of one route would both have the path that it leads to.
      refine List.Nodup.map_on ?_ (List.Nodup.of_map _ hkeys)
      intro m hm m' hm' hname
      obtain ⟨t, ht, hpath⟩ := hreached m hm
      obtain ⟨t', ht', hpath'⟩ := hreached m' hm'
      rw [hname] at ht
      cases ht.symm.trans ht'
      exact List.inj_on_of_nodup_map hkeys hm hm'
        (methodKey_eq_of_rpcName_of_path hname (hpath.symm.trans hpath'))
    refine ⟨hnames, ?_⟩
    -- Now each method has a route of its own, which the pool looked up without a dot in front.
    intro m hm
    obtain ⟨t, ht, hpath⟩ := hreached m hm
    have hself : (routes pool ms).get? m.rpcName = some (typeOf pool m) :=
      Table.get?_fill_of_nodup hnames hm
    cases hself.symm.trans ht
    exact (path_typeOf hp (hknown m hm)).mp hpath
  · rintro ⟨hnames, hdots⟩ m hm
    exact ⟨typeOf pool m, Table.get?_fill_of_nodup hnames hm,
      (path_typeOf hp (hknown m hm)).mpr (hdots m hm)⟩

/-- After a successful registration for a registry whose files are all linked into the pool, the
count is that of the unary methods of the targets and each handler is the proxy of a route. Every
method is reached exactly if their routes differ and no service is named with a dot in front, and
there are as many routes as are counted exactly if the routes differ. -/
theorem every_method_reached_iff {files : List FileDecl} {pool : Pool} {history : List Operation}
    {b : Backend} {o : Mux.Options} {mux : Mux} {n : Nat} (hlink : Pool.link files = .ok pool)
    (hfiles : ∀ op ∈ history, ∀ d ∈ op.files, d ∈ files)
    (h : b.registerAll pool ⟨.empty, o⟩ (Registry.empty.after history) = .ok (mux, n)) :
    let ms := targetMethods (Registry.empty.after history)
    n = ms.length ∧
    (∀ name, mux.handlers.get? name = ((routes pool ms).get? name).map (b.proxyHandler pool)) ∧
    ((∀ m ∈ ms, Reached pool ms m) ↔
      (ms.map Method.rpcName).Nodup ∧ ∀ m ∈ ms, isAbsolute m.serviceFullName = false) ∧
    (n = mux.methods.length ↔ (ms.map Method.rpcName).Nodup) := by
  intro ms
  have hp := linked_of_link hlink
  have hr : (Registry.empty.after history).Consistent :=
    Registry.kept_consistent.always Registry.consistent_empty history
  have hdrawn : (Registry.empty.after history).DrawnFrom (· ∈ files) :=
    (Registry.kept_drawnFrom _).after hfiles fun _ _ hf => by cases hf
  obtain ⟨hknown, rfl, rfl⟩ := registerAll_eq_ok h
  refine ⟨rfl, ?_, all_reached_iff hp hknown (nodup_methodKey hp hr hdrawn), ?_⟩
  · exact Table.get?_fill_map (b.proxyHandler pool) ms
  · rw [Mux.methods, List.length_mergeSort, eq_comm]
    exact Table.length_names_fill

/-! ## Services of one name in two packages -/

/-- A file with one message and one service, whose only method takes and returns the message. -/
def oneMethodFile (package service : String) : FileDecl where
  name := package ++ ".proto"
  package := package
  messages := [{ name := "M" }]
  services := [⟨service, [{
    name := "Say"
    input := "." ++ package ++ ".M"
    output := "." ++ package ++ ".M" }], {}⟩]
  dialect := some implicitDialect

def poolOf (files : List FileDecl) : Pool := (Pool.link files).toOption.getD default

/-- The registry into which files are loaded with each of them as a target. -/
def registryOf (files : List FileDecl) : Registry := Registry.empty.after [.loadAll files]

def sameServices : List FileDecl := [oneMethodFile "a.v1" "Greeter", oneMethodFile "b.v1" "Greeter"]

def otherServices : List FileDecl := [oneMethodFile "a.v1" "Greeter", oneMethodFile "b.v1" "Herald"]

theorem shadowed_method :
    Pool.link sameServices = .ok (poolOf sameServices) ∧
    (∃ mux, Backend.registerAll default (poolOf sameServices) ⟨.empty, {}⟩
        (registryOf sameServices) = .ok (mux, 2) ∧
      mux.methods.length = 1) ∧
    ∃ m ∈ targetMethods (registryOf sameServices), m.path = "/a.v1.Greeter/Say" ∧
      ((routes (poolOf sameServices) (targetMethods (registryOf sameServices))).get?
        m.rpcName).map MethodType.path = some "/b.v1.Greeter/Say" ∧
      ¬ Reached (poolOf sameServices) (targetMethods (registryOf sameServices)) m := by
  refine ⟨rfl, ⟨withHandlers default (poolOf sameServices) ⟨.empty, {}⟩
    (targetMethods (registryOf sameServices)), rfl, ?_⟩, ?_⟩
  · rw [Mux.methods, List.length_mergeSort]
    rfl
  · let m : Method := ⟨"Greeter", "a.v1.Greeter",
      { name := "Say", input := ".a.v1.M", output := ".a.v1.M" }, ".a.v1.M", ".a.v1.M"⟩
    have hroute : ((routes (poolOf sameServices) (targetMethods (registryOf sameServices))).get?
        m.rpcName).map MethodType.path = some "/b.v1.Greeter/Say" := by decide
    refine ⟨m, by decide, by decide, hroute, ?_⟩
    rintro ⟨t, ht, hpath⟩
    rw [ht, Option.map_some, hpath] at hroute
    exact absurd hroute (by decide)

theorem every_method_reached_two_services :
    Pool.link otherServices = .ok (poolOf otherServices) ∧
    ∃ mux, Backend.registerAll default (poolOf otherServices) ⟨.empty, {}⟩
        (registryOf otherServices) = .ok (mux, 2) ∧
      mux.methods.length = 2 ∧
      ∀ m ∈ targetMethods (registryOf otherServices),
        Reached (poolOf otherServices) (targetMethods (registryOf otherServices)) m := by
  have hlink : Pool.link otherServices = .ok (poolOf otherServices) := rfl
  refine ⟨hlink, withHandlers default (poolOf otherServices) ⟨.empty, {}⟩
    (targetMethods (registryOf otherServices)), rfl, ?_⟩
  have hfiles : ∀ op ∈ [Operation.loadAll otherServices], ∀ d ∈ op.files, d ∈ otherServices := by
    intro op hop d hd
    rw [List.mem_singleton.mp hop] at hd
    exact hd
  obtain ⟨-, -, hreached, hcount⟩ :=
    every_method_reached_iff (b := default) (o := {}) hlink hfiles rfl
  have hnames : ((targetMethods (registryOf otherServices)).map Method.rpcName).Nodup := by
    decide
  have hdots : ∀ m ∈ targetMethods (registryOf otherServices),
      isAbsolute m.serviceFullName = false := by decide
  exact ⟨(hcount.mpr hnames).symm, hreached.mpr ⟨hnames, hdots⟩⟩

end RpcGateway.Backend
