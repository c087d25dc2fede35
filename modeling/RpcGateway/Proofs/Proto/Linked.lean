import Mathlib.Data.List.Flatten
import Mathlib.Data.List.Nodup
import RpcGateway.Proofs.Collections
import RpcGateway.Proto.Linking

/-!
What is known of files that were linked into a pool. No two files have one name, no method is
declared twice, and the pool finds services and methods under the names they were declared with.
-/
namespace RpcGateway.Proto
open Schema

theorem nodup_of_firstRepeated? {α : Type} [BEq α] [LawfulBEq α] {xs : List α}
    (h : firstRepeated? xs = none) : xs.Nodup := by
  induction xs with
  | nil => exact List.nodup_nil
  | cons x xs ih =>
    rw [firstRepeated?] at h
    split at h
    · cases h
    · next hx =>
      rw [List.nodup_cons]
      exact ⟨by simpa using hx, ih h⟩

theorem nodup_of_distinct {α : Type} [BEq α] [LawfulBEq α] {error : α → LinkError} {xs : List α}
    {u : Unit} (h : distinct error xs = .ok u) : xs.Nodup := by
  rw [distinct] at h
  split at h
  · cases h
  · next hx => exact nodup_of_firstRepeated? hx

/-- A service of a pool is stored under its name, which its methods carry. -/
def ServiceType.Filed (name : String) (s : ServiceType) : Prop :=
  s.fullName = name ∧ ∀ m ∈ s.methods, m.service = name

/-- What linking checks about names. -/
structure Linked (ds : List FileDecl) (pool : Pool) : Prop where
  files : (ds.map FileDecl.name).Nodup
  names : ((ds.flatMap fileNames).map DeclaredName.name).Nodup
  services : ∀ name s, pool.services.get? name = some s → s.Filed name

theorem filed_of_linkService {s : NameScope} {scope : String} {d : ServiceDecl} {t : ServiceType}
    (h : linkService s scope d = .ok t) : t.Filed t.fullName := by
  obtain ⟨methods, hmethods, h⟩ := exists_of_bind_eq_ok h
  cases h
  refine ⟨rfl, ?_⟩
  intro m hm
  obtain ⟨md, _, hmd⟩ := exists_mem_of_mapM_eq_ok hmethods hm
  obtain ⟨input, _, hmd⟩ := exists_of_bind_eq_ok hmd
  obtain ⟨output, _, hmd⟩ := exists_of_bind_eq_ok hmd
  cases hmd
  rfl

/-- What the steps of linking come to. -/
structure LinkSteps (ds : List FileDecl) (enumTypes : List (List EnumType))
    (messages : List MessageType) (services : List (List ServiceType)) : Prop where
  files : checkFiles ds = .ok ()
  names : checkNames ds = .ok ()
  enumsLinked : (ds.mapM fun d => (enumsOf d).mapM fun (scope, e) => linkEnum d.dialect scope e) =
    .ok enumTypes
  messagesLinked : (LinkScope.ofFiles ds).all.mapM
    (linkMessage (.ofList EnumType.fullName enumTypes.flatten) (.ofFiles ds)) = .ok messages
  servicesLinked : (ds.mapM fun d =>
    d.services.mapM (linkService ((LinkScope.ofFiles ds).of d.name) d.package)) = .ok services

theorem exists_linkSteps {ds : List FileDecl} {pool : Pool} (h : Pool.link ds = .ok pool) :
    ∃ enumTypes messages services, LinkSteps ds enumTypes messages services ∧
      pool.messages = .ofList MessageType.fullName messages ∧
      pool.enums = .ofList EnumType.fullName enumTypes.flatten ∧
      pool.services = .ofList ServiceType.fullName services.flatten := by
  obtain ⟨_, hfiles, h⟩ := exists_of_bind_eq_ok h
  obtain ⟨_, hnames, h⟩ := exists_of_bind_eq_ok h
  obtain ⟨enumTypes, henums, h⟩ := exists_of_bind_eq_ok h
  obtain ⟨messages, hmessages, h⟩ := exists_of_bind_eq_ok h
  obtain ⟨services, hservices, h⟩ := exists_of_bind_eq_ok h
  -- What remains are checks of the pool that was built.
  obtain ⟨_, _, h⟩ := exists_of_bind_eq_ok h
  obtain ⟨_, _, h⟩ := exists_of_bind_eq_ok h
  cases h
  exact ⟨enumTypes, messages, services, ⟨hfiles, hnames, henums, hmessages, hservices⟩,
    rfl, rfl, rfl⟩

theorem linked_of_link {ds : List FileDecl} {pool : Pool} (h : Pool.link ds = .ok pool) :
    Linked ds pool := by
  obtain ⟨enumTypes, messages, services, hsteps, -, -, htable⟩ := exists_linkSteps h
  obtain ⟨_, hfiles, _⟩ := exists_of_bind_eq_ok hsteps.files
  obtain ⟨_, hnames, _⟩ := exists_of_bind_eq_ok hsteps.names
  refine ⟨nodup_of_distinct hfiles, nodup_of_distinct hnames, ?_⟩
  intro name t ht
  rw [htable] at ht
  obtain ⟨ht, hname⟩ := Table.mem_of_ofList_get? ht
  obtain ⟨ts, hts, hmem⟩ := List.mem_flatten.mp ht
  obtain ⟨d, _, hd⟩ := exists_mem_of_mapM_eq_ok hsteps.servicesLinked hts
  obtain ⟨sd, _, hsd⟩ := exists_mem_of_mapM_eq_ok hd hmem
  exact hname ▸ filed_of_linkService hsd

/-- A method that the pool finds has the name and the service that were asked for, a dot in front
of the service aside. -/
theorem Linked.method? {ds : List FileDecl} {pool : Pool} (h : Linked ds pool)
    {service name : String} {t : MethodType} (ht : pool.method? service name = some t) :
    t.service = Pool.withoutDot service ∧ t.name = name := by
  obtain ⟨s, hs, ht⟩ := Option.bind_eq_some_iff.mp ht
  constructor
  · exact (h.services _ s hs).2 t (List.mem_of_find?_eq_some ht)
  · exact by simpa using List.find?_some ht

/-! ## Dots in front of names -/

theorem withoutDot_of_not_isAbsolute {name : String} (h : isAbsolute name = false) :
    Pool.withoutDot name = name := by
  unfold Pool.withoutDot
  split
  · next cs hcs => simp [isAbsolute, hcs] at h
  · rfl

theorem withoutDot_ne_of_isAbsolute {name : String} (h : isAbsolute name = true) :
    Pool.withoutDot name ≠ name := by
  obtain ⟨cs, hcs⟩ : ∃ cs, name.toList = '.' :: cs := by
    cases hn : name.toList with
    | nil => simp [isAbsolute, hn] at h
    | cons c cs =>
      have hc : c = '.' := by simpa [isAbsolute, hn] using h
      exact ⟨cs, by rw [hc]⟩
  intro he
  have hl := congrArg (fun s => s.toList.length) he
  simp [Pool.withoutDot, hcs] at hl

/-! ## Declared methods -/

/-- The methods that a file declares, each as the full name of its service and its own name. -/
def methodKeys (d : FileDecl) : List (String × String) :=
  d.services.flatMap fun s => s.methods.map fun m => (within d.package s.name, m.name)

/-- The names of services and methods are among the names that the file declares. -/
theorem serviceNames_sublist (d : FileDecl) :
    ((d.services.flatMap (serviceNames d.name d.package)).map DeclaredName.name).Sublist
      ((fileNames d).map DeclaredName.name) := by
  refine List.Sublist.map _ ?_
  rw [fileNames]
  exact (List.sublist_append_right _ _).trans (List.sublist_append_left _ _)

/-- The full names of the methods are among the names that the file declares. -/
theorem methodKeys_sublist (d : FileDecl) :
    ((methodKeys d).map fun (service, name) => within service name).Sublist
      ((fileNames d).map DeclaredName.name) := by
  refine List.Sublist.trans ?_ (serviceNames_sublist d)
  rw [methodKeys, List.map_flatMap, List.map_flatMap]
  apply List.Sublist.flatMap_right
  intro s _
  rw [serviceNames, List.map_cons, List.map_map, List.map_map]
  exact List.sublist_cons_self _ _

/-- No two methods of linked files have one service and one name. -/
theorem Linked.nodup_methodKeys {ds : List FileDecl} {pool : Pool} (h : Linked ds pool) :
    (ds.flatMap methodKeys).Nodup := by
  apply List.Nodup.of_map fun (service, name) => within service name
  refine List.Sublist.nodup ?_ h.names
  rw [List.map_flatMap, List.map_flatMap]
  exact List.Sublist.flatMap_right _ fun d _ => methodKeys_sublist d

/-! ## Declared services in the pool -/

/-- The full names of the services that a file declares. -/
def serviceKeys (d : FileDecl) : List String := d.services.map fun s => within d.package s.name

theorem serviceKeys_sublist (d : FileDecl) :
    (serviceKeys d).Sublist ((fileNames d).map DeclaredName.name) := by
  refine List.Sublist.trans ?_ (serviceNames_sublist d)
  rw [serviceKeys, List.map_eq_flatMap, List.map_flatMap]
  apply List.Sublist.flatMap_right
  intro s _
  rw [serviceNames, List.map_cons, List.singleton_sublist]
  exact List.mem_cons_self

/-- No two services of linked files have one full name. -/
theorem Linked.nodup_serviceKeys {ds : List FileDecl} {pool : Pool} (h : Linked ds pool) :
    (ds.flatMap serviceKeys).Nodup := by
  refine List.Sublist.nodup ?_ h.names
  rw [List.map_flatMap]
  exact List.Sublist.flatMap_right _ fun d _ => serviceKeys_sublist d

/-- A service of a pool that has the name and the methods of a declared one. -/
structure ServiceType.Describes (t : ServiceType) (package : String) (s : ServiceDecl) : Prop where
  fullName : t.fullName = within package s.name
  methods : t.methods.map MethodType.name = s.methods.map MethodDecl.name

theorem describes_of_linkService {s : NameScope} {scope : String} {d : ServiceDecl}
    {t : ServiceType} (h : linkService s scope d = .ok t) : t.Describes scope d := by
  obtain ⟨methods, hmethods, h⟩ := exists_of_bind_eq_ok h
  cases h
  refine ⟨rfl, map_eq_map_of_mapM_eq_ok ?_ hmethods⟩
  intro m t hm
  obtain ⟨input, _, hm⟩ := exists_of_bind_eq_ok hm
  obtain ⟨output, _, hm⟩ := exists_of_bind_eq_ok hm
  cases hm
  rfl

theorem ServiceType.Describes.isSome_method?_iff {t : ServiceType} {package name : String}
    {s : ServiceDecl} (h : t.Describes package s) :
    (t.method? name).isSome ↔ name ∈ s.methods.map MethodDecl.name := by
  rw [← h.methods, ServiceType.method?, List.find?_isSome, List.mem_map]
  simp only [beq_iff_eq]

/-- The services of a pool are those that its files declare, one for each in order. -/
theorem exists_services_of_link {ds : List FileDecl} {pool : Pool} (h : Pool.link ds = .ok pool) :
    ∃ services : List (List ServiceType),
      List.Forall₂ (fun d ts => List.Forall₂ (fun s t => t.Describes d.package s) d.services ts)
        ds services ∧
      services.flatten.map ServiceType.fullName = ds.flatMap serviceKeys ∧
      pool.services = .ofList ServiceType.fullName services.flatten := by
  obtain ⟨_, _, services, hsteps, -, -, htable⟩ := exists_linkSteps h
  refine ⟨services, (mapM_eq_ok_iff.mp hsteps.servicesLinked).imp fun d ts hd => ?_, ?_, htable⟩
  · exact (mapM_eq_ok_iff.mp hd).imp fun s t ht => describes_of_linkService ht
  · have hfile := map_eq_map_of_mapM_eq_ok (g := List.map ServiceType.fullName) (k := serviceKeys)
      (fun d ts hd => map_eq_map_of_mapM_eq_ok
        (fun s t ht => (describes_of_linkService ht).fullName) hd) hsteps.servicesLinked
    rw [List.map_flatten, hfile, List.flatMap_def]

section Services
variable {ds : List FileDecl} {pool : Pool} (hlink : Pool.link ds = .ok pool)
include hlink

/-- A service that the pool finds is declared under that name. -/
theorem exists_declared_of_get? {name : String} {t : ServiceType}
    (ht : pool.services.get? name = some t) :
    ∃ d ∈ ds, ∃ s ∈ d.services, t.Describes d.package s ∧ t.fullName = name := by
  obtain ⟨services, hservices, -, htable⟩ := exists_services_of_link hlink
  rw [htable] at ht
  obtain ⟨ht, hname⟩ := Table.mem_of_ofList_get? ht
  obtain ⟨ts, hts, hmem⟩ := List.mem_flatten.mp ht
  obtain ⟨d, hd, hdts⟩ := exists_left_of_forall₂ hservices hts
  obtain ⟨s, hs, hst⟩ := exists_left_of_forall₂ hdts hmem
  exact ⟨d, hd, s, hs, hst, hname⟩

/-- A declared service is found under its full name. -/
theorem exists_get?_of_declared {d : FileDecl} (hd : d ∈ ds) {s : ServiceDecl}
    (hs : s ∈ d.services) :
    ∃ t, pool.services.get? (within d.package s.name) = some t ∧ t.Describes d.package s := by
  obtain ⟨services, hservices, hnames, htable⟩ := exists_services_of_link hlink
  have hnodup : (services.flatten.map ServiceType.fullName).Nodup :=
    hnames ▸ (linked_of_link hlink).nodup_serviceKeys
  obtain ⟨ts, hts, hdts⟩ := exists_right_of_forall₂ hservices hd
  obtain ⟨t, ht, hst⟩ := exists_right_of_forall₂ hdts hs
  refine ⟨t, ?_, hst⟩
  rw [htable, Table.ofList_eq_fill, ← hst.fullName]
  exact Table.get?_fill_of_nodup hnodup (List.mem_flatten_of_mem hts ht)

/-- The pool finds a method exactly if it is declared, a dot in front of the service aside. -/
theorem isSome_method?_iff {service name : String} :
    (pool.method? service name).isSome ↔
      (Pool.withoutDot service, name) ∈ ds.flatMap methodKeys := by
  unfold Pool.method? Pool.service?
  constructor
  · intro h
    obtain ⟨m, hm⟩ := Option.isSome_iff_exists.mp h
    obtain ⟨t, ht, hm⟩ := Option.bind_eq_some_iff.mp hm
    obtain ⟨d, hd, s, hs, hst, hname⟩ := exists_declared_of_get? hlink ht
    have hdeclared := hst.isSome_method?_iff.mp (Option.isSome_iff_exists.mpr ⟨m, hm⟩)
    obtain ⟨md, hmd, rfl⟩ := List.mem_map.mp hdeclared
    rw [← hname, hst.fullName]
    exact List.mem_flatMap.mpr ⟨d, hd, List.mem_flatMap.mpr ⟨s, hs, List.mem_map_of_mem hmd⟩⟩
  · intro h
    obtain ⟨d, hd, h⟩ := List.mem_flatMap.mp h
    obtain ⟨s, hs, h⟩ := List.mem_flatMap.mp h
    obtain ⟨md, hmd, hkey⟩ := List.mem_map.mp h
    obtain ⟨hservice, hname⟩ := Prod.mk.inj hkey
    obtain ⟨t, ht, hst⟩ := exists_get?_of_declared hlink hd hs
    rw [← hservice, ← hname, ht]
    exact hst.isSome_method?_iff.mpr (List.mem_map_of_mem hmd)

end Services

end RpcGateway.Proto
