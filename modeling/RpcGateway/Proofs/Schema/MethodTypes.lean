import RpcGateway.Proofs.Schema.Consistency
import RpcGateway.Schema.Binding

/-!
The request and response types of methods. They are stored as names when services are loaded, and
the messages under those names are found ever after, whatever is loaded again in their place; so no
binding of a method fails for want of the message that it starts from.
-/
namespace RpcGateway.Schema

/-- Both types of a method are names of registered messages. -/
structure Method.Typed (r : Registry) (m : Method) : Prop where
  request : (r.messages.get? m.requestType).isSome
  response : (r.messages.get? m.responseType).isSome

namespace Registry

/-! ## Names that were looked up are registered -/

theorem exists_of_lookupMessage {r : Registry} {location name : String} {m : Message}
    (h : r.lookupMessage location name = .ok m) : ∃ key, r.messages.get? key = some m := by
  unfold lookupMessage at h
  split at h
  · next found hfound =>
    cases h
    obtain ⟨key, _, hkey⟩ := List.exists_of_findSome?_eq_some hfound
    exact ⟨key, hkey⟩
  · cases h

/-- The name of a message that was found is the name that it is registered under. -/
theorem Consistent.isSome_of_lookupMessage {r : Registry} (h : Consistent r)
    {location name : String} {m : Message} (hm : r.lookupMessage location name = .ok m) :
    (r.messages.get? m.fullName).isSome := by
  obtain ⟨key, hkey⟩ := exists_of_lookupMessage hm
  rw [(h.messages key m hkey).1, hkey]
  rfl

theorem Consistent.isSome_of_methodType {r : Registry} (h : Consistent r)
    {package service name : String} {d : MethodDecl} {role : Role}
    (hn : r.methodType package service d role = .ok name) : (r.messages.get? name).isSome := by
  cases role
  all_goals
    simp only [methodType] at hn
    split at hn
    · next hfound =>
      cases hn
      exact h.isSome_of_lookupMessage hfound
    · cases hn

theorem Consistent.typed_of_resolveMethod {r : Registry} (h : Consistent r) {package : String}
    {s : ServiceDecl} {d : MethodDecl} {m : Method} (hm : r.resolveMethod package s d = .ok m) :
    m.Typed r := by
  obtain ⟨request, hrequest, hm⟩ := exists_of_bind_eq_ok hm
  obtain ⟨response, hresponse, hm⟩ := exists_of_bind_eq_ok hm
  cases hm
  exact ⟨h.isSome_of_methodType hrequest, h.isSome_of_methodType hresponse⟩

theorem Consistent.typed_of_resolveServices {r : Registry} (h : Consistent r) {d : FileDecl}
    {services : List Service} (hs : r.resolveServices d = .ok services) {s : Service}
    (hmem : s ∈ services) {m : Method} (hm : m ∈ s.methods) : m.Typed r := by
  obtain ⟨all, hall, hs⟩ := exists_of_bind_eq_ok hs
  cases hs
  obtain ⟨sd, _, hsd⟩ := exists_mem_of_mapM_eq_ok hall (List.mem_filter.mp hmem).1
  obtain ⟨ms, hms, hsd⟩ := exists_of_bind_eq_ok hsd
  cases hsd
  obtain ⟨md, _, hmd⟩ := exists_mem_of_mapM_eq_ok hms hm
  exact h.typed_of_resolveMethod hmd

/-! ## Registered names stay registered -/

theorem kept_registered (name : String) :
    Kept (fun _ => True) (fun r => (r.messages.get? name).isSome) where
  loadFile := by
    intro r d _ h
    rw [loadFile_messages]
    exact isSome_insertAll.mpr (.inr h)
  loadServices := by
    intro r s path hs h
    obtain ⟨f, services, -, -, rfl⟩ := loadServices_eq_ok_iff.mp hs
    exact h
  addTarget := by
    intro r path _ h
    rw [addTarget_messages]
    exact h
  bindAlias := fun _ h => h
  settings := fun _ _ _ _ _ h => h

/-- What keeps names registered keeps methods typed. -/
theorem kept_typed (m : Method) : Kept (fun _ => True) (fun r => m.Typed r) where
  loadFile := fun ha h =>
    ⟨(kept_registered _).loadFile ha h.request, (kept_registered _).loadFile ha h.response⟩
  loadServices := fun hs h =>
    ⟨(kept_registered _).loadServices hs h.request, (kept_registered _).loadServices hs h.response⟩
  addTarget := fun hp h =>
    ⟨(kept_registered _).addTarget hp h.request, (kept_registered _).addTarget hp h.response⟩
  bindAlias := fun _ h => ⟨h.request, h.response⟩
  settings := fun _ _ _ _ _ h => ⟨h.request, h.response⟩

/-- A consistent registry in which all stored methods have their types. -/
structure WellTyped (r : Registry) : Prop extends Consistent r where
  typed : ∀ path f, r.files.get? path = some f →
    ∀ s ∈ f.services, ∀ m ∈ s.methods, m.Typed r

theorem wellTyped_empty : WellTyped empty where
  toConsistent := consistent_empty
  typed := fun _ _ h => by cases h

theorem kept_wellTyped : Kept (fun _ => True) WellTyped where
  loadFile := by
    intro r d ha h
    refine ⟨kept_consistent.loadFile ha h.toConsistent, ?_⟩
    intro path f hf s hs m hm
    rw [loadFile_files, Table.get?_insert] at hf
    split at hf
    · cases hf
      cases hs
    · exact (kept_typed m).loadFile ha (h.typed path f hf s hs m hm)
  loadServices := by
    intro r t path ht h
    refine ⟨kept_consistent.loadServices ht h.toConsistent, ?_⟩
    obtain ⟨f, services, hf, hservices, rfl⟩ := loadServices_eq_ok_iff.mp ht
    intro p g hg s hs m hm
    refine (kept_typed m).loadServices ht ?_
    rw [Table.get?_insert] at hg
    split at hg
    · cases hg
      exact h.typed_of_resolveServices hservices hs hm
    · exact h.typed p g hg s hs m hm
  addTarget := by
    intro r path hp h
    refine ⟨kept_consistent.addTarget hp h.toConsistent, ?_⟩
    intro p f hf s hs m hm
    rw [addTarget_files] at hf
    exact (kept_typed m).addTarget hp (h.typed p f hf s hs m hm)
  bindAlias := by
    intro r name path hfree h
    refine ⟨kept_consistent.bindAlias hfree h.toConsistent, ?_⟩
    intro p f hf s hs m hm
    exact (kept_typed m).bindAlias hfree (h.typed p f hf s hs m hm)
  settings := by
    intro r pathStart packageMap standalone useJsonNames depth h
    refine ⟨kept_consistent.settings _ _ _ _ _ h.toConsistent, ?_⟩
    intro p f hf s hs m hm
    exact (kept_typed m).settings _ _ _ _ _ (h.typed p f hf s hs m hm)

/-! ## Bindings do not miss a registered message -/

section Bindings
variable {r : Registry} (h : Consistent r) {name : String} (hn : (r.messages.get? name).isSome)
include h hn

/-- A look-up that fails asks for another name than a registered one. -/
theorem Consistent.lookupMessage_ne (location other : String) :
    r.lookupMessage location other ≠ .error (.messageNotFound name) := by
  intro he
  have hother : other = name := by
    unfold Registry.lookupMessage at he
    split at he
    · cases he
    · cases he
      rfl
  subst hother
  obtain ⟨m, hm, -⟩ := h.lookupMessage location hn
  rw [hm] at he
  cases he

theorem Consistent.enter_ne (path : String) (message : Message) (previous : Option Field) :
    r.enter path message previous ≠ .error (.lookup (.messageNotFound name)) := by
  intro he
  unfold Registry.enter at he
  split at he
  · cases he
  · split at he
    · split at he
      · cases he
      · next hl =>
        cases he
        exact h.lookupMessage_ne hn _ _ hl
    · cases he

omit h hn in
theorem stepField_ne (root : Message) (path : String) (asParameter : Bool) (message : Message)
    (field : String) : stepField root path asParameter message field ≠
      .error (.lookup (.messageNotFound name)) := by
  intro he
  unfold stepField at he
  split at he
  · cases he
  · split at he <;> cases he

/-- Following a path fails for the steps that it takes, not for a registered message. -/
theorem Consistent.followPath_ne (root : Message) (path : String) (asParameter : Bool)
    (message : Message) (previous : Option Field) (names : List String) :
    r.followPath root path asParameter message previous names ≠
      .error (.lookup (.messageNotFound name)) := by
  induction names generalizing message previous with
  | nil =>
    intro he
    cases he
  | cons first rest ih =>
    refine bind_ne_error (h.enter_ne hn path message previous) fun next => ?_
    refine bind_ne_error (stepField_ne root path asParameter next first) fun field => ?_
    refine bind_ne_error (ih next (some field)) fun steps => ?_
    intro he
    cases he

theorem Consistent.resolvePath_ne (root : Message) (path : String) (asParameter : Bool) :
    r.resolvePath root path asParameter ≠ .error (.lookup (.messageNotFound name)) := by
  unfold Registry.resolvePath
  split
  · intro he
    cases he
  · refine bind_ne_error (h.followPath_ne hn root path asParameter root none _) fun steps => ?_
    intro he
    cases he

theorem Consistent.bindWithin_ne (root : Message) (path : String) :
    r.bindWithin root path ≠ .error (.lookup (.messageNotFound name)) := by
  unfold bindWithin
  split
  · intro he
    cases he
  · split
    · intro he
      cases he
    · refine bind_ne_error (h.resolvePath_ne hn root path false) fun resolved => ?_
      intro he
      cases he

theorem Consistent.rootOf_ne (location other : String) :
    rootOf (r.lookupMessage location other) ≠ .error (.lookup (.messageNotFound name)) := by
  intro he
  unfold rootOf at he
  split at he
  · cases he
  · next hl =>
    cases he
    exact h.lookupMessage_ne hn location other hl

theorem Consistent.bindParameter_ne (m : Method) (path : String) :
    r.bindParameter m path ≠ .error (.lookup (.messageNotFound name)) := by
  refine bind_ne_error (h.rootOf_ne hn "" m.requestType) fun root => ?_
  refine bind_ne_error (h.resolvePath_ne hn root path true) fun resolved => ?_
  split
  · intro he
    cases he
  · split <;> (intro he; cases he)

theorem Consistent.bindBody_ne (m : Method) (path : String) :
    r.bindBody m path ≠ .error (.lookup (.messageNotFound name)) :=
  bind_ne_error (h.rootOf_ne hn "" m.requestType) fun root => h.bindWithin_ne hn root path

theorem Consistent.bindResponse_ne (m : Method) (path : String) :
    r.bindResponse m path ≠ .error (.lookup (.messageNotFound name)) :=
  bind_ne_error (h.rootOf_ne hn "" m.responseType) fun root => h.bindWithin_ne hn root path

theorem Consistent.bind_ne (m : Method) (rule : BindingRule) :
    r.bind m rule ≠ .error (.lookup (.messageNotFound name)) := by
  refine bind_ne_error (mapM_ne_error (h.bindParameter_ne hn m) rule.parameters) fun ps => ?_
  refine bind_ne_error (h.bindBody_ne hn m rule.body) fun body => ?_
  refine bind_ne_error (h.bindResponse_ne hn m rule.responseBody) fun response => ?_
  intro he
  cases he

end Bindings

end Registry

/-- The error that one of the types of a method is not found. -/
def Method.MissingType (m : Method) (e : ResolveError) : Prop :=
  e = .lookup (.messageNotFound m.requestType) ∨ e = .lookup (.messageNotFound m.responseType)

/-- The messages of a method are found under exactly the names of its types, and no binding of the
method fails because one of them is missing. -/
structure Method.Grounded (r : Registry) (m : Method) : Prop where
  request : ∃ request, r.requestMessage m = .ok request ∧ request.fullName = m.requestType
  response : ∃ response, r.responseMessage m = .ok response ∧ response.fullName = m.responseType
  parameter : ∀ path e, r.bindParameter m path = .error e → ¬ m.MissingType e
  body : ∀ path e, r.bindBody m path = .error e → ¬ m.MissingType e
  responseBody : ∀ path e, r.bindResponse m path = .error e → ¬ m.MissingType e
  binding : ∀ rule e, r.bind m rule = .error e → ¬ m.MissingType e

theorem Method.Typed.not_missingType {r : Registry} {m : Method} (h : m.Typed r) {α : Type}
    {x : Except ResolveError α}
    (hx : ∀ name, (r.messages.get? name).isSome → x ≠ .error (.lookup (.messageNotFound name)))
    {e : ResolveError} (he : x = .error e) : ¬ m.MissingType e := by
  rintro (rfl | rfl)
  · exact hx _ h.request he
  · exact hx _ h.response he

theorem Method.Typed.grounded {r : Registry} {m : Method} (h : m.Typed r)
    (hr : r.Consistent) : m.Grounded r where
  request := hr.lookupMessage "" h.request
  response := hr.lookupMessage "" h.response
  parameter := fun path _ => h.not_missingType fun _ hn => hr.bindParameter_ne hn m path
  body := fun path _ => h.not_missingType fun _ hn => hr.bindBody_ne hn m path
  responseBody := fun path _ => h.not_missingType fun _ hn => hr.bindResponse_ne hn m path
  binding := fun rule _ => h.not_missingType fun _ hn => hr.bind_ne hn m rule

namespace Registry

/-- A method that was stored after some history keeps its messages through every later one, whether
it is still stored by then or was taken out before. -/
theorem method_grounded_after (history later : List Operation) {path : String} {f : File}
    {s : Service} {m : Method} (hf : (empty.after history).files.get? path = some f)
    (hs : s ∈ f.services) (hm : m ∈ s.methods) :
    m.Grounded ((empty.after history).after later) := by
  have hstored : m.Typed (empty.after history) :=
    (kept_wellTyped.always wellTyped_empty history).typed path f hf s hs m hm
  have htyped : m.Typed ((empty.after history).after later) :=
    (kept_typed m).always hstored later
  have hconsistent : Consistent ((empty.after history).after later) :=
    kept_consistent.always (kept_consistent.always consistent_empty history) later
  exact htyped.grounded hconsistent

/-! ## A method that is taken out before its message is declared again -/

/-- A file with a method over its own message. -/
def greeterFile : FileDecl where
  name := "greeter.proto"
  package := "a"
  messages := [{ name := "M" }]
  services := [⟨"Greeter", [{ name := "Say", input := "M", output := ".a.M" }], {}⟩]

/-- A file that declares the same message in another form. -/
def rivalFile : FileDecl where
  name := "rival.proto"
  package := "a"
  messages := [{ name := "M", fields := [{ name := "x" }] }]

def say : Method where
  service := "Greeter"
  serviceFullName := "a.Greeter"
  decl := { name := "Say", input := "M", output := ".a.M" }
  requestType := ".a.M"
  responseType := ".a.M"

/-- The second load puts the rival's message in the place of the first, drops the services of the
reloaded file, and fails. -/
theorem method_grounded_after_failed_reload :
    let r := empty.after [.load [greeterFile] ["greeter.proto"]]
    let later := [Operation.load [greeterFile, rivalFile] ["missing.proto"]]
    (∃ f s, r.files.get? "greeter.proto" = some f ∧ s ∈ f.services ∧ say ∈ s.methods) ∧
    ((r.after later).files.get? "greeter.proto").map File.services = some [] ∧
    say.Grounded (r.after later) := by
  intro r later
  let s : Service := ⟨"greeter.proto", "a", ⟨"Greeter", [say.decl], {}⟩, [say]⟩
  obtain ⟨f, hf, hservices⟩ : ∃ f, r.files.get? "greeter.proto" = some f ∧ f.services = [s] :=
    ⟨_, rfl, rfl⟩
  have hs : s ∈ f.services := hservices ▸ List.mem_singleton_self s
  have hm : say ∈ s.methods := List.mem_singleton_self say
  exact ⟨⟨f, s, hf, hs, hm⟩, rfl, method_grounded_after _ later hf hs hm⟩

end Registry

end RpcGateway.Schema
