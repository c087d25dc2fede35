import RpcGateway.Proofs.Schema.PathSplitting
import RpcGateway.Proofs.Schema.WellKnownParameters

/-!
Bindings of methods. A rule is bound exactly if each of its expressions is, from the message that
the expression starts from, and what it is bound to shows the expression again. The first expression
that is not bound gives the error.
-/
namespace RpcGateway.Schema

/-! ## What expressions are bound to -/

/-- A parameter stands for a path: it ends at its target, passes no optional field, and does not end
at a message that is not spelled like a well-known one. -/
structure Parameter.StandsFor (path : String) (p : Parameter) : Prop where
  target : p.path.terminal? = some p.target
  text : p.path.text = path
  required : ∀ s ∈ p.path.steps, s.target.isOptional = false
  spelled : p.target.isAggregate = true → p.target.typeName ∈ wellKnownTypes

/-- A body stands for an expression: nothing for the empty one, the whole message for an asterisk,
and for any other a field at the end of a trail that shows it. -/
inductive Body.StandsFor : String → Body → Prop
  | none : StandsFor "" .none
  | wholeMessage : StandsFor "*" .wholeMessage
  | field {path : String} {trail : FieldPath} (notEmpty : path ≠ "") (notWhole : path ≠ "*")
      (passes : trail.steps ≠ []) (text : trail.text = path) : StandsFor path (.field trail)

namespace Registry

/-- An expression that a body may be bound by, within a message. -/
def Bindable (r : Registry) (root : Message) (path : String) : Prop :=
  path = "" ∨ path = "*" ∨ ∃ trail, r.resolvePath root path false = .ok trail

/-- The error of the first expression of a rule that is not bound: of the parameters in their order,
then of the body, then of the response. -/
inductive FirstFails (r : Registry) (m : Method) (rule : BindingRule) (e : ResolveError) : Prop
  | parameter (before : List String) (path : String) (after : List String)
      (split : rule.parameters = before ++ path :: after)
      (bound : ∀ path' ∈ before, ∃ p, r.bindParameter m path' = .ok p)
      (fails : r.bindParameter m path = .error e)
  | body (bound : ∀ path ∈ rule.parameters, ∃ p, r.bindParameter m path = .ok p)
      (fails : r.bindBody m rule.body = .error e)
  | response (bound : ∀ path ∈ rule.parameters, ∃ p, r.bindParameter m path = .ok p)
      (boundBody : ∃ body, r.bindBody m rule.body = .ok body)
      (fails : r.bindResponse m rule.responseBody = .error e)

variable {r : Registry} {m : Method} {rule : BindingRule} {root : Message} {path : String}

/-! ## Rules and their expressions -/

theorem bind_eq_ok {b : Binding} (h : r.bind m rule = .ok b) :
    rule.parameters.mapM (r.bindParameter m) = .ok b.parameters ∧
      r.bindBody m rule.body = .ok b.body ∧
      r.bindResponse m rule.responseBody = .ok b.responseBody := by
  obtain ⟨parameters, hparameters, h⟩ := exists_of_bind_eq_ok h
  obtain ⟨body, hbody, h⟩ := exists_of_bind_eq_ok h
  obtain ⟨response, hresponse, h⟩ := exists_of_bind_eq_ok h
  cases h
  exact ⟨hparameters, hbody, hresponse⟩

theorem bind_of_parameters {parameters : List Parameter} {body : Body}
    (hparameters : rule.parameters.mapM (r.bindParameter m) = .ok parameters)
    (hbody : r.bindBody m rule.body = .ok body) :
    r.bind m rule = (r.bindResponse m rule.responseBody).map fun response =>
      ⟨m.rpcName, parameters, body, response⟩ := by
  rw [bind, hparameters]
  show (r.bindBody m rule.body >>= _) = _
  rw [hbody]
  rfl

theorem exists_bind_iff :
    (∃ b, r.bind m rule = .ok b) ↔
      (∀ path ∈ rule.parameters, ∃ p, r.bindParameter m path = .ok p) ∧
        (∃ body, r.bindBody m rule.body = .ok body) ∧
        ∃ body, r.bindResponse m rule.responseBody = .ok body := by
  constructor
  · rintro ⟨b, hb⟩
    obtain ⟨hparameters, hbody, hresponse⟩ := bind_eq_ok hb
    exact ⟨fun path hpath => exists_of_mem_of_mapM_eq_ok hparameters hpath, ⟨_, hbody⟩,
      ⟨_, hresponse⟩⟩
  · rintro ⟨hparameters, ⟨body, hbody⟩, ⟨response, hresponse⟩⟩
    obtain ⟨parameters, hps⟩ := exists_mapM_eq_ok hparameters
    refine ⟨⟨m.rpcName, parameters, body, response⟩, ?_⟩
    rw [bind_of_parameters hps hbody, hresponse]
    rfl

theorem bind_eq_error_iff {e : ResolveError} :
    r.bind m rule = .error e ↔ FirstFails r m rule e := by
  constructor
  · intro h
    rcases error_of_bind_eq_error h with hparameters | ⟨ps, hps, h⟩
    · obtain ⟨before, path, after, hsplit, hbefore, hpath⟩ := mapM_eq_error_iff.mp hparameters
      exact .parameter before path after hsplit hbefore hpath
    have hbound : ∀ path ∈ rule.parameters, ∃ p, r.bindParameter m path = .ok p :=
      fun path hpath => exists_of_mem_of_mapM_eq_ok hps hpath
    rcases error_of_bind_eq_error h with hbody | ⟨body, hbody, h⟩
    · exact .body hbound hbody
    rcases error_of_bind_eq_error h with hresponse | ⟨response, -, h⟩
    · exact .response hbound ⟨body, hbody⟩ hresponse
    · cases h
  · rintro (⟨before, path, after, hsplit, hbefore, hpath⟩ | ⟨hbound, hbody⟩ |
      ⟨hbound, ⟨body, hbody⟩, hresponse⟩)
    · rw [bind, mapM_eq_error_iff.mpr ⟨before, path, after, hsplit, hbefore, hpath⟩]
      rfl
    · obtain ⟨ps, hps⟩ := exists_mapM_eq_ok hbound
      rw [bind, hps]
      show (r.bindBody m rule.body >>= _) = _
      rw [hbody]
      rfl
    · obtain ⟨ps, hps⟩ := exists_mapM_eq_ok hbound
      rw [bind_of_parameters hps hbody, hresponse]
      rfl

/-! ## Single expressions -/

theorem bindBody_eq (hroot : r.requestMessage m = .ok root) (path : String) :
    r.bindBody m path = r.bindWithin root path := by
  rw [bindBody, hroot]
  rfl

theorem bindResponse_eq (hroot : r.responseMessage m = .ok root) (path : String) :
    r.bindResponse m path = r.bindWithin root path := by
  rw [bindResponse, hroot]
  rfl

theorem bindWithin_of_path (hempty : path ≠ "") (hwhole : path ≠ "*") :
    r.bindWithin root path = (r.resolvePath root path false).map .field := by
  rw [bindWithin, if_neg hempty, if_neg hwhole]
  cases r.resolvePath root path false <;> rfl

theorem exists_bindWithin_iff :
    (∃ body, r.bindWithin root path = .ok body) ↔ Bindable r root path := by
  by_cases hempty : path = ""
  · exact iff_of_true ⟨.none, by rw [bindWithin, if_pos hempty]⟩ (.inl hempty)
  by_cases hwhole : path = "*"
  · exact iff_of_true ⟨.wholeMessage, by rw [bindWithin, if_neg hempty, if_pos hwhole]⟩
      (.inr (.inl hwhole))
  rw [bindWithin_of_path hempty hwhole, Bindable, or_iff_right hempty, or_iff_right hwhole]
  cases r.resolvePath root path false <;> simp [Except.map]

section Held
variable (h : Consistent r) (hheld : ∃ key, r.messages.get? key = some root)
include h hheld

theorem Consistent.standsFor_of_bindWithin {body : Body} (hb : r.bindWithin root path = .ok body) :
    body.StandsFor path := by
  by_cases hempty : path = ""
  · subst hempty
    cases hb
    exact .none
  by_cases hwhole : path = "*"
  · subst hwhole
    cases hb
    exact .wholeMessage
  rw [bindWithin_of_path hempty hwhole] at hb
  obtain ⟨trail, htrail, rfl⟩ := exists_of_map_eq_ok hb
  obtain ⟨hnames, -, s, hlast⟩ := h.exists_last_of_resolvePath hheld hempty htrail
  refine .field hempty hwhole ?_ (text_of_names hnames)
  intro hnil
  rw [hnil] at hlast
  cases hlast

theorem Consistent.standsFor_of_bindParameter (hroot : r.requestMessage m = .ok root)
    {p : Parameter} (hp : r.bindParameter m path = .ok p) : p.StandsFor path := by
  rw [bindParameter, hroot] at hp
  obtain ⟨_, hself, hp⟩ := exists_of_bind_eq_ok hp
  cases hself
  obtain ⟨trail, htrail, hp⟩ := exists_of_bind_eq_ok hp
  cases ht : trail.terminal? with
  | none =>
    simp only [ht] at hp
    cases hp
  | some target =>
    simp only [ht] at hp
    split at hp
    · cases hp
    next haccepted =>
    cases hp
    have hne : path ≠ "" := by
      rintro rfl
      cases htrail
      cases ht
    obtain ⟨hnames, hchain, -⟩ := h.exists_last_of_resolvePath hheld hne htrail
    refine ⟨ht, text_of_names hnames, hchain.required rfl, ?_⟩
    intro ha
    rw [← List.contains_iff_mem]
    simpa [ha, isWellKnown] using haccepted

end Held

/-- A method that was stored after some history is bound, then or after any later history, exactly
if every expression of the rule is: each parameter by itself, and each body by being empty, an
asterisk or a path from its message. What comes out stands for the expressions in their order. A
rule that is not bound fails as its first expression that is not. -/
theorem bind_iff_each (history later : List Operation) {file : String} {f : File} {s : Service}
    (hf : (empty.after history).files.get? file = some f) (hs : s ∈ f.services)
    (hm : m ∈ s.methods) :
    let r := (empty.after history).after later
    ∃ request response, r.requestMessage m = .ok request ∧ r.responseMessage m = .ok response ∧
      ∀ rule : BindingRule,
        ((∃ b, r.bind m rule = .ok b) ↔
          (∀ path ∈ rule.parameters, ∃ p, r.bindParameter m path = .ok p) ∧
            Bindable r request rule.body ∧ Bindable r response rule.responseBody) ∧
        (∀ b, r.bind m rule = .ok b →
          List.Forall₂ Parameter.StandsFor rule.parameters b.parameters ∧
            Body.StandsFor rule.body b.body ∧
            Body.StandsFor rule.responseBody b.responseBody) ∧
        ∀ e, r.bind m rule = .error e ↔ FirstFails r m rule e := by
  intro r
  have hstored : m.Typed (empty.after history) :=
    (kept_wellTyped.always wellTyped_empty history).typed file f hf s hs m hm
  have htyped : m.Typed r := (kept_typed m).always hstored later
  have h : Consistent r :=
    kept_consistent.always (kept_consistent.always consistent_empty history) later
  obtain ⟨request, hrequest, -⟩ := h.lookupMessage "" htyped.request
  obtain ⟨response, hresponse, -⟩ := h.lookupMessage "" htyped.response
  have hheld := exists_of_lookupMessage hrequest
  refine ⟨request, response, hrequest, hresponse, fun rule => ⟨?_, ?_, fun e => bind_eq_error_iff⟩⟩
  · rw [exists_bind_iff, bindBody_eq hrequest, bindResponse_eq hresponse, exists_bindWithin_iff,
      exists_bindWithin_iff]
  · intro b hb
    obtain ⟨hparameters, hbody, hresponseBody⟩ := bind_eq_ok hb
    rw [bindBody_eq hrequest] at hbody
    rw [bindResponse_eq hresponse] at hresponseBody
    refine ⟨?_, h.standsFor_of_bindWithin hheld hbody,
      h.standsFor_of_bindWithin (exists_of_lookupMessage hresponse) hresponseBody⟩
    exact (mapM_eq_ok_iff.mp hparameters).imp fun _ _ hp =>
      h.standsFor_of_bindParameter hheld hrequest hp

/-! ## A method that is bound after its services were dropped -/

/-- Shelves with other shelves as annexes, and a method over them. -/
def shelfFile : FileDecl where
  name := "shelf.proto"
  package := "l"
  messages :=
    [{ name := "Shelf"
       fields :=
        [{ name := "id", number := 1, kind := .string },
          { name := "theme", number := 2, kind := .string, explicitPresence := true },
          { name := "annex", number := 3, kind := .message, typeName := some "Shelf" }] }]
  services := [⟨"Library", [{ name := "Find", input := "Shelf", output := "Shelf" }], {}⟩]

def findShelf : Method where
  service := "Library"
  serviceFullName := "l.Library"
  decl := { name := "Find", input := "Shelf", output := "Shelf" }
  requestType := ".l.Shelf"
  responseType := ".l.Shelf"

def shelfRule : BindingRule := ⟨["id", "annex.annex.id"], "*", "annex.theme"⟩

/-- Its second parameter passes an optional field, and what follows is not bound either. -/
def optionalRule : BindingRule := ⟨["id", "annex.theme", "pages"], "pages", ""⟩

theorem bind_iff_each_shelf :
    let history := [Operation.loadAll [shelfFile]]
    let later := [Operation.load [shelfFile] []]
    let r := (empty.after history).after later
    (∃ f s, (empty.after history).files.get? "shelf.proto" = some f ∧ s ∈ f.services ∧
      findShelf ∈ s.methods) ∧
    (r.files.get? "shelf.proto").map File.services = some [] ∧
    (∃ b, r.bind findShelf shelfRule = .ok b ∧
      List.Forall₂ Parameter.StandsFor ["id", "annex.annex.id"] b.parameters ∧
      Body.StandsFor "*" b.body ∧ Body.StandsFor "annex.theme" b.responseBody) ∧
    FirstFails r findShelf optionalRule (.optionalNotAllowedInPath "theme" "annex.theme") := by
  intro history later r
  obtain ⟨f, s, hf, hs, hm⟩ : ∃ f s, (empty.after history).files.get? "shelf.proto" = some f ∧
      s ∈ f.services ∧ findShelf ∈ s.methods :=
    ⟨_, _, rfl, List.mem_singleton_self _, List.mem_singleton_self _⟩
  obtain ⟨request, response, -, -, hrules⟩ := bind_iff_each history later hf hs hm
  obtain ⟨b, hb⟩ : ∃ b, r.bind findShelf shelfRule = .ok b := ⟨_, by rfl⟩
  refine ⟨⟨f, s, hf, hs, hm⟩, rfl, ⟨b, hb, (hrules shelfRule).2.1 b hb⟩, ?_⟩
  exact ((hrules optionalRule).2.2 _).mp (by rfl)

end Registry

end RpcGateway.Schema
