import RpcGateway.Proofs.Schema.FieldPaths

/-!
Path parameters of well-known types. A parameter is accepted for the spelling of its field's type
name, which is not resolved for that. So a well-known type is refused where it is named relative to
a scope, and accepted by its absolute name even where it is not registered.
-/
namespace RpcGateway.Schema

/-- The type name of a field means a well-known type, seen from the message that holds the field. -/
def Field.MeansWellKnown (r : Registry) (f : Field) : Prop :=
  ∃ meant, r.lookupMessage f.owner f.typeName = .ok meant ∧ isWellKnown meant.fullName = true

theorem isAbsolute_of_isWellKnown {name : String} (h : isWellKnown name = true) :
    isAbsolute name = true := by
  have hall : ∀ n ∈ wellKnownTypes, isAbsolute n = true := by decide
  exact hall name (List.contains_iff_mem.mp h)

namespace Registry
variable {r : Registry} {m : Method} {path : String} {root : Message} {trail : FieldPath}
  {t : Field}

/-! ## What is accepted -/

/-- A path that ends at a field is a parameter, unless the field is of a message type whose name is
not spelled like a well-known one. -/
theorem bindParameter_of_terminal (hroot : r.requestMessage m = .ok root)
    (hpath : r.resolvePath root path true = .ok trail) (ht : trail.terminal? = some t) :
    r.bindParameter m path =
      if t.isAggregate && !isWellKnown t.typeName then
        .error (.invalidPathParameterType m.rpcName path)
      else .ok ⟨trail, m.rpcName, t⟩ := by
  unfold bindParameter
  rw [hroot]
  show (r.resolvePath root path true >>= _) = _
  rw [hpath]
  simp only [Bind.bind, Except.bind, ht]
  rfl

theorem accepted_iff_spelled (hroot : r.requestMessage m = .ok root)
    (hpath : r.resolvePath root path true = .ok trail) (ht : trail.terminal? = some t)
    (ha : t.isAggregate = true) :
    (∃ p, r.bindParameter m path = .ok p) ↔ isWellKnown t.typeName = true := by
  rw [bindParameter_of_terminal hroot hpath ht, ha]
  cases isWellKnown t.typeName <;> simp

/-! ## What is meant -/

theorem lookupMessage_of_isAbsolute {location name : String} {meant : Message}
    (habs : isAbsolute name = true) :
    r.lookupMessage location name = .ok meant ↔ r.messages.get? name = some meant := by
  unfold lookupMessage
  rw [resolve_of_isAbsolute _ _ habs]
  cases r.messages.get? name <;> simp

/-- What a name is spelled like and what it means are both well known, or neither, exactly if no
well-known type is meant by a relative name or named without being registered. -/
theorem Consistent.isWellKnown_iff_means (h : Consistent r) (f : Field) :
    (isWellKnown f.typeName = true ↔ f.MeansWellKnown r) ↔
      (f.MeansWellKnown r → isAbsolute f.typeName = true) ∧
        (isWellKnown f.typeName = true → (r.messages.get? f.typeName).isSome) := by
  have hmeant : ∀ meant, isAbsolute f.typeName = true →
      r.lookupMessage f.owner f.typeName = .ok meant → meant.fullName = f.typeName :=
    fun meant habs hm => (h.messages _ _ ((lookupMessage_of_isAbsolute habs).mp hm)).1
  constructor
  · intro hiff
    refine ⟨fun hmeans => isAbsolute_of_isWellKnown (hiff.mpr hmeans), fun hspelled => ?_⟩
    obtain ⟨meant, hm, -⟩ := hiff.mp hspelled
    rw [(lookupMessage_of_isAbsolute (isAbsolute_of_isWellKnown hspelled)).mp hm]
    rfl
  · rintro ⟨habs, hregistered⟩
    constructor
    · intro hspelled
      obtain ⟨meant, hm, hname⟩ := h.lookupMessage f.owner (hregistered hspelled)
      exact ⟨meant, hm, hname ▸ hspelled⟩
    · rintro ⟨meant, hm, hknown⟩
      rw [← hmeant meant (habs ⟨meant, hm, hknown⟩) hm]
      exact hknown

/-- A path of a stored method that ends at a message or a group is accepted as a parameter exactly if
the type name there is spelled like the absolute name of a well-known type. That is so exactly if
the name means a well-known type, unless a relative name means one or one is named that is not
registered. -/
theorem wellKnown_parameter_iff (hr : r.Reachable) {file : String} {f : File} {s : Service}
    (hf : r.files.get? file = some f) (hs : s ∈ f.services) (hm : m ∈ s.methods) :
    ∃ root, r.requestMessage m = .ok root ∧ ∀ path trail t,
      r.resolvePath root path true = .ok trail → trail.terminal? = some t →
      t.isAggregate = true →
      (r.bindParameter m path =
        if isWellKnown t.typeName then .ok ⟨trail, m.rpcName, t⟩
        else .error (.invalidPathParameterType m.rpcName path)) ∧
      (((∃ p, r.bindParameter m path = .ok p) ↔ t.MeansWellKnown r) ↔
        (t.MeansWellKnown r → isAbsolute t.typeName = true) ∧
          (isWellKnown t.typeName = true → (r.messages.get? t.typeName).isSome)) := by
  obtain ⟨history, rfl⟩ := hr
  have h : WellTyped (empty.after history) := kept_wellTyped.always wellTyped_empty history
  obtain ⟨root, hroot, -⟩ := h.toConsistent.lookupMessage "" (h.typed file f hf s hs m hm).request
  refine ⟨root, hroot, ?_⟩
  intro path trail t hpath ht ha
  constructor
  · rw [bindParameter_of_terminal hroot hpath ht, ha]
    cases isWellKnown t.typeName <;> rfl
  · rw [accepted_iff_spelled hroot hpath ht ha]
    exact h.toConsistent.isWellKnown_iff_means t

/-! ## One type under two names -/

def wrappersFile : FileDecl where
  name := "google/protobuf/wrappers.proto"
  package := "google.protobuf"
  messages := [{ name := "Int32Value", fields := [{ name := "value", number := 1, kind := .int32 }] }]

/-- A file with a method over a message whose field `limit` has a type of some name. -/
def limitFile (typeName : String) : FileDecl where
  name := "lookup.proto"
  package := "a"
  messages :=
    [{ name := "Query"
       fields := [{ name := "limit", number := 1, kind := .message, typeName := some typeName }] }]
  services := [⟨"Lookup", [{ name := "Get", input := ".a.Query", output := ".a.Query" }], {}⟩]

def getByLimit : Method where
  service := "Lookup"
  serviceFullName := "a.Lookup"
  decl := { name := "Get", input := ".a.Query", output := ".a.Query" }
  requestType := ".a.Query"
  responseType := ".a.Query"

def limitField (typeName : String) : Field where
  owner := ".a.Query"
  decl := { name := "limit", number := 1, kind := .message, typeName := some typeName }

/-- A registry in which the method is stored, and the path `limit` ends at its field. -/
structure EndsAtLimit (r : Registry) (typeName : String) : Prop where
  reachable : r.Reachable
  stored : ∃ f s, r.files.get? "lookup.proto" = some f ∧ s ∈ f.services ∧ getByLimit ∈ s.methods
  resolved : ∃ root trail, r.requestMessage getByLimit = .ok root ∧
    r.resolvePath root "limit" true = .ok trail ∧ trail.terminal? = some (limitField typeName)

/-- A registry with the method, and with the wrapper types or without them. -/
def limitRegistry (registered : Bool) (typeName : String) : Registry :=
  empty.after [.load ((if registered then [wrappersFile] else []) ++ [limitFile typeName])
    ["lookup.proto"]]

def relativeLimit : Registry := limitRegistry true "google.protobuf.Int32Value"

def absoluteLimit : Registry := limitRegistry true ".google.protobuf.Int32Value"

def unregisteredLimit : Registry := limitRegistry false ".google.protobuf.Int32Value"

theorem endsAtLimit (registered : Bool) (typeName : String) :
    EndsAtLimit (limitRegistry registered typeName) typeName := by
  cases registered <;> exact
    { reachable := ⟨_, rfl⟩
      stored := ⟨_, _, rfl, List.mem_singleton_self _, List.mem_singleton_self _⟩
      resolved := ⟨_, _, by rfl, by rfl, by rfl⟩ }

/-- A well-known type is refused under a relative name, and a type that is not registered is
accepted under the absolute name of one. -/
theorem spelling_decides :
    (EndsAtLimit relativeLimit "google.protobuf.Int32Value" ∧
      (limitField "google.protobuf.Int32Value").MeansWellKnown relativeLimit ∧
      ¬ ∃ p, relativeLimit.bindParameter getByLimit "limit" = .ok p) ∧
    EndsAtLimit unregisteredLimit ".google.protobuf.Int32Value" ∧
      ¬ (limitField ".google.protobuf.Int32Value").MeansWellKnown unregisteredLimit ∧
      ∃ p, unregisteredLimit.bindParameter getByLimit "limit" = .ok p := by
  refine ⟨⟨endsAtLimit true _, ⟨_, by rfl, by decide⟩, ?_⟩, endsAtLimit false _, ?_,
    _, by rfl⟩
  · rintro ⟨p, hp⟩
    have hrefused : relativeLimit.bindParameter getByLimit "limit" =
        .error (.invalidPathParameterType "Lookup.Get" "limit") := by rfl
    rw [hrefused] at hp
    cases hp
  · rintro ⟨meant, hmeant, -⟩
    have habsent : unregisteredLimit.lookupMessage ".a.Query" ".google.protobuf.Int32Value" =
        .error (.messageNotFound ".google.protobuf.Int32Value") := by rfl
    exact absurd (hmeant.symm.trans habsent) (by simp)

theorem wellKnown_parameter_iff_absolute :
    (∃ p, absoluteLimit.bindParameter getByLimit "limit" = .ok p) ∧
      (limitField ".google.protobuf.Int32Value").MeansWellKnown absoluteLimit := by
  have hends : EndsAtLimit absoluteLimit ".google.protobuf.Int32Value" := endsAtLimit true _
  obtain ⟨f, s, hf, hs, hm⟩ := hends.stored
  obtain ⟨root, trail, hroot, hpath, ht⟩ := hends.resolved
  obtain ⟨root', hroot', hall⟩ := wellKnown_parameter_iff hends.reachable hf hs hm
  cases hroot.symm.trans hroot'
  obtain ⟨haccepted, hagree⟩ := hall "limit" trail _ hpath ht rfl
  have hknown : isWellKnown (limitField ".google.protobuf.Int32Value").typeName = true := by
    decide
  have hregistered : (absoluteLimit.messages.get? ".google.protobuf.Int32Value").isSome := by rfl
  have hok : ∃ p, absoluteLimit.bindParameter getByLimit "limit" = .ok p :=
    ⟨_, haccepted.trans (if_pos hknown)⟩
  exact ⟨hok, (hagree.mpr ⟨fun _ => rfl, fun _ => hregistered⟩).mp hok⟩

end Registry

end RpcGateway.Schema
