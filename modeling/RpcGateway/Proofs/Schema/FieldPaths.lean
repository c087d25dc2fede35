import Mathlib.Data.List.Chain
import RpcGateway.Proofs.Schema.MethodTypes
import RpcGateway.Schema.FieldPath

/-!
What a dotted path resolves to. A path is resolved exactly if its components are the names of a
chain of fields, each in the type of the one before; otherwise the first component that has no
field on the chain gives the error.
-/
namespace RpcGateway.Schema

namespace Registry
variable {r : Registry} {root : Message} {path : String} {asParameter : Bool}

/-! ## Chains of fields -/

/-- A field leads to the first field of some name in its type, which is looked up from the message
that the field belongs to. -/
def LeadsTo (r : Registry) (s t : PathStep) : Prop :=
  s.target.isAggregate = true ∧
    ∃ m, r.lookupMessage s.target.owner s.target.typeName = .ok m ∧ m.field? t.name = some t.target

/-- A chain of fields from a message, none of them optional where a parameter is meant. -/
structure Chain (r : Registry) (root : Message) (asParameter : Bool) (trail : List PathStep) :
    Prop where
  first : ∀ s ∈ trail.head?, root.field? s.name = some s.target
  next : trail.IsChain r.LeadsTo
  required : asParameter = true → ∀ s ∈ trail, s.target.isOptional = false

/-- The message in which a chain goes on. -/
inductive GoesOn (r : Registry) (root : Message) (trail : List PathStep) (m : Message) : Prop
  | start (empty : trail = []) (self : m = root)
  | within (s : PathStep) (last : trail.getLast? = some s)
      (aggregate : s.target.isAggregate = true)
      (found : r.lookupMessage s.target.owner s.target.typeName = .ok m)

/-- The error of a component that a chain has no field for. -/
inductive Breaks (r : Registry) (root : Message) (path : String) (asParameter : Bool)
    (trail : List PathStep) (name : String) : ResolveError → Prop
  | notAnAggregate (s : PathStep) (last : trail.getLast? = some s)
      (scalar : s.target.isAggregate = false) :
      Breaks r root path asParameter trail name (.notAnAggregate s.target.name path)
  | missing (s : PathStep) (last : trail.getLast? = some s)
      (aggregate : s.target.isAggregate = true)
      (unknown : ∀ m, r.lookupMessage s.target.owner s.target.typeName ≠ .ok m) :
      Breaks r root path asParameter trail name (.lookup (.messageNotFound s.target.typeName))
  | noField (m : Message) (holder : GoesOn r root trail m) (absent : m.field? name = none) :
      Breaks r root path asParameter trail name (.fieldNotFound path root.name)
  | optional (m : Message) (f : Field) (holder : GoesOn r root trail m)
      (present : m.field? name = some f) (parameter : asParameter = true)
      (optional : f.isOptional = true) :
      Breaks r root path asParameter trail name (.optionalNotAllowedInPath f.name path)

theorem chain_nil : Chain r root asParameter [] where
  first := fun _ h => by cases h
  next := .nil
  required := fun _ _ h => by cases h

/-- A chain goes on in the root if it is empty, and in the message of its last field otherwise. -/
theorem goesOn_with_iff {trail : List PathStep} {s : PathStep} :
    (∃ m, GoesOn r root trail m ∧ m.field? s.name = some s.target) ↔
      (trail = [] ∧ root.field? s.name = some s.target) ∨
        ∃ l, trail.getLast? = some l ∧ r.LeadsTo l s := by
  constructor
  · rintro ⟨m, ⟨hempty, rfl⟩ | ⟨l, hl, ha, hm⟩, hf⟩
    · exact .inl ⟨hempty, hf⟩
    · exact .inr ⟨l, hl, ha, m, hm, hf⟩
  · rintro (⟨hempty, hf⟩ | ⟨l, hl, ha, m, hm, hf⟩)
    · exact ⟨root, .start hempty rfl, hf⟩
    · exact ⟨m, .within l hl ha hm, hf⟩

/-- A chain grows by a field of the message in which it goes on. -/
theorem chain_concat_iff {trail : List PathStep} {s : PathStep} :
    Chain r root asParameter (trail ++ [s]) ↔
      Chain r root asParameter trail ∧ (∃ m, GoesOn r root trail m ∧
        m.field? s.name = some s.target) ∧ (asParameter = true → s.target.isOptional = false) := by
  rw [goesOn_with_iff]
  constructor
  · rintro ⟨hfirst, hnext, hrequired⟩
    rw [List.isChain_append] at hnext
    refine ⟨⟨?_, hnext.1, ?_⟩, ?_, ?_⟩
    · intro t ht
      exact hfirst t (List.mem_head?_append_of_mem_head? ht)
    · intro hp t ht
      exact hrequired hp t (List.mem_append_left _ ht)
    · rcases List.eq_nil_or_concat trail with rfl | ⟨_, l, rfl⟩
      · exact .inl ⟨rfl, hfirst s rfl⟩
      · exact .inr ⟨l, by simp, hnext.2.2 l (by simp) s rfl⟩
    · intro hp
      exact hrequired hp s (List.mem_append_right _ (List.mem_singleton_self s))
  · rintro ⟨⟨hfirst, hnext, hrequired⟩, hlast, hs⟩
    refine ⟨?_, ?_, ?_⟩
    · intro t ht
      rcases hlast with ⟨rfl, hf⟩ | ⟨l, hl, -⟩
      · cases ht
        exact hf
      · cases trail with
        | nil => cases hl
        | cons first rest => exact hfirst t ht
    · rw [List.isChain_append]
      refine ⟨hnext, List.isChain_singleton s, ?_⟩
      intro l hl t ht
      cases ht
      rcases hlast with ⟨rfl, -⟩ | ⟨l', hl', hleads⟩
      · cases hl
      · cases hl'.symm.trans hl
        exact hleads
    · intro hp t ht
      rcases List.mem_append.mp ht with ht | ht
      · exact hrequired hp t ht
      · rw [List.mem_singleton.mp ht]
        exact hs hp

/-- Every beginning of a chain is a chain. -/
theorem Chain.of_append {trail rest : List PathStep}
    (h : Chain r root asParameter (trail ++ rest)) : Chain r root asParameter trail where
  first := fun s hs => h.first s (List.mem_head?_append_of_mem_head? hs)
  next := h.next.left_of_append
  required := fun hp s hs => h.required hp s (List.mem_append_left _ hs)

/-! ## One step -/

/-- What the walk along a path knows of the fields that it has passed: the last of them belongs to
the message that it was found in. -/
inductive Passed (root : Message) (trail : List PathStep) (message : Message) :
    Option Field → Prop
  | start (empty : trail = []) (self : message = root) : Passed root trail message none
  | field (s : PathStep) (last : trail.getLast? = some s)
      (owner : s.target.owner = message.fullName) : Passed root trail message (some s.target)

theorem enter_eq_ok_iff {trail : List PathStep} {message m : Message} {previous : Option Field}
    (h : Passed root trail message previous) :
    r.enter path message previous = .ok m ↔ GoesOn r root trail m := by
  cases h with
  | start hempty hself =>
    subst hempty hself
    constructor
    · intro hm
      cases hm
      exact .start rfl rfl
    · rintro (⟨-, rfl⟩ | ⟨s, hs, -⟩)
      · rfl
      · cases hs
  | field s hlast howner =>
    simp only [enter, ← howner]
    constructor
    · intro hm
      split at hm
      · next ha =>
        split at hm
        · next next hnext =>
          cases hm
          exact .within s hlast ha hnext
        · cases hm
      · cases hm
    · rintro (⟨rfl, -⟩ | ⟨t, ht, ha, hm⟩)
      · cases hlast
      · cases ht.symm.trans hlast
        rw [if_pos ha, hm]

theorem enter_eq_error_iff {trail : List PathStep} {message : Message} {previous : Option Field}
    (h : Passed root trail message previous) {e : ResolveError} :
    r.enter path message previous = .error e ↔ ∃ s, trail.getLast? = some s ∧
      (s.target.isAggregate = false ∧ e = .notAnAggregate s.target.name path ∨
        s.target.isAggregate = true ∧
          (∀ m, r.lookupMessage s.target.owner s.target.typeName ≠ .ok m) ∧
          e = .lookup (.messageNotFound s.target.typeName)) := by
  cases h with
  | start hempty hself =>
    subst hempty hself
    constructor
    · intro he
      cases he
    · rintro ⟨s, hs, -⟩
      cases hs
  | field s hlast howner =>
    simp only [enter, ← howner, hlast]
    constructor
    · intro he
      refine ⟨s, rfl, ?_⟩
      split at he
      · next ha =>
        split at he
        · cases he
        · next e' hl =>
          cases he
          obtain ⟨hmissing, rfl⟩ := lookupMessage_eq_error_iff.mp hl
          exact .inr ⟨ha, hmissing, rfl⟩
      · next ha =>
        cases he
        exact .inl ⟨(Bool.not_eq_true _).mp ha, rfl⟩
    · rintro ⟨t, ht, ⟨ha, rfl⟩ | ⟨ha, hmissing, rfl⟩⟩
      · cases ht
        rw [if_neg (by rw [ha]; exact Bool.false_ne_true)]
      · cases ht
        rw [if_pos ha, lookupMessage_eq_error_iff.mpr ⟨hmissing, rfl⟩]

theorem stepField_eq_ok_iff {m : Message} {name : String} {f : Field} :
    stepField root path asParameter m name = .ok f ↔
      m.field? name = some f ∧ (asParameter = true → f.isOptional = false) := by
  unfold stepField
  cases m.field? name with
  | none => simp
  | some g => cases asParameter <;> cases hg : g.isOptional <;> grind

theorem stepField_eq_error_iff {m : Message} {name : String} {e : ResolveError} :
    stepField root path asParameter m name = .error e ↔
      m.field? name = none ∧ e = .fieldNotFound path root.name ∨
        ∃ f, m.field? name = some f ∧ asParameter = true ∧ f.isOptional = true ∧
          e = .optionalNotAllowedInPath f.name path := by
  unfold stepField
  cases m.field? name with
  | none => grind
  | some g => cases asParameter <;> cases hg : g.isOptional <;> grind

/-- A component breaks the chain exactly if its step fails. -/
theorem breaks_iff {trail : List PathStep} {message : Message} {previous : Option Field}
    (h : Passed root trail message previous) {name : String} {e : ResolveError} :
    Breaks r root path asParameter trail name e ↔ r.enter path message previous = .error e ∨
      ∃ m, r.enter path message previous = .ok m ∧
        stepField root path asParameter m name = .error e := by
  rw [enter_eq_error_iff h]
  simp only [enter_eq_ok_iff h, stepField_eq_error_iff]
  constructor
  · rintro (⟨s, hs, ha⟩ | ⟨s, hs, ha, hm⟩ | ⟨m, hm, hf⟩ | ⟨m, f, hm, hf, hp, ho⟩)
    · exact .inl ⟨s, hs, .inl ⟨ha, rfl⟩⟩
    · exact .inl ⟨s, hs, .inr ⟨ha, hm, rfl⟩⟩
    · exact .inr ⟨m, hm, .inl ⟨hf, rfl⟩⟩
    · exact .inr ⟨m, hm, .inr ⟨f, hf, hp, ho, rfl⟩⟩
  · rintro (⟨s, hs, ⟨ha, rfl⟩ | ⟨ha, hm, rfl⟩⟩ | ⟨m, hm, ⟨hf, rfl⟩ | ⟨f, hf, hp, ho, rfl⟩⟩)
    · exact .notAnAggregate s hs ha
    · exact .missing s hs ha hm
    · exact .noField m hm hf
    · exact .optional m f hm hf hp ho

/-! ## The walk -/

theorem Consistent.owner_of_field? (h : Consistent r) {m : Message}
    (hm : ∃ key, r.messages.get? key = some m) {name : String} {f : Field}
    (hf : m.field? name = some f) : f.owner = m.fullName := by
  obtain ⟨key, hkey⟩ := hm
  obtain ⟨hname, howners, -⟩ := h.messages key m hkey
  rw [howners f (List.mem_of_find?_eq_some hf), hname]

/-- A chain goes on in a message of the registry. -/
theorem GoesOn.held {trail : List PathStep} {m : Message}
    (hroot : ∃ key, r.messages.get? key = some root) (h : GoesOn r root trail m) :
    ∃ key, r.messages.get? key = some m := by
  cases h with
  | start _ hself => exact hself ▸ hroot
  | within s _ _ hm => exact exists_of_lookupMessage hm

/-- After a field was found, the walk knows that it belongs to the message it was found in. -/
theorem Consistent.passed_concat (h : Consistent r)
    (hroot : ∃ key, r.messages.get? key = some root) {trail : List PathStep} {m : Message}
    (hm : GoesOn r root trail m) {name : String} {f : Field} (hf : m.field? name = some f) :
    Passed root (trail ++ [⟨name, f⟩]) m (some f) :=
  .field ⟨name, f⟩ List.getLast?_concat (h.owner_of_field? (hm.held hroot) hf)

section Step
variable {trail : List PathStep} {message : Message} {previous : Option Field} {name : String}

theorem followPath_cons_of_step (hp : Passed root trail message previous) {m : Message} {f : Field}
    (hm : GoesOn r root trail m) (hf : m.field? name = some f)
    (hrequired : asParameter = true → f.isOptional = false) (rest : List String) :
    r.followPath root path asParameter message previous (name :: rest) =
      (r.followPath root path asParameter m (some f) rest).map (⟨name, f⟩ :: ·) := by
  rw [followPath, (enter_eq_ok_iff hp).mpr hm]
  show (stepField root path asParameter m name >>= _) = _
  rw [stepField_eq_ok_iff.mpr ⟨hf, hrequired⟩]
  show (r.followPath root path asParameter m (some f) rest >>= _) = _
  cases r.followPath root path asParameter m (some f) rest <;> rfl

theorem followPath_cons_of_breaks (hp : Passed root trail message previous) {e : ResolveError}
    (hb : Breaks r root path asParameter trail name e) (rest : List String) :
    r.followPath root path asParameter message previous (name :: rest) = .error e := by
  rw [followPath]
  rcases (breaks_iff hp).mp hb with he | ⟨m, hm, he⟩
  · rw [he]
    rfl
  · rw [hm]
    show (stepField root path asParameter m name >>= _) = _
    rw [he]
    rfl

variable (path asParameter name) in
/-- The walk goes on with a field of the next name, or the chain breaks. -/
theorem step_or_breaks (hp : Passed root trail message previous) :
    (∃ m f, GoesOn r root trail m ∧ m.field? name = some f ∧
      (asParameter = true → f.isOptional = false)) ∨
    ∃ e, Breaks r root path asParameter trail name e := by
  cases hm : r.enter path message previous with
  | error e => exact .inr ⟨e, (breaks_iff hp).mpr (.inl hm)⟩
  | ok m =>
    cases hf : stepField root path asParameter m name with
    | error e => exact .inr ⟨e, (breaks_iff hp).mpr (.inr ⟨m, hm, hf⟩)⟩
    | ok f => exact .inl ⟨m, f, (enter_eq_ok_iff hp).mp hm, stepField_eq_ok_iff.mp hf⟩

end Step

/-- The walk along the remaining components succeeds with the steps that complete the chain. -/
theorem Consistent.followPath_eq_ok_iff (h : Consistent r)
    (hroot : ∃ key, r.messages.get? key = some root) {names : List String}
    {trail steps : List PathStep} {message : Message} {previous : Option Field}
    (hp : Passed root trail message previous) (hc : Chain r root asParameter trail) :
    r.followPath root path asParameter message previous names = .ok steps ↔
      steps.map PathStep.name = names ∧ Chain r root asParameter (trail ++ steps) := by
  induction names generalizing trail steps message previous with
  | nil =>
    rw [List.map_eq_nil_iff]
    constructor
    · intro hs
      cases hs
      exact ⟨rfl, by rwa [List.append_nil]⟩
    · rintro ⟨rfl, -⟩
      rfl
  | cons name rest ih =>
    constructor
    · intro hs
      rcases step_or_breaks path asParameter name hp with ⟨m, f, hm, hf, hrequired⟩ | ⟨e, hb⟩
      · rw [followPath_cons_of_step hp hm hf hrequired] at hs
        obtain ⟨tail, htail, rfl⟩ := exists_of_map_eq_ok hs
        have hgrown : Chain r root asParameter (trail ++ [⟨name, f⟩]) :=
          chain_concat_iff.mpr ⟨hc, ⟨m, hm, hf⟩, hrequired⟩
        obtain ⟨hnames, hchain⟩ := (ih (h.passed_concat hroot hm hf) hgrown).mp htail
        rw [List.append_assoc] at hchain
        exact ⟨by rw [List.map_cons, hnames], hchain⟩
      · rw [followPath_cons_of_breaks hp hb] at hs
        cases hs
    · rintro ⟨hnames, hchain⟩
      obtain ⟨⟨_, f⟩, tail, rfl, rfl, htail⟩ := List.map_eq_cons_iff.mp hnames
      rw [← List.singleton_append, ← List.append_assoc] at hchain
      obtain ⟨-, ⟨m, hm, hf⟩, hrequired⟩ := chain_concat_iff.mp hchain.of_append
      rw [followPath_cons_of_step hp hm hf hrequired,
        (ih (h.passed_concat hroot hm hf) hchain.of_append).mpr ⟨htail, hchain⟩]
      rfl

/-- The walk fails with the error of the first component that breaks the chain. -/
theorem Consistent.followPath_eq_error_iff (h : Consistent r)
    (hroot : ∃ key, r.messages.get? key = some root) {names : List String}
    {trail : List PathStep} {message : Message} {previous : Option Field}
    (hp : Passed root trail message previous) (hc : Chain r root asParameter trail)
    {e : ResolveError} :
    r.followPath root path asParameter message previous names = .error e ↔
      ∃ steps name rest, names = steps.map PathStep.name ++ name :: rest ∧
        Chain r root asParameter (trail ++ steps) ∧
        Breaks r root path asParameter (trail ++ steps) name e := by
  induction names generalizing trail message previous with
  | nil =>
    constructor
    · intro he
      cases he
    · rintro ⟨steps, name, rest, hnames, -⟩
      simp at hnames
  | cons name rest ih =>
    constructor
    · intro he
      rcases step_or_breaks path asParameter name hp with ⟨m, f, hm, hf, hrequired⟩ | ⟨e', hb⟩
      · rw [followPath_cons_of_step hp hm hf hrequired, map_eq_error_iff] at he
        have hgrown : Chain r root asParameter (trail ++ [⟨name, f⟩]) :=
          chain_concat_iff.mpr ⟨hc, ⟨m, hm, hf⟩, hrequired⟩
        obtain ⟨steps, next, rest', rfl, hchain, hbreaks⟩ :=
          (ih (h.passed_concat hroot hm hf) hgrown).mp he
        rw [List.append_assoc] at hchain hbreaks
        exact ⟨⟨name, f⟩ :: steps, next, rest', rfl, hchain, hbreaks⟩
      · rw [followPath_cons_of_breaks hp hb] at he
        cases he
        exact ⟨[], name, rest, rfl, by rwa [List.append_nil], by rwa [List.append_nil]⟩
    · rintro ⟨steps, next, rest', hnames, hchain, hbreaks⟩
      cases steps with
      | nil =>
        obtain ⟨rfl, rfl⟩ := List.cons_eq_cons.mp hnames
        rw [List.append_nil] at hbreaks
        exact followPath_cons_of_breaks hp hbreaks _
      | cons s steps =>
        obtain ⟨rfl, hrest⟩ := List.cons_eq_cons.mp hnames
        rw [← List.singleton_append, ← List.append_assoc] at hchain hbreaks
        obtain ⟨-, ⟨m, hm, hf⟩, hrequired⟩ := chain_concat_iff.mp hchain.of_append
        rw [followPath_cons_of_step hp hm hf hrequired, map_eq_error_iff]
        exact (ih (h.passed_concat hroot hm hf) hchain.of_append).mpr
          ⟨steps, next, rest', hrest, hchain, hbreaks⟩

/-! ## Resolving a path -/

theorem resolvePath_of_ne_empty (hpath : path ≠ "") :
    r.resolvePath root path asParameter =
      (r.followPath root path asParameter root none (Text.pieces '.' path)).map FieldPath.mk := by
  unfold resolvePath
  rw [if_neg (by rwa [String.isEmpty_iff])]
  cases r.followPath root path asParameter root none (Text.pieces '.' path) <;> rfl

theorem Consistent.resolvePath_eq_ok_iff (h : Consistent r)
    (hroot : ∃ key, r.messages.get? key = some root) {trail : FieldPath} :
    r.resolvePath root path asParameter = .ok trail ↔ path = "" ∧ trail.steps = [] ∨
      path ≠ "" ∧ trail.steps.map PathStep.name = Text.pieces '.' path ∧
        Chain r root asParameter trail.steps := by
  obtain ⟨steps⟩ := trail
  by_cases hpath : path = ""
  · subst hpath
    constructor
    · intro hs
      cases hs
      exact .inl ⟨rfl, rfl⟩
    · rintro (⟨-, rfl⟩ | ⟨hne, -⟩)
      · rfl
      · exact absurd rfl hne
  · have hwalk : r.followPath root path asParameter root none (Text.pieces '.' path) = .ok steps ↔
        steps.map PathStep.name = Text.pieces '.' path ∧ Chain r root asParameter steps :=
      h.followPath_eq_ok_iff hroot (.start rfl rfl) chain_nil
    rw [resolvePath_of_ne_empty hpath]
    constructor
    · intro hs
      obtain ⟨found, hfound, hs⟩ := exists_of_map_eq_ok hs
      cases hs
      exact .inr ⟨hpath, hwalk.mp hfound⟩
    · rintro (⟨hempty, -⟩ | ⟨-, hs⟩)
      · exact absurd hempty hpath
      · rw [hwalk.mpr hs]
        rfl

theorem Consistent.resolvePath_eq_error_iff (h : Consistent r)
    (hroot : ∃ key, r.messages.get? key = some root) {e : ResolveError} :
    r.resolvePath root path asParameter = .error e ↔ path ≠ "" ∧ ∃ trail name rest,
      Text.pieces '.' path = trail.map PathStep.name ++ name :: rest ∧
        Chain r root asParameter trail ∧ Breaks r root path asParameter trail name e := by
  by_cases hpath : path = ""
  · subst hpath
    constructor
    · intro he
      cases he
    · rintro ⟨hne, -⟩
      exact absurd rfl hne
  · have hwalk : r.followPath root path asParameter root none (Text.pieces '.' path) = .error e ↔
        ∃ trail name rest, Text.pieces '.' path = trail.map PathStep.name ++ name :: rest ∧
          Chain r root asParameter trail ∧ Breaks r root path asParameter trail name e :=
      h.followPath_eq_error_iff hroot (.start rfl rfl) chain_nil
    rw [resolvePath_of_ne_empty hpath, map_eq_error_iff, hwalk]
    exact (and_iff_right hpath).symm

/-- A trail that has the components of a text for names is printed as the text. -/
theorem text_of_names {trail : FieldPath}
    (h : trail.steps.map PathStep.name = Text.pieces '.' path) : trail.text = path := by
  have hnames : (trail.steps.map fun s => s.name.toList) = Text.piecesOf '.' path.toList := by
    have hlists := congrArg (List.map String.toList) h
    simpa [Text.pieces, Function.comp_def] using hlists
  rw [FieldPath.text, hnames, dotted, Text.joinPieces_piecesOf, String.ofList_toList]

/-- From a message of a reachable registry, a path is resolved to a trail exactly if it is empty and
so is the trail, or if its components are the names of the trail and the trail is a chain of fields
from the message. The trail is printed as the path. Otherwise the error is the one of the first
component that breaks the chain of those before it. -/
theorem resolvePath_iff_chain (hr : r.Reachable)
    (hroot : ∃ key, r.messages.get? key = some root) (path : String) (asParameter : Bool) :
    (∀ trail, r.resolvePath root path asParameter = .ok trail ↔ path = "" ∧ trail.steps = [] ∨
      path ≠ "" ∧ trail.steps.map PathStep.name = Text.pieces '.' path ∧
        Chain r root asParameter trail.steps) ∧
    (∀ trail, r.resolvePath root path asParameter = .ok trail → trail.text = path) ∧
    ∀ e, r.resolvePath root path asParameter = .error e ↔ path ≠ "" ∧ ∃ trail name rest,
      Text.pieces '.' path = trail.map PathStep.name ++ name :: rest ∧
        Chain r root asParameter trail ∧ Breaks r root path asParameter trail name e := by
  obtain ⟨history, rfl⟩ := hr
  have h : Consistent (empty.after history) := kept_consistent.always consistent_empty history
  refine ⟨fun trail => h.resolvePath_eq_ok_iff hroot, ?_,
    fun e => h.resolvePath_eq_error_iff hroot⟩
  intro trail hs
  rcases (h.resolvePath_eq_ok_iff hroot).mp hs with ⟨rfl, hempty⟩ | ⟨-, hnames, -⟩
  · rw [FieldPath.text, hempty]
    rfl
  · exact text_of_names hnames

/-! ## A schema with a cycle -/

/-- Nodes that hold nodes, under relative type names, and an entry from another file. -/
def nodeFile : FileDecl where
  name := "node.proto"
  package := "a"
  messages :=
    [{ name := "Node"
       fields :=
        [{ name := "next", number := 1, kind := .message, typeName := some "Node" },
          { name := "entry", number := 2, kind := .message, typeName := some "b.Entry" },
          { name := "lost", number := 3, kind := .message, typeName := some "Lost" }] }]

def entryFile : FileDecl where
  name := "entry.proto"
  package := "a.b"
  messages :=
    [{ name := "Entry"
       fields :=
        [{ name := "owner", number := 1, kind := .message, typeName := some ".a.Node" },
          { name := "mark", number := 2, kind := .string, explicitPresence := true }] }]

def nodes : Registry := empty.after [.loadAll [nodeFile, entryFile]]

def nodeMessage : Message :=
  Message.ofDecl "node.proto" "a" [] 0 (nodeFile.messages.headD {})

theorem resolvePath_iff_chain_nodes :
    (∃ trail, nodes.resolvePath nodeMessage "next.entry.owner.next" true = .ok trail ∧
      trail.steps.map PathStep.name = ["next", "entry", "owner", "next"] ∧
      Chain nodes nodeMessage true trail.steps ∧ trail.text = "next.entry.owner.next") ∧
    (∃ trail name rest, ["entry", "mark", "x"] = trail.map PathStep.name ++ name :: rest ∧
      Chain nodes nodeMessage false trail ∧
      Breaks nodes nodeMessage "entry.mark.x" false trail name
        (.notAnAggregate "mark" "entry.mark.x")) ∧
    nodes.resolvePath nodeMessage "next.entry.mark" true =
      .error (.optionalNotAllowedInPath "mark" "next.entry.mark") ∧
    nodes.resolvePath nodeMessage "next.lost.x" true = .error (.lookup (.messageNotFound "Lost")) ∧
    nodes.resolvePath nodeMessage "next..next" true =
      .error (.fieldNotFound "next..next" "Node") := by
  have hr : nodes.Reachable := ⟨_, rfl⟩
  have hroot : ∃ key, nodes.messages.get? key = some nodeMessage := ⟨".a.Node", by rfl⟩
  refine ⟨?_, ?_, by rfl, by rfl, by rfl⟩
  · obtain ⟨hok, htext, -⟩ := resolvePath_iff_chain hr hroot "next.entry.owner.next" true
    obtain ⟨trail, htrail⟩ :
        ∃ trail, nodes.resolvePath nodeMessage "next.entry.owner.next" true = .ok trail :=
      ⟨_, by rfl⟩
    rcases (hok trail).mp htrail with ⟨hempty, -⟩ | ⟨-, hnames, hchain⟩
    · exact absurd hempty (by decide)
    · exact ⟨trail, htrail, hnames, hchain, htext trail htrail⟩
  · obtain ⟨-, -, herror⟩ := resolvePath_iff_chain hr hroot "entry.mark.x" false
    exact ((herror (.notAnAggregate "mark" "entry.mark.x")).mp (by rfl)).2

end Registry

end RpcGateway.Schema
