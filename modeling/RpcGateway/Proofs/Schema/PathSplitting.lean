import RpcGateway.Proofs.Schema.FieldPaths

/-!
Resolving a path in two parts. The part behind a dot is resolved from the type of the field that the
part before it ends at; the whole path fails wherever one of the parts does, for the same reason.
-/
namespace RpcGateway.Schema

/-- The same error, told of a path from a root. -/
def ResolveError.retold (path root : String) : ResolveError → ResolveError
  | .fieldNotFound _ _ => .fieldNotFound path root
  | .notAnAggregate field _ => .notAnAggregate field path
  | .optionalNotAllowedInPath field _ => .optionalNotAllowedInPath field path
  | e => e

namespace Registry
variable {r : Registry} {root M : Message} {asParameter : Bool}

/-! ## Chains in two parts -/

theorem chain_append_iff {trail rest : List PathStep} {s : PathStep}
    (hlast : trail.getLast? = some s) (ha : s.target.isAggregate = true)
    (hM : r.lookupMessage s.target.owner s.target.typeName = .ok M)
    (hc : Chain r root asParameter trail) :
    Chain r root asParameter (trail ++ rest) ↔ Chain r M asParameter rest := by
  have hjoint : (∀ l ∈ trail.getLast?, ∀ t ∈ rest.head?, r.LeadsTo l t) ↔
      ∀ t ∈ rest.head?, M.field? t.name = some t.target := by
    rw [hlast]
    constructor
    · intro h t ht
      obtain ⟨-, m, hm, hf⟩ := h s rfl t ht
      cases hM.symm.trans hm
      exact hf
    · intro h l hl t ht
      cases hl
      exact ⟨ha, M, hM, h t ht⟩
  constructor
  · rintro ⟨-, hnext, hrequired⟩
    rw [List.isChain_append, hjoint] at hnext
    exact ⟨hnext.2.2, hnext.2.1, fun hp t ht => hrequired hp t (List.mem_append_right _ ht)⟩
  · rintro ⟨hfirst, hnext, hrequired⟩
    refine ⟨?_, ?_, ?_⟩
    · cases trail with
      | nil => cases hlast
      | cons first steps => exact hc.first
    · rw [List.isChain_append, hjoint]
      exact ⟨hc.next, hnext, hfirst⟩
    · intro hp t ht
      rcases List.mem_append.mp ht with ht | ht
      · exact hc.required hp t ht
      · exact hrequired hp t ht

/-- Where a chain from the type of a field goes on, there goes the chain that passes the field. -/
theorem GoesOn.append {trail rest : List PathStep} {s : PathStep} {m : Message}
    (hlast : trail.getLast? = some s) (ha : s.target.isAggregate = true)
    (hM : r.lookupMessage s.target.owner s.target.typeName = .ok M) (h : GoesOn r M rest m) :
    GoesOn r root (trail ++ rest) m := by
  cases h with
  | start hempty hself =>
    subst hempty hself
    exact .within s (by rwa [List.append_nil]) ha hM
  | within t ht hat hm =>
    exact .within t (by rw [List.getLast?_append, ht, Option.some_or]) hat hm

/-- A chain breaks where it did if more is said of the path. -/
theorem Breaks.retold {trail : List PathStep} {path name : String} {e : ResolveError}
    (h : Breaks r root path asParameter trail name e) (longer : String) :
    Breaks r root longer asParameter trail name (e.retold longer root.name) := by
  cases h with
  | notAnAggregate s hs ha => exact .notAnAggregate s hs ha
  | missing s hs ha hm => exact .missing s hs ha hm
  | noField m hm hf => exact .noField m hm hf
  | optional m f hm hf hp ho => exact .optional m f hm hf hp ho

/-- A chain breaks where the chain from the type of one of its fields does. -/
theorem Breaks.append {trail rest : List PathStep} {s : PathStep} {path name : String}
    {e : ResolveError} (hlast : trail.getLast? = some s) (ha : s.target.isAggregate = true)
    (hM : r.lookupMessage s.target.owner s.target.typeName = .ok M)
    (h : Breaks r M path asParameter rest name e) (longer : String) :
    Breaks r root longer asParameter (trail ++ rest) name (e.retold longer root.name) := by
  have hend : ∀ t, rest.getLast? = some t → (trail ++ rest).getLast? = some t := by
    intro t ht
    rw [List.getLast?_append, ht, Option.some_or]
  cases h with
  | notAnAggregate t ht hat => exact .notAnAggregate t (hend t ht) hat
  | missing t ht hat hm => exact .missing t (hend t ht) hat hm
  | noField m hm hf => exact .noField m (hm.append hlast ha hM) hf
  | optional m f hm hf hp ho => exact .optional m f (hm.append hlast ha hM) hf hp ho

/-! ## Paths in two parts -/

theorem pieces_append_dot (p q : String) :
    Text.pieces '.' (p ++ "." ++ q) = Text.pieces '.' p ++ Text.pieces '.' q := by
  rw [Text.pieces, Text.pieces, Text.pieces, ← List.map_append, ← Text.piecesOf_append_separator]
  simp

theorem append_dot_ne_empty (p q : String) : p ++ "." ++ q ≠ "" := by
  intro h
  have hlength := congrArg (fun s : String => s.toList.length) h
  simp at hlength

section Parts
variable (h : Consistent r) (hroot : ∃ key, r.messages.get? key = some root) {p q : String}
include h hroot

/-- A whole path fails where the chain of its first part is broken, or not gone on with. -/
theorem Consistent.resolvePath_append_of_breaks {trail : List PathStep} {name : String}
    {rest : List String} {e : ResolveError}
    (hnames : Text.pieces '.' p ++ Text.pieces '.' q = trail.map PathStep.name ++ name :: rest)
    (hc : Chain r root asParameter trail)
    (hb : Breaks r root (p ++ "." ++ q) asParameter trail name e) :
    r.resolvePath root (p ++ "." ++ q) asParameter = .error e := by
  rw [← pieces_append_dot] at hnames
  exact (h.resolvePath_eq_error_iff hroot).mpr
    ⟨append_dot_ne_empty p q, trail, name, rest, hnames, hc, hb⟩

theorem Consistent.resolvePath_append_of_error {e : ResolveError}
    (he : r.resolvePath root p asParameter = .error e) :
    r.resolvePath root (p ++ "." ++ q) asParameter =
      .error (e.retold (p ++ "." ++ q) root.name) := by
  obtain ⟨-, trail, name, rest, hnames, hc, hb⟩ := (h.resolvePath_eq_error_iff hroot).mp he
  have hwhole : Text.pieces '.' p ++ Text.pieces '.' q =
      trail.map PathStep.name ++ name :: (rest ++ Text.pieces '.' q) := by
    rw [hnames, List.append_assoc, List.cons_append]
  exact h.resolvePath_append_of_breaks hroot hwhole hc (hb.retold _)

/-- A path that is not empty ends at a step of its chain. -/
theorem Consistent.exists_last_of_resolvePath (hp : p ≠ "") {trail : FieldPath}
    (hs : r.resolvePath root p asParameter = .ok trail) :
    trail.steps.map PathStep.name = Text.pieces '.' p ∧ Chain r root asParameter trail.steps ∧
      ∃ s, trail.steps.getLast? = some s := by
  rcases (h.resolvePath_eq_ok_iff hroot).mp hs with ⟨hempty, -⟩ | ⟨-, hnames, hc⟩
  · exact absurd hempty hp
  refine ⟨hnames, hc, ?_⟩
  cases hl : trail.steps.getLast? with
  | some s => exact ⟨s, rfl⟩
  | none =>
    rw [List.getLast?_eq_none_iff.mp hl] at hnames
    exact absurd hnames.symm (Text.pieces_ne_nil '.' p)

/-- Where the first part ends at a field whose type is found, the second part decides. -/
theorem Consistent.resolvePath_append_of_entered (hq : q ≠ "") {trail : FieldPath} {s : PathStep}
    (hnames : trail.steps.map PathStep.name = Text.pieces '.' p)
    (hc : Chain r root asParameter trail.steps) (hlast : trail.steps.getLast? = some s)
    (ha : s.target.isAggregate = true)
    (hM : r.lookupMessage s.target.owner s.target.typeName = .ok M) :
    r.resolvePath root (p ++ "." ++ q) asParameter =
      match r.resolvePath M q asParameter with
      | .ok rest => .ok ⟨trail.steps ++ rest.steps⟩
      | .error e => .error (e.retold (p ++ "." ++ q) root.name) := by
  have hheld := exists_of_lookupMessage hM
  cases hrest : r.resolvePath M q asParameter with
  | ok rest =>
    obtain ⟨hnames', hc', -⟩ := h.exists_last_of_resolvePath hheld hq hrest
    refine (h.resolvePath_eq_ok_iff hroot).mpr (.inr ⟨append_dot_ne_empty p q, ?_, ?_⟩)
    · rw [List.map_append, hnames, hnames', pieces_append_dot]
    · exact (chain_append_iff hlast ha hM hc).mpr hc'
  | error e =>
    obtain ⟨-, steps, name, rest, hnames', hc', hb⟩ := (h.resolvePath_eq_error_iff hheld).mp hrest
    have hwhole : Text.pieces '.' p ++ Text.pieces '.' q =
        (trail.steps ++ steps).map PathStep.name ++ name :: rest := by
      rw [← hnames, hnames', List.map_append, List.append_assoc]
    exact h.resolvePath_append_of_breaks hroot hwhole
      ((chain_append_iff hlast ha hM hc).mpr hc') (hb.append hlast ha hM _)

end Parts

/-- A path in two parts, neither of them empty. If the first part is not resolved, the whole path
fails for the same reason. If it is, it ends at a field; a field without fields of its own, or of a
type that is not found, is the reason why the whole path fails. From the type of the field the
second part is resolved if and only if the whole path is, to the rest of its trail, and the two fail
for the same reason. -/
theorem resolvePath_append (hr : r.Reachable) (hroot : ∃ key, r.messages.get? key = some root)
    {p q : String} (hp : p ≠ "") (hq : q ≠ "") (asParameter : Bool) :
    (∀ e, r.resolvePath root p asParameter = .error e →
      r.resolvePath root (p ++ "." ++ q) asParameter =
        .error (e.retold (p ++ "." ++ q) root.name)) ∧
    ∀ trail, r.resolvePath root p asParameter = .ok trail → ∃ t, trail.terminal? = some t ∧
      (t.isAggregate = false → r.resolvePath root (p ++ "." ++ q) asParameter =
        .error (.notAnAggregate t.name (p ++ "." ++ q))) ∧
      (t.isAggregate = true → (∀ M, r.lookupMessage t.owner t.typeName ≠ .ok M) →
        r.resolvePath root (p ++ "." ++ q) asParameter =
          .error (.lookup (.messageNotFound t.typeName))) ∧
      ∀ M, t.isAggregate = true → r.lookupMessage t.owner t.typeName = .ok M →
        r.resolvePath root (p ++ "." ++ q) asParameter =
          match r.resolvePath M q asParameter with
          | .ok rest => .ok ⟨trail.steps ++ rest.steps⟩
          | .error e => .error (e.retold (p ++ "." ++ q) root.name) := by
  obtain ⟨history, rfl⟩ := hr
  have h : Consistent (empty.after history) := kept_consistent.always consistent_empty history
  refine ⟨fun e he => h.resolvePath_append_of_error hroot he, ?_⟩
  intro trail hs
  obtain ⟨hnames, hc, s, hlast⟩ := h.exists_last_of_resolvePath hroot hp hs
  -- Whatever the second part is, it has a component that the chain has to go on with.
  obtain ⟨name, rest, hname⟩ := List.exists_cons_of_ne_nil (Text.pieces_ne_nil '.' q)
  have hsplit : Text.pieces '.' p ++ Text.pieces '.' q =
      trail.steps.map PathStep.name ++ name :: rest := by rw [hnames, hname]
  refine ⟨s.target, by rw [FieldPath.terminal?, hlast]; rfl, ?_, ?_, ?_⟩
  · intro ha
    exact h.resolvePath_append_of_breaks hroot hsplit hc (.notAnAggregate s hlast ha)
  · intro ha hM
    exact h.resolvePath_append_of_breaks hroot hsplit hc (.missing s hlast ha hM)
  · intro M ha hM
    exact h.resolvePath_append_of_entered hroot hq hnames hc hlast ha hM

/-- In the schema of nodes, a path that is cut at a field of another file. -/
theorem resolvePath_append_nodes :
    ∃ trail entry rest, nodes.resolvePath nodeMessage "next.entry" true = .ok trail ∧
      nodes.resolvePath entry "owner.next" true = .ok rest ∧
      nodes.resolvePath nodeMessage ("next.entry" ++ "." ++ "owner.next") true =
        .ok ⟨trail.steps ++ rest.steps⟩ := by
  have hr : nodes.Reachable := ⟨_, rfl⟩
  have hroot : ∃ key, nodes.messages.get? key = some nodeMessage := ⟨".a.Node", by rfl⟩
  obtain ⟨trail, t, htrail, ht, ha, entry, hentry, rest, hrest⟩ :
      ∃ trail t, nodes.resolvePath nodeMessage "next.entry" true = .ok trail ∧
        trail.terminal? = some t ∧ t.isAggregate = true ∧
        ∃ entry, nodes.lookupMessage t.owner t.typeName = .ok entry ∧
        ∃ rest, nodes.resolvePath entry "owner.next" true = .ok rest :=
    ⟨_, _, by rfl, by rfl, by rfl, _, by rfl, _, by rfl⟩
  obtain ⟨-, hends⟩ := resolvePath_append hr hroot (show "next.entry" ≠ "" by decide)
    (show "owner.next" ≠ "" by decide) true
  obtain ⟨t', ht', -, -, hwhole⟩ := hends trail htrail
  cases ht.symm.trans ht'
  refine ⟨trail, entry, rest, htrail, hrest, ?_⟩
  rw [hwhole entry ha hentry, hrest]

end Registry

end RpcGateway.Schema
