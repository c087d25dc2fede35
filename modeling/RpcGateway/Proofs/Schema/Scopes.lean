import Mathlib.Data.List.Induction
import RpcGateway.Proofs.Schema.Entries

/-!
What a relative name means from a place. The scopes around a place are the place itself and what
stands before each of its dots, down to the root; the innermost of them that declares the name
decides, and a scope further in can only shadow what is seen from outside.
-/
namespace RpcGateway.Schema
open Text

/-! ## Beginnings -/

theorem beginnings_concat {α : Type} (cs : List α) (c : α) :
    beginnings (cs ++ [c]) = (cs ++ [c]) :: beginnings cs := by
  simp only [beginnings, List.length_append, List.length_singleton, List.range_succ_eq_map,
    List.map_cons, List.map_map, Nat.sub_zero]
  congr 1
  · exact List.take_of_length_le (by simp)
  · apply List.map_congr_left
    intro i _
    have hi : cs.length + 1 - i.succ ≤ cs.length := by omega
    rw [Function.comp_apply, List.take_append_of_le_length hi, Nat.succ_eq_add_one,
      Nat.add_sub_add_right]

theorem mem_beginnings_iff {α : Type} {cs front : List α} :
    front ∈ beginnings cs ↔ front ≠ [] ∧ front <+: cs := by
  induction cs using List.reverseRecOn with
  | nil =>
    rw [List.prefix_nil]
    constructor
    · intro h
      cases h
    · rintro ⟨hne, he⟩
      exact absurd he hne
  | append_singleton cs c ih =>
    rw [beginnings_concat, List.mem_cons, ih, List.prefix_concat_iff]
    constructor
    · rintro (rfl | ⟨hne, hp⟩)
      · exact ⟨by simp, .inl rfl⟩
      · exact ⟨hne, .inr hp⟩
    · rintro ⟨hne, he | hp⟩
      · exact .inl he
      · exact .inr ⟨hne, hp⟩

/-! ## Enclosing scopes -/

/-- A scope encloses a place if it is the place or ends before one of its dots. -/
def Encloses (scope place : String) : Prop :=
  scope = place ∨ ∃ rest, place = scope ++ "." ++ rest

theorem isAbsolute_absoluteScope (location : String) :
    isAbsolute (absoluteScope location) = true := by
  unfold absoluteScope
  split
  · assumption
  · simp [isAbsolute]

/-- The root encloses every place. -/
theorem encloses_root (location : String) : Encloses "" (absoluteScope location) := by
  obtain ⟨cs, hcs⟩ : ∃ cs, (absoluteScope location).toList = '.' :: cs := by
    have h := isAbsolute_absoluteScope location
    unfold isAbsolute at h
    cases hl : (absoluteScope location).toList with
    | nil => simp [hl] at h
    | cons c cs =>
      have hc : c = '.' := by simpa [hl] using h
      exact ⟨cs, by rw [hc]⟩
  refine .inr ⟨String.ofList cs, ?_⟩
  rw [← String.toList_inj, hcs]
  simp

theorem dotted_piecesOf (s : String) : dotted (piecesOf '.' s.toList) = s := by
  rw [dotted, joinPieces_piecesOf, String.ofList_toList]

theorem dotted_append {front rest : List (List Char)} (hf : front ≠ []) (hr : rest ≠ []) :
    dotted (front ++ rest) = dotted front ++ "." ++ dotted rest := by
  rw [dotted, joinPieces_append '.' hf hr, ← String.toList_inj]
  simp [dotted]

/-- The scopes around a place are those that enclose it. -/
theorem mem_scopes_iff {location scope : String} :
    scope ∈ scopes location ↔ Encloses scope (absoluteScope location) := by
  simp only [scopes, List.mem_map, mem_beginnings_iff]
  constructor
  · rintro ⟨front, ⟨hne, rest, hrest⟩, rfl⟩
    rw [← dotted_piecesOf (absoluteScope location), ← hrest]
    cases rest with
    | nil => exact .inl (by rw [List.append_nil])
    | cons piece rest => exact .inr ⟨_, dotted_append hne (List.cons_ne_nil piece rest)⟩
  · rintro (rfl | ⟨rest, hrest⟩)
    · exact ⟨_, ⟨piecesOf_ne_nil '.' _, List.prefix_rfl⟩, dotted_piecesOf _⟩
    · refine ⟨piecesOf '.' scope.toList, ⟨piecesOf_ne_nil '.' _, ?_⟩, dotted_piecesOf scope⟩
      refine ⟨piecesOf '.' rest.toList, ?_⟩
      rw [hrest, ← piecesOf_append_separator]
      simp

/-- The scopes come from the innermost outwards. -/
theorem pairwise_scopes (location : String) :
    (scopes location).Pairwise fun inner outer => outer.length < inner.length := by
  unfold scopes
  generalize piecesOf '.' (absoluteScope location).toList = components
  -- From the last component on: each scope further out has lost one more of them.
  induction components using List.reverseRecOn with
  | nil => exact .nil
  | append_singleton components c ih =>
    rw [beginnings_concat, List.map_cons, List.pairwise_cons]
    refine ⟨?_, ih⟩
    intro outer houter
    obtain ⟨front, hfront, rfl⟩ := List.mem_map.mp houter
    obtain ⟨hne, rest, rfl⟩ := mem_beginnings_iff.mp hfront
    rw [List.append_assoc, dotted_append hne (by simp)]
    simp only [String.length_append]
    have hdot : ".".length = 1 := rfl
    omega

theorem absoluteScope_append {location : String} (hne : location ≠ "") (rest : String) :
    absoluteScope (location ++ rest) = absoluteScope location ++ rest := by
  have habs : isAbsolute (location ++ rest) = isAbsolute location := by
    unfold isAbsolute
    rw [String.toList_append]
    cases hl : location.toList with
    | nil => exact absurd (String.toList_eq_nil_iff.mp hl) hne
    | cons => rfl
  unfold absoluteScope
  rw [habs]
  split
  · rfl
  · rw [String.append_assoc]

/-- One scope further in, all scopes of the place are still around. -/
theorem scopes_append_component {location component : String} (hne : location ≠ "")
    (hc : '.' ∉ component.toList) :
    scopes (location ++ "." ++ component) =
      absoluteScope (location ++ "." ++ component) :: scopes location := by
  have hpieces : piecesOf '.' (absoluteScope (location ++ "." ++ component)).toList =
      piecesOf '.' (absoluteScope location).toList ++ [component.toList] := by
    rw [← piecesOf_of_not_mem hc, ← piecesOf_append_separator, String.append_assoc,
      absoluteScope_append hne]
    simp
  rw [scopes, hpieces, beginnings_concat, List.map_cons, ← hpieces, dotted_piecesOf]
  rfl

/-! ## What is found -/

section Found
variable {α : Type} (t : Table α)

theorem resolve_of_relative (location : String) {name : String} (hn : isAbsolute name = false) :
    resolve t location name =
      (scopes location).findSome? fun scope => t.get? (scope ++ "." ++ name) := by
  rw [resolve, candidates, if_neg (by rw [hn]; exact Bool.false_ne_true), List.findSome?_map]
  rfl

theorem isSome_resolve_iff (location : String) {name : String} (hn : isAbsolute name = false) :
    (resolve t location name).isSome ↔
      ∃ scope, Encloses scope (absoluteScope location) ∧ (t.get? (scope ++ "." ++ name)).isSome := by
  rw [resolve_of_relative t location hn, List.findSome?_isSome_iff]
  simp only [mem_scopes_iff]

theorem resolve_eq_some_iff (location : String) {name : String} (hn : isAbsolute name = false)
    (entry : α) :
    resolve t location name = some entry ↔
      ∃ scope, Encloses scope (absoluteScope location) ∧
        t.get? (scope ++ "." ++ name) = some entry ∧
        ∀ inner, Encloses inner (absoluteScope location) → scope.length < inner.length →
          t.get? (inner ++ "." ++ name) = none := by
  rw [resolve_of_relative t location hn, findSome?_eq_some_iff_of_pairwise
    (pairwise_scopes location) fun _ _ => Nat.lt_asymm]
  simp only [mem_scopes_iff]

/-- From one scope further in, what this scope declares comes first. -/
theorem resolve_append_component {location component name : String} (hne : location ≠ "")
    (hc : '.' ∉ component.toList) (hn : isAbsolute name = false) :
    resolve t (location ++ "." ++ component) name =
      (t.get? (absoluteScope (location ++ "." ++ component) ++ "." ++ name)).or
        (resolve t location name) := by
  rw [resolve_of_relative t _ hn, resolve_of_relative t _ hn, scopes_append_component hne hc,
    List.findSome?_cons]
  cases t.get? (absoluteScope (location ++ "." ++ component) ++ "." ++ name) <;> rfl

theorem resolve_absoluteScope (location name : String) :
    resolve t (absoluteScope location) name = resolve t location name := by
  unfold resolve candidates scopes
  rw [absoluteScope, if_pos (isAbsolute_absoluteScope location)]

end Found

/-- An absolute name means its own entry in every scope. Any other name is found exactly if one of
the scopes around the location declares it, and means the entry of the longest of them. So a dot in
front of a location that has none changes nothing, and from one component further in everything is
found that was found before, unless the inner scope declares the name itself. -/
theorem resolve_innermost {α : Type} (t : Table α) (location name : String) :
    (isAbsolute name = true → resolve t location name = t.get? name) ∧
    (isAbsolute name = false →
      ((resolve t location name).isSome ↔ ∃ scope, Encloses scope (absoluteScope location) ∧
        (t.get? (scope ++ "." ++ name)).isSome) ∧
      ∀ entry, resolve t location name = some entry ↔
        ∃ scope, Encloses scope (absoluteScope location) ∧
          t.get? (scope ++ "." ++ name) = some entry ∧
          ∀ inner, Encloses inner (absoluteScope location) → scope.length < inner.length →
            t.get? (inner ++ "." ++ name) = none) ∧
    (isAbsolute location = false → resolve t ("." ++ location) name = resolve t location name) ∧
    ∀ component, location ≠ "" → '.' ∉ component.toList → ∀ entry,
      resolve t location name = some entry →
        ∃ found, resolve t (location ++ "." ++ component) name = some found ∧
          (found = entry ∨ isAbsolute name = false ∧
            t.get? (absoluteScope (location ++ "." ++ component) ++ "." ++ name) = some found) := by
  refine ⟨fun hn => resolve_of_isAbsolute t location hn, fun hn => ?_, fun hl => ?_, ?_⟩
  · exact ⟨isSome_resolve_iff t location hn, resolve_eq_some_iff t location hn⟩
  · have hdot : absoluteScope location = "." ++ location := by
      rw [absoluteScope, hl, if_neg Bool.false_ne_true]
    rw [← hdot, resolve_absoluteScope]
  · intro component hne hc entry hentry
    cases hn : isAbsolute name with
    | true =>
      rw [resolve_of_isAbsolute t _ hn] at hentry ⊢
      exact ⟨entry, hentry, .inl rfl⟩
    | false =>
      rw [resolve_append_component t hne hc hn]
      cases hinner : t.get? (absoluteScope (location ++ "." ++ component) ++ "." ++ name) with
      | none => exact ⟨entry, hentry, .inl rfl⟩
      | some found => exact ⟨found, rfl, .inr ⟨rfl, rfl⟩⟩

/-- A name that is declared at three levels, and one below the second of them. -/
def shadowed : Table Nat :=
  (((Table.empty.insert ".a.b.M" 1).insert ".a.M" 2).insert ".M" 3).insert ".a.M.N" 4

/-- The inner package shadows what the outer one declares under the same name, and nothing else. -/
theorem resolve_innermost_shadowed :
    (isAbsolute ".M" = true ∧ resolve shadowed "a.b" ".M" = some 3) ∧
    (isAbsolute "M.N" = false ∧ ∃ scope, Encloses scope (absoluteScope "a.b") ∧
      shadowed.get? (scope ++ "." ++ "M.N") = some 4 ∧
      ∀ inner, Encloses inner (absoluteScope "a.b") → scope.length < inner.length →
        shadowed.get? (inner ++ "." ++ "M.N") = none) ∧
    (isAbsolute "a.b" = false ∧ resolve shadowed ("." ++ "a.b") "M" = some 1) ∧
    resolve shadowed "a" "M" = some 2 ∧
      ∃ found, resolve shadowed ("a" ++ "." ++ "b") "M" = some found ∧
        (found = 2 ∨ isAbsolute "M" = false ∧
          shadowed.get? (absoluteScope ("a" ++ "." ++ "b") ++ "." ++ "M") = some found) := by
  have habsolute : isAbsolute ".M" = true := by decide
  have hrelative : isAbsolute "M.N" = false := by decide
  have hbare : isAbsolute "a.b" = false := by decide
  have hlongest : resolve shadowed "a.b" "M.N" = some 4 := by rfl
  have houter : resolve shadowed "a" "M" = some 2 := by rfl
  refine ⟨⟨habsolute, ?_⟩, ⟨hrelative, ?_⟩, ⟨hbare, ?_⟩, houter, ?_⟩
  · exact (resolve_innermost shadowed "a.b" ".M").1 habsolute
  · exact (((resolve_innermost shadowed "a.b" "M.N").2.1 hrelative).2 4).mp hlongest
  · exact (resolve_innermost shadowed "a.b" "M").2.2.1 hbare
  · exact (resolve_innermost shadowed "a" "M").2.2.2 "b" (by decide) (by decide) 2 houter

end RpcGateway.Schema
