import Mathlib.Data.Finset.Card
import RpcGateway.Proofs.Schema.Identifiers

/-!
The search for an alias as it is made: one reservation after the other, until one is not refused. It
ends, because a refused candidate is one of finitely many bound aliases and no candidate comes twice.
-/
namespace RpcGateway.Schema

/-- The candidates for an alias: a name, then the name with the suffixes `_0`, `_1` and so on. -/
def aliasCandidate (name : String) : Nat → String
  | 0 => name
  | i + 1 => name ++ "_" ++ toString i

theorem aliasCandidate_injective (name : String) : Function.Injective (aliasCandidate name) := by
  intro i j h
  cases i with
  | zero =>
    cases j with
    | zero => rfl
    | succ j => exact absurd h.symm (Registry.suffixed_ne name j)
  | succ i =>
    cases j with
    | zero => exact absurd h (Registry.suffixed_ne name i)
    | succ j => rw [Registry.suffixed_injective name h]

namespace Registry
variable {r : Registry} {name path : String}

/-! ## One reservation -/

theorem reserveAlias_of_isFree (h : r.isFree name path = true) :
    r.reserveAlias name path = .ok { r with aliases := r.aliases.insert name path } := by
  unfold reserveAlias
  cases hg : r.aliases.get? name with
  | none => rfl
  | some holder =>
    have hholder : holder = path := isFree_iff.mp h holder hg
    subst hholder
    rw [Table.insert_of_get? hg]
    exact if_pos rfl

theorem not_isFree_iff :
    r.isFree name path = false ↔ ∃ holder, r.aliases.get? name = some holder ∧ holder ≠ path := by
  rw [← Bool.not_eq_true, isFree_iff]
  push Not
  rfl

theorem reserveAlias_eq_error_iff :
    (∃ c, r.reserveAlias name path = .error c) ↔ r.isFree name path = false := by
  constructor
  · rintro ⟨c, hc⟩
    cases hf : r.isFree name path with
    | false => rfl
    | true =>
      rw [reserveAlias_of_isFree hf] at hc
      cases hc
  · intro hf
    obtain ⟨holder, hg, hne⟩ := not_isFree_iff.mp hf
    refine ⟨⟨name, holder⟩, ?_⟩
    unfold reserveAlias
    rw [hg]
    exact if_neg hne

/-! ## The search ends -/

/-- The bound aliases that are none of the first candidates. -/
def unmet (r : Registry) (name : String) (tried : Nat) : Finset String :=
  r.aliases.names.toFinset \ (Finset.range tried).image (aliasCandidate name)

theorem unmet_succ (r : Registry) (name : String) (i : Nat) :
    r.unmet name (i + 1) = (r.unmet name i).erase (aliasCandidate name i) := by
  rw [unmet, unmet, Finset.range_add_one, Finset.image_insert, Finset.sdiff_insert]

/-- A refused candidate is a bound alias that the search meets for the first time. -/
theorem mem_unmet_of_refused {i : Nat} {c : AliasConflict}
    (h : r.reserveAlias (aliasCandidate name i) path = .error c) :
    aliasCandidate name i ∈ r.unmet name i := by
  obtain ⟨holder, hg, -⟩ := not_isFree_iff.mp (reserveAlias_eq_error_iff.mp ⟨c, h⟩)
  rw [unmet, Finset.mem_sdiff]
  constructor
  · rw [List.mem_toFinset, Table.mem_names_iff, hg]
    rfl
  · intro hmet
    obtain ⟨j, hj, heq⟩ := Finset.mem_image.mp hmet
    rw [aliasCandidate_injective name heq] at hj
    exact absurd (Finset.mem_range.mp hj) (Nat.lt_irrefl i)

theorem card_unmet_lt {i : Nat} {c : AliasConflict}
    (h : r.reserveAlias (aliasCandidate name i) path = .error c) :
    (r.unmet name (i + 1)).card < (r.unmet name i).card := by
  rw [unmet_succ]
  exact Finset.card_erase_lt_of_mem (mem_unmet_of_refused h)

/-- Reserves the first candidate that is not refused, from some candidate on. -/
def searchAlias (r : Registry) (name path : String) (i : Nat) : String × Registry :=
  match h : r.reserveAlias (aliasCandidate name i) path with
  | .ok s => (aliasCandidate name i, s)
  | .error _ => r.searchAlias name path (i + 1)
termination_by (r.unmet name i).card
decreasing_by exact card_unmet_lt h

theorem searchAlias_of_free {i : Nat} (h : r.isFree (aliasCandidate name i) path = true) :
    r.searchAlias name path i = (aliasCandidate name i,
      { r with aliases := r.aliases.insert (aliasCandidate name i) path }) := by
  rw [searchAlias]
  split
  · next s hs =>
    rw [reserveAlias_of_isFree h] at hs
    cases hs
    rfl
  · next c hc =>
    rw [reserveAlias_eq_error_iff.mp ⟨c, hc⟩] at h
    cases h

theorem searchAlias_of_taken {i : Nat} (h : r.isFree (aliasCandidate name i) path = false) :
    r.searchAlias name path i = r.searchAlias name path (i + 1) := by
  obtain ⟨c, hc⟩ := reserveAlias_eq_error_iff.mpr h
  rw [searchAlias]
  split
  · next s hs =>
    rw [hc] at hs
    cases hs
  · rfl

/-- The search passes all candidates that are taken, and ends at the first that is free. -/
theorem searchAlias_of_first {n : Nat} (hfree : r.isFree (aliasCandidate name n) path = true)
    (htaken : ∀ j < n, r.isFree (aliasCandidate name j) path = false) {i : Nat} (hi : i ≤ n) :
    r.searchAlias name path i = (aliasCandidate name n,
      { r with aliases := r.aliases.insert (aliasCandidate name n) path }) := by
  -- From the free candidate backwards.
  induction hi using Nat.decreasingInduction with
  | self => exact searchAlias_of_free hfree
  | of_succ i hlt ih => rw [searchAlias_of_taken (htaken i hlt), ih]

/-! ## The alias that is found -/

theorem getElem_aliasNames {count i : Nat} (h : i < (aliasNames name count).length) :
    (aliasNames name count)[i] = aliasCandidate name i := by
  cases i with
  | zero => rfl
  | succ i =>
    simp only [aliasNames, aliasCandidate, List.getElem_cons_succ, List.getElem_map,
      List.getElem_range]

variable (r name path) in
/-- The free alias is the first candidate that is not taken, and not more candidates are taken than
aliases are bound. -/
theorem exists_first_free : ∃ n ≤ r.aliases.entries.length,
    r.freeAlias name path = aliasCandidate name n ∧
    ∀ j < n, r.isFree (aliasCandidate name j) path = false := by
  obtain ⟨-, n, hn, hname, htaken⟩ :=
    List.find?_eq_some_iff_getElem.mp (find?_freeAlias r name path)
  refine ⟨n, ?_, ?_, ?_⟩
  · rw [length_aliasNames] at hn
    omega
  · rw [← hname, getElem_aliasNames]
  · intro j hj
    have h := htaken j hj
    rw [getElem_aliasNames] at h
    simpa using h

/-- An alias that is bound to a package is given to it again, and nothing is changed by that. -/
theorem allocateAlias_of_kept {s : Registry} (hk : AliasesKept r s)
    (hb : s.aliases.get? (r.freeAlias name path) = some path) :
    s.allocateAlias name path = (r.freeAlias name path, s) := by
  unfold allocateAlias
  rw [freeAlias_of_kept hk hb]
  dsimp only
  rw [Table.insert_of_get? hb]

/-- A package is given the first candidate that is bound to nobody else, after at most as many
refusals as there are bound aliases. That alias is then bound to the package and all else is as it
was; after any later operations the same alias is given to it again, and nothing is changed. -/
theorem allocateAlias_first (r : Registry) (name path : String) :
    ∃ n s, r.searchAlias name path 0 = (aliasCandidate name n, s) ∧
      r.allocateAlias name path = (aliasCandidate name n, s) ∧
      n ≤ r.aliases.entries.length ∧
      (∀ i < n, ∃ holder, r.aliasPath? (aliasCandidate name i) = some holder ∧ holder ≠ path) ∧
      (∀ holder, r.aliasPath? (aliasCandidate name n) = some holder → holder = path) ∧
      s = { r with aliases := s.aliases } ∧
      s.aliasPath? (aliasCandidate name n) = some path ∧
      (∀ other, other ≠ aliasCandidate name n → s.aliasPath? other = r.aliasPath? other) ∧
      ∀ later, (s.after later).allocateAlias name path =
        (aliasCandidate name n, s.after later) := by
  obtain ⟨n, hn, hname, htaken⟩ := exists_first_free r name path
  have hfree : r.isFree (aliasCandidate name n) path = true := hname ▸ isFree_freeAlias r name path
  let s : Registry := { r with aliases := r.aliases.insert (aliasCandidate name n) path }
  have hbound : s.aliases.get? (aliasCandidate name n) = some path := Table.get?_insert_self _ _ _
  refine ⟨n, s, ?_, ?_, hn, ?_, isFree_iff.mp hfree, rfl, hbound, ?_, ?_⟩
  · exact searchAlias_of_first hfree htaken (Nat.zero_le n)
  · rw [allocateAlias, hname]
  · exact fun i hi => not_isFree_iff.mp (htaken i hi)
  · exact fun other hne => Table.get?_insert_of_ne _ _ hne
  · intro later
    have hkept : AliasesKept s (s.after later) := (kept_aliasesKept s).always (.refl s) later
    have hlater : (s.after later).aliases.get? (r.freeAlias name path) = some path :=
      hname ▸ hkept _ _ hbound
    rw [← hname]
    exact allocateAlias_of_kept ((aliasesKept_insert hfree).trans hkept) hlater

/-- Two packages of one name, and a third whose own name is the suffixed one. -/
example :
    let r := empty.after [.allocateAlias "pb" "a::pb", .reserveAlias "pb_0" "pb_0"]
    (r.allocateAlias "pb" "b::pb").1 = "pb_1" ∧ (r.allocateAlias "pb" "a::pb").1 = "pb" := by
  decide

end Registry

end RpcGateway.Schema
