import Mathlib.Data.List.Nodup
import Mathlib.Data.List.Perm.Subperm
import Std.Data.String.ToNat
import RpcGateway.Schema.Registry

/-!
The search for an alias. Among the suffixed names of a package there are more than there are bound
aliases, so one of them is free; and an alias that a package was given once is found again, whatever
is bound later.
-/
namespace RpcGateway.Schema.Registry

theorem isFree_iff {r : Registry} {name path : String} :
    r.isFree name path = true ↔ ∀ holder, r.aliases.get? name = some holder → holder = path := by
  unfold isFree
  cases r.aliases.get? name <;> simp

/-! ## One of the candidates is free -/

theorem suffixed_injective (name : String) :
    Function.Injective fun i : Nat => name ++ "_" ++ toString i := by
  intro i j h
  exact Nat.repr_injective ((String.append_right_inj _).mp h)

theorem suffixed_ne (name : String) (i : Nat) : name ++ "_" ++ toString i ≠ name := by
  intro h
  have hl := congrArg String.length h
  simp only [String.length_append] at hl
  have h1 : "_".length = 1 := rfl
  omega

theorem nodup_aliasNames (name : String) (count : Nat) : (aliasNames name count).Nodup := by
  unfold aliasNames
  rw [List.nodup_cons]
  constructor
  · intro h
    obtain ⟨i, _, hi⟩ := List.mem_map.mp h
    exact suffixed_ne name i hi
  · exact List.Nodup.map (suffixed_injective name) List.nodup_range

theorem length_aliasNames (name : String) (count : Nat) :
    (aliasNames name count).length = count + 1 := by
  simp [aliasNames]

/-- The candidates outnumber the bound aliases, so they are not all bound. -/
theorem exists_free (r : Registry) (name path : String) :
    ∃ a ∈ aliasNames name r.aliases.entries.length, r.isFree a path = true := by
  by_contra hall
  push Not at hall
  have hsub : aliasNames name r.aliases.entries.length ⊆ r.aliases.names := by
    intro a ha
    rw [Table.mem_names_iff]
    cases hg : r.aliases.get? a with
    | some holder => rfl
    | none => exact absurd (isFree_iff.mpr (by simp [hg])) (hall a ha)
  have hle := (List.subperm_of_subset (nodup_aliasNames name _) hsub).length_le
  rw [length_aliasNames, Table.names, List.length_map] at hle
  omega

theorem find?_freeAlias (r : Registry) (name path : String) :
    (aliasNames name r.aliases.entries.length).find? (fun a => r.isFree a path) =
      some (r.freeAlias name path) := by
  unfold freeAlias
  cases h : (aliasNames name r.aliases.entries.length).find? fun a => r.isFree a path with
  | some a => rfl
  | none =>
    obtain ⟨a, ha, hfree⟩ := exists_free r name path
    exact absurd hfree (List.find?_eq_none.mp h a ha)

theorem isFree_freeAlias (r : Registry) (name path : String) :
    r.isFree (r.freeAlias name path) path = true := by
  have h := List.find?_some (find?_freeAlias r name path)
  exact h

/-! ## What is bound stays bound -/

/-- All aliases of one registry are bound in another to the same package paths. -/
def AliasesKept (r s : Registry) : Prop :=
  ∀ a path, r.aliases.get? a = some path → s.aliases.get? a = some path

theorem AliasesKept.refl (r : Registry) : AliasesKept r r := fun _ _ h => h

theorem AliasesKept.trans {r s t : Registry} (h : AliasesKept r s) (h' : AliasesKept s t) :
    AliasesKept r t := fun a path ha => h' a path (h a path ha)

/-- Binding a free alias keeps what is bound. -/
theorem aliasesKept_insert {r : Registry} {a path : String} (h : r.isFree a path = true) :
    AliasesKept r { r with aliases := r.aliases.insert a path } := by
  intro b holder hb
  show (r.aliases.insert a path).get? b = some holder
  rw [Table.get?_insert]
  split
  · next he =>
    subst he
    rw [isFree_iff.mp h holder hb]
  · exact hb

/-! ## The same search later -/

theorem aliasNames_mono (name : String) {m n : Nat} (h : m ≤ n) :
    aliasNames name m <+: aliasNames name n := by
  unfold aliasNames
  rw [List.prefix_cons_inj]
  obtain ⟨k, rfl⟩ := Nat.exists_eq_add_of_le h
  rw [List.range_add, List.map_append]
  exact List.prefix_append _ _

/-- The search may look at any number of candidates, as long as it finds one. -/
theorem freeAlias_eq {r : Registry} {name path a : String} {n : Nat}
    (h : (aliasNames name n).find? (fun b => r.isFree b path) = some a) :
    r.freeAlias name path = a := by
  have hf := find?_freeAlias r name path
  rcases Nat.le_total n r.aliases.entries.length with hn | hn
  · have h' := (aliasNames_mono name hn).find?_eq_some h
    exact Option.some.inj (hf.symm.trans h')
  · have hf' := (aliasNames_mono name hn).find?_eq_some hf
    exact Option.some.inj (hf'.symm.trans h)

theorem not_isFree_of_kept {r s : Registry} (hk : AliasesKept r s) {b path : String}
    (h : r.isFree b path = false) : s.isFree b path = false := by
  cases hs : s.isFree b path with
  | false => rfl
  | true =>
    have hr : r.isFree b path = true :=
      isFree_iff.mpr fun holder hb => isFree_iff.mp hs holder (hk b holder hb)
    exact absurd hr (by simp [h])

/-- Once the alias that the search finds is bound to the package, the search finds it for ever. -/
theorem freeAlias_of_kept {r s : Registry} (hk : AliasesKept r s) {name path : String}
    (hb : s.aliases.get? (r.freeAlias name path) = some path) :
    s.freeAlias name path = r.freeAlias name path := by
  obtain ⟨_, before, after, he, hbefore⟩ :=
    List.find?_eq_some_iff_append.mp (find?_freeAlias r name path)
  apply freeAlias_eq (n := r.aliases.entries.length)
  rw [List.find?_eq_some_iff_append]
  -- The candidates before it were taken by others, and they still are.
  refine ⟨isFree_iff.mpr ?_, before, after, he, ?_⟩
  · intro holder hh
    exact Option.some.inj (hh.symm.trans hb)
  · intro b hm
    have hr : r.isFree b path = false := by simpa using hbefore b hm
    simp [not_isFree_of_kept hk hr]

end RpcGateway.Schema.Registry
