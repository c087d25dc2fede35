import Mathlib.Data.String.Basic
import RpcGateway.Json.Basic
import RpcGateway.Table

/-!
Objects by their members. What is put under a name is found there, and all other names keep what
they have. Members stay in ascending order, and so objects are equal if they have the same under
each name.
-/
namespace RpcGateway.Json

theorem lookup_putMember (name other : String) (v : Json) (ms : List (String × Json)) :
    (putMember name v ms).lookup other = if other = name then some v else ms.lookup other := by
  induction ms with
  | nil => rw [putMember, Table.lookup_cons]
  | cons m ms ih =>
    obtain ⟨k, w⟩ := m
    rw [putMember]
    split
    · next hk =>
      subst hk
      simp only [Table.lookup_cons]
      split <;> rfl
    split
    · rw [Table.lookup_cons]
    · next hk _ =>
      simp only [Table.lookup_cons, ih]
      by_cases h : other = k
      · subst h
        simp [Ne.symm hk]
      · simp [h]

theorem mem_putMember {k : String} {v : Json} {ms : List (String × Json)} {m : String × Json}
    (h : m ∈ putMember k v ms) : m = (k, v) ∨ m ∈ ms := by
  induction ms with
  | nil => exact .inl (List.mem_singleton.mp h)
  | cons n ms ih =>
    simp only [putMember] at h
    split at h
    · rcases List.mem_cons.mp h with h | h
      · exact .inl h
      · exact .inr (List.mem_cons_of_mem _ h)
    split at h
    · exact List.mem_cons.mp h
    · rcases List.mem_cons.mp h with h | h
      · exact .inr (h ▸ List.mem_cons_self)
      · exact (ih h).imp_right (List.mem_cons_of_mem _)

theorem pairwise_putMember (k : String) (v : Json) {ms : List (String × Json)}
    (hs : ms.Pairwise (fun m n => m.1 < n.1)) :
    (putMember k v ms).Pairwise (fun m n => m.1 < n.1) := by
  induction ms with
  | nil => exact List.pairwise_singleton _ _
  | cons n ms ih =>
    obtain ⟨hn, hms⟩ := List.pairwise_cons.mp hs
    simp only [putMember]
    split
    · next hk =>
      exact List.pairwise_cons.mpr ⟨fun m hm => hk ▸ hn m hm, hms⟩
    split
    · next hk =>
      refine List.pairwise_cons.mpr ⟨fun m hm => ?_, hs⟩
      rcases List.mem_cons.mp hm with rfl | hm
      · exact hk
      · exact lt_trans hk (hn m hm)
    · next hne hlt =>
      refine List.pairwise_cons.mpr ⟨fun m hm => ?_, ih hms⟩
      rcases mem_putMember hm with rfl | hm
      · exact lt_of_le_of_ne (not_lt.mp hlt) (Ne.symm hne)
      · exact hn m hm

/-! ## Objects with the same members -/

/-- Where each name has one value, a name has exactly the value of its member. -/
theorem lookup_eq_some_iff_mem {ms : List (String × Json)}
    (hone : ∀ m ∈ ms, ∀ n ∈ ms, m.1 = n.1 → m = n) (name : String) (v : Json) :
    ms.lookup name = some v ↔ (name, v) ∈ ms := by
  constructor
  · intro h
    obtain ⟨before, after, rfl, -⟩ := List.lookup_eq_some_iff.mp h
    exact List.mem_append_right before List.mem_cons_self
  · intro hmem
    cases hlookup : ms.lookup name with
    | none => simpa using List.lookup_eq_none_iff.mp hlookup _ hmem
    | some w =>
      obtain ⟨before, after, rfl, -⟩ := List.lookup_eq_some_iff.mp hlookup
      cases hone _ hmem _ (List.mem_append_right before List.mem_cons_self) rfl
      rfl

theorem lookup_of_forall_lt {ms : List (String × Json)} {k : String} (h : ∀ m ∈ ms, k < m.1) :
    ms.lookup k = none := by
  rw [List.lookup_eq_none_iff]
  intro m hm
  simpa using (h m hm).ne

/-- The first name comes first wherever each name has the same. -/
theorem not_lt_of_lookup_eq {k l : String} {v w : Json} {ms ns : List (String × Json)}
    (hl : ∀ n ∈ ns, l < n.1)
    (h : ∀ name, ((k, v) :: ms).lookup name = ((l, w) :: ns).lookup name) : ¬ k < l := by
  intro hlt
  have hnone : ((l, w) :: ns).lookup k = none :=
    lookup_of_forall_lt (List.forall_mem_cons.mpr ⟨hlt, fun n hn => hlt.trans (hl n hn)⟩)
  rw [← h k, Table.lookup_cons, if_pos rfl] at hnone
  cases hnone

/-- Members in ascending order are equal if every name has the same in both. -/
theorem eq_of_lookup_eq {ms ns : List (String × Json)} (hms : ms.Pairwise fun m n => m.1 < n.1)
    (hns : ns.Pairwise fun m n => m.1 < n.1) (h : ∀ name, ms.lookup name = ns.lookup name) :
    ms = ns := by
  induction ms generalizing ns with
  | nil =>
    cases ns with
    | nil => rfl
    | cons n ns =>
      have hn := h n.1
      rw [List.lookup_nil, Table.lookup_cons, if_pos rfl] at hn
      cases hn
  | cons m ms ih =>
    obtain ⟨k, v⟩ := m
    obtain ⟨hk, hms⟩ := List.pairwise_cons.mp hms
    cases ns with
    | nil =>
      have hm := h k
      rw [List.lookup_nil, Table.lookup_cons, if_pos rfl] at hm
      cases hm
    | cons n ns =>
      obtain ⟨l, w⟩ := n
      obtain ⟨hl, hrest⟩ := List.pairwise_cons.mp hns
      have hle : l ≤ k := not_lt.mp (not_lt_of_lookup_eq hl h)
      have hge : k ≤ l := not_lt.mp (not_lt_of_lookup_eq hk fun name => (h name).symm)
      obtain rfl := le_antisymm hge hle
      have hv := h k
      rw [Table.lookup_cons, Table.lookup_cons, if_pos rfl, if_pos rfl] at hv
      cases hv
      refine congrArg _ (ih hms hrest fun name => ?_)
      by_cases hname : name = k
      · rw [hname, lookup_of_forall_lt hk, lookup_of_forall_lt hl]
      · have hother := h name
        rwa [Table.lookup_cons, Table.lookup_cons, if_neg hname, if_neg hname] at hother

/-- What members put together have under a name is what the last of that name has. -/
theorem lookup_foldl_putMember (ms before : List (String × Json)) (name : String) :
    (ms.foldl (fun ms (k, v) => putMember k v ms) before).lookup name =
      (ms.reverse.lookup name).or (before.lookup name) := by
  induction ms generalizing before with
  | nil => rfl
  | cons m ms ih =>
    obtain ⟨k, v⟩ := m
    rw [List.foldl_cons, ih, lookup_putMember, List.reverse_cons, List.lookup_append,
      Table.lookup_cons, List.lookup_nil, Option.or_assoc]
    by_cases hname : name = k <;> simp [hname]

theorem pairwise_foldl_putMember (ms : List (String × Json)) {before : List (String × Json)}
    (h : before.Pairwise fun m n => m.1 < n.1) :
    (ms.foldl (fun ms (k, v) => putMember k v ms) before).Pairwise fun m n => m.1 < n.1 := by
  induction ms generalizing before with
  | nil => exact h
  | cons m ms ih => exact ih (pairwise_putMember m.1 m.2 h)

/-- Objects agree exactly if the last members of each name do. -/
theorem ofMembers_eq_iff {ms ns : List (String × Json)} :
    ofMembers ms = ofMembers ns ↔ ∀ name, ms.reverse.lookup name = ns.reverse.lookup name := by
  have hlookup (ms : List (String × Json)) (name : String) :
      (ms.foldl (fun ms (k, v) => putMember k v ms) []).lookup name = ms.reverse.lookup name := by
    rw [lookup_foldl_putMember, List.lookup_nil, Option.or_none]
  rw [ofMembers, ofMembers, Json.obj.injEq]
  constructor
  · intro h name
    rw [← hlookup ms, h, hlookup ns]
  · intro h
    refine eq_of_lookup_eq (pairwise_foldl_putMember ms .nil) (pairwise_foldl_putMember ns .nil) ?_
    intro name
    rw [hlookup, hlookup, h]

end RpcGateway.Json
