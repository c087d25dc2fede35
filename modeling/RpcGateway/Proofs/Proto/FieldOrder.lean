import RpcGateway.Proofs.Collections
import RpcGateway.Proto.FromJson

/-!
Fields in the order of their numbers. Setting a field keeps the order and all other fields, but for
those of its oneof, so that members set fields in any order and the message is the same. What is in
order is known by what it has under each number.
-/
namespace RpcGateway.Proto

theorem MessageType.number_of_field? {type : MessageType} {n : Nat} {f : FieldDef}
    (h : type.field? n = some f) : f.number = n := by
  simpa using List.find?_some h

namespace Fields

/-- Fields are in ascending order of their numbers. -/
def Sorted (fs : Fields) : Prop := fs.Pairwise fun p q => p.1 < q.1

theorem mem_set {fs : Fields} {n : Nat} {v : Value} {e : Nat × Value} (h : e ∈ fs.set n v) :
    e = (n, v) ∨ e ∈ fs := by
  induction fs with
  | nil => exact .inl (List.mem_singleton.mp h)
  | cons p rest ih =>
    obtain ⟨m, w⟩ := p
    rw [set] at h
    split at h
    · rcases List.mem_cons.mp h with h | h
      · exact .inl h
      · exact .inr (List.mem_cons_of_mem _ h)
    split at h
    · exact List.mem_cons.mp h
    · rcases List.mem_cons.mp h with h | h
      · exact .inr (h ▸ List.mem_cons_self)
      · exact (ih h).imp_right (List.mem_cons_of_mem _)

theorem Sorted.set {fs : Fields} (h : fs.Sorted) (n : Nat) (v : Value) : (fs.set n v).Sorted := by
  induction fs with
  | nil => exact List.pairwise_singleton _ _
  | cons p rest ih =>
    obtain ⟨m, w⟩ := p
    obtain ⟨hm, hrest⟩ := List.pairwise_cons.mp h
    rw [Fields.set]
    split
    · next hn =>
      subst hn
      exact List.pairwise_cons.mpr ⟨hm, hrest⟩
    split
    · next hlt =>
      refine List.pairwise_cons.mpr ⟨fun q hq => ?_, h⟩
      rcases List.mem_cons.mp hq with rfl | hq
      · exact hlt
      · exact Nat.lt_trans hlt (hm q hq)
    · refine List.pairwise_cons.mpr ⟨fun q hq => ?_, ih hrest⟩
      rcases mem_set hq with rfl | hq
      · show m < n
        omega
      · exact hm q hq

theorem clearOthers_sublist (type : MessageType) (f : FieldDef) (fs : Fields) :
    (clearOthers type f fs).Sublist fs := by
  unfold clearOthers
  split
  · exact List.Sublist.refl fs
  · exact List.filter_sublist

theorem Sorted.put {fs : Fields} (h : fs.Sorted) (type : MessageType) (f : FieldDef) (v : Value) :
    (Fields.put type f v fs).Sorted :=
  Sorted.set (List.Pairwise.sublist (clearOthers_sublist type f fs) h) f.number v

theorem mem_put {type : MessageType} {f : FieldDef} {v : Value} {fs : Fields} {e : Nat × Value}
    (h : e ∈ Fields.put type f v fs) : e = (f.number, v) ∨ e ∈ fs :=
  (mem_set h).imp_right fun h => (clearOthers_sublist type f fs).subset h

/-! ## What is set under a number -/

theorem get?_cons (m n : Nat) (v : Value) (fs : Fields) :
    Fields.get? ((m, v) :: fs) n = if n = m then some v else Fields.get? fs n := by
  rw [Fields.get?, List.lookup_cons]
  by_cases h : n = m
  · rw [if_pos h, h, beq_self_eq_true]
  · rw [if_neg h, beq_eq_false_iff_ne.mpr h]
    rfl

theorem mem_of_get? {fs : Fields} {n : Nat} {v : Value} (h : Fields.get? fs n = some v) :
    (n, v) ∈ fs := by
  obtain ⟨before, after, rfl, -⟩ := List.lookup_eq_some_iff.mp h
  exact List.mem_append_right before List.mem_cons_self

theorem Sorted.get?_of_mem {fs : Fields} (h : fs.Sorted) {n : Nat} {v : Value}
    (hmem : (n, v) ∈ fs) : Fields.get? fs n = some v := by
  induction fs with
  | nil => cases hmem
  | cons e rest ih =>
    obtain ⟨m, w⟩ := e
    obtain ⟨hm, hrest⟩ := List.pairwise_cons.mp h
    rw [get?_cons]
    rcases List.mem_cons.mp hmem with heq | hmem
    · cases heq
      exact if_pos rfl
    · rw [if_neg (Nat.ne_of_gt (hm _ hmem))]
      exact ih hrest hmem

theorem get?_eq_none {fs : Fields} {n : Nat} (h : ∀ e ∈ fs, e.1 ≠ n) : Fields.get? fs n = none := by
  cases hget : Fields.get? fs n with
  | none => rfl
  | some v => exact absurd rfl (h _ (mem_of_get? hget))

/-- What fields have under a number, with the number. -/
def part (fs : Fields) (n : Nat) : Fields := (Fields.get? fs n).elim [] fun v => [(n, v)]

theorem fst_of_mem_part {fs : Fields} {n : Nat} {e : Nat × Value} (h : e ∈ part fs n) :
    e.1 = n := by
  rw [part] at h
  cases hget : Fields.get? fs n with
  | none =>
    rw [hget] at h
    cases h
  | some v =>
    rw [hget] at h
    rw [List.mem_singleton.mp h]

theorem part_cons_self (n : Nat) (v : Value) (fs : Fields) : part ((n, v) :: fs) n = [(n, v)] := by
  rw [part, get?_cons, if_pos rfl]
  rfl

theorem part_cons_of_ne {m n : Nat} (h : n ≠ m) (v : Value) (fs : Fields) :
    part ((m, v) :: fs) n = part fs n := by
  rw [part, get?_cons, if_neg h]
  rfl

/-- Fields in order are their parts under each number that they may have. -/
theorem Sorted.eq_flatMap_part {fs : Fields} (h : fs.Sorted) {ns : List Nat}
    (hns : ns.Pairwise (· < ·)) (hmem : ∀ e ∈ fs, e.1 ∈ ns) : fs = ns.flatMap fs.part := by
  induction ns generalizing fs with
  | nil => exact List.eq_nil_iff_forall_not_mem.mpr fun e he => by simpa using hmem e he
  | cons n ns ih =>
    obtain ⟨hn, hns⟩ := List.pairwise_cons.mp hns
    by_cases hfirst : ∃ v rest, fs = (n, v) :: rest
    · obtain ⟨v, rest, rfl⟩ := hfirst
      obtain ⟨hm, hrest⟩ := List.pairwise_cons.mp h
      have hrestmem : ∀ e ∈ rest, e.1 ∈ ns := by
        intro e he
        have hin := List.mem_cons.mp (hmem e (List.mem_cons_of_mem _ he))
        exact hin.resolve_left (Nat.ne_of_gt (hm e he))
      have hparts : ns.flatMap (part ((n, v) :: rest)) = ns.flatMap (part rest) :=
        List.flatMap_congr fun k hk => part_cons_of_ne (Nat.ne_of_gt (hn k hk)) v rest
      rw [List.flatMap_cons, part_cons_self, hparts, ← ih hrest hns hrestmem]
      rfl
    · have hne : ∀ e ∈ fs, e.1 ≠ n := by
        cases fs with
        | nil => exact fun e he => by cases he
        | cons p rest =>
          have hp : p.1 ≠ n := fun hp => hfirst ⟨p.2, rest, by rw [← hp]⟩
          have hlt : n < p.1 :=
            hn _ ((List.mem_cons.mp (hmem p List.mem_cons_self)).resolve_left hp)
          intro e he
          rcases List.mem_cons.mp he with rfl | he
          · exact hp
          · exact Nat.ne_of_gt (Nat.lt_trans hlt ((List.pairwise_cons.mp h).1 e he))
      have hempty : fs.part n = [] := by rw [part, get?_eq_none hne]; rfl
      rw [List.flatMap_cons, hempty, List.nil_append]
      exact ih h hns fun e he => (List.mem_cons.mp (hmem e he)).resolve_left (hne e he)

end Fields

/-! ## Fields that members set -/

theorem mem_fields_of_fieldOfMember? {type : MessageType} {name : String} {f : FieldDef}
    (h : type.fieldOfMember? name = some f) : f ∈ type.fields := by
  rcases Option.or_eq_some_iff.mp h with h | ⟨-, h⟩
  · exact List.mem_of_find?_eq_some h
  · exact List.mem_of_find?_eq_some h

/-- What holds of fields in order and of all that a member can set holds of what members set. -/
theorem membersOfJson_induct {pool : Pool} {type : MessageType} {P : Nat × Value → Prop}
    {members : List (String × Json)}
    (hmember : ∀ m ∈ members, ∀ f ∈ type.fields, ∀ v,
      contentOfJson pool f.content (fun t => fieldsOfJson pool t m.2) m.2 = some (some v) →
        P (f.number, v)) {before after : Fields} (hsorted : before.Sorted)
    (hbefore : ∀ e ∈ before, P e) (h : membersOfJson pool type before members = some after) :
    after.Sorted ∧ ∀ e ∈ after, P e := by
  induction members generalizing before with
  | nil =>
    rw [membersOfJson] at h
    cases h
    exact ⟨hsorted, hbefore⟩
  | cons m rest ih =>
    obtain ⟨name, j⟩ := m
    obtain ⟨hfirst, hrest⟩ := List.forall_mem_cons.mp hmember
    rw [membersOfJson] at h
    split at h
    · exact ih hrest hsorted hbefore h
    · next f hf =>
      split at h
      · cases h
      · exact ih hrest hsorted hbefore h
      · next v hv =>
        split at h
        · cases h
        · refine ih hrest (hsorted.put type f v) (fun e he => ?_) h
          rcases Fields.mem_put he with rfl | he
          · exact hfirst f (mem_fields_of_fieldOfMember? hf) v hv
          · exact hbefore e he

/-- Messages of types that are not standard are objects. -/
theorem members_of_fieldsOfJson {pool : Pool} {type : MessageType} {j : Json} {fs : Fields}
    (htype : Standard.find? type = none) (h : fieldsOfJson pool type j = some fs) :
    ∃ members, j = .obj members ∧ membersOfJson pool type [] members = some fs := by
  cases j with
  | obj members =>
    rw [fieldsOfJson, htype] at h
    exact ⟨members, rfl, h⟩
  | _ => simp [fieldsOfJson, htype] at h

theorem fieldsOfJson_of_standard {type standard : MessageType} {form : Form} (pool : Pool)
    (htype : Standard.find? type = some (form, standard)) (hform : form ≠ .any) (j : Json) :
    fieldsOfJson pool type j = (form.ofJson? j).bind (declaredFields pool type standard) := by
  cases j <;> cases form <;> simp_all [fieldsOfJson]

end RpcGateway.Proto
