import RpcGateway.Proofs.Envelope.Members

/-!
The members of envelopes that were printed. Whatever an envelope holds, its text is an object, and
the id is found in it under its name.
-/
namespace RpcGateway
open Json

/-! ## The members of a printed record -/

/-- A member of a printed record as it is found in its text. -/
def Found (bound : Nat) (m found : Member) : Prop :=
  found.1 = m.1 ∧ ∃ rest, found.2 = m.2 ++ rest ∧ StopsNumber rest ∧ found.2.length ≤ bound

theorem passMember_printed {bound : Nat} {rest : Bytes} {ms : List Member}
    (ht : ∀ m ∈ ms, IsValue m.2) {fuel : Nat} (hfuel : ms.length < fuel) (first : Bool)
    (before : List Member)
    (hl : (joined first (ms.map printMember) ++ closeBrace :: rest).length ≤ bound) :
    ∃ found, members bound (passMember bound) fuel first before
        (joined first (ms.map printMember) ++ closeBrace :: rest) =
      .ok (before ++ found, rest) ∧ List.Forall₂ (Found bound) ms found := by
  induction ms generalizing fuel first before with
  | nil =>
    obtain ⟨fuel, rfl⟩ : ∃ k, fuel = k + 1 := ⟨fuel - 1, by omega⟩
    exact ⟨[], by rw [List.map_nil, members_nil, List.append_nil], .nil⟩
  | cons m ms ih =>
    obtain ⟨fuel, rfl⟩ : ∃ k, fuel = k + 1 := ⟨fuel - 1, by omega⟩
    rw [List.map_cons] at hl ⊢
    rw [List.length_cons] at hfuel
    have hstop := stopsNumber_joined (ms.map printMember) rest (.inr rfl)
    have hlm := Nat.lt_of_lt_of_le
      (length_member first m (ms.map printMember) (closeBrace :: rest)) hl
    have hskip := (ht m List.mem_cons_self).valueText bound _ (Nat.le_of_lt hlm) hstop
    have hrest := Nat.le_trans hskip.length_le (Nat.le_of_lt hlm)
    obtain ⟨found, hfound, hall⟩ := ih (fun n hn => ht n (List.mem_cons_of_mem m hn))
      (by omega : ms.length < fuel) false
      (before ++ [(m.1, m.2 ++ (joined false (ms.map printMember) ++ closeBrace :: rest))]) hrest
    have hfirst : Found bound m
        (m.1, m.2 ++ (joined false (ms.map printMember) ++ closeBrace :: rest)) :=
      ⟨rfl, _, rfl, hstop, Nat.le_of_lt hlm⟩
    refine ⟨_ :: found, ?_, .cons hfirst hall⟩
    rw [members_cons _ _ _ _ _ _ hl]
    simp only [passMember, afterColon_colon, skip_of_skipsTo hskip (Nat.le_of_lt hlm), Except.map,
      Except.bind, hfound, List.append_assoc, List.singleton_append]

/-- Every printed record is an object with the members that were printed. -/
theorem memberInputs_printRecord {ms : List Member} (ht : ∀ m ∈ ms, IsValue m.2) :
    ∃ found, memberInputs (printRecord ms) = .ok found ∧
      List.Forall₂ (Found (printRecord ms).length) ms found := by
  have hcount := length_le_joined true (ms.map printMember) closeBrace []
  rw [List.length_map] at hcount
  have htext : printRecord ms = openBrace :: (joined true (ms.map printMember) ++ [closeBrace]) :=
    printRecord_eq ms
  have hl := congrArg List.length htext
  rw [List.length_cons] at hl
  obtain ⟨found, hfound, hall⟩ := passMember_printed ht
    (by omega : ms.length < (printRecord ms).length + 1) true [] (Nat.le_of_succ_le hl.ge)
  refine ⟨found, ?_, hall⟩
  have hopen : ∀ s, skipBlank (openBrace :: s) = openBrace :: s := fun _ => rfl
  have hread : objectInputs (printRecord ms).length (printRecord ms) = .ok (found, []) := by
    generalize (printRecord ms).length = bound at hfound ⊢
    rw [htext]
    simp only [objectInputs, hopen, if_true]
    exact hfound
  rw [memberInputs, entire, hread]
  rfl

/-! ## The id of a printed envelope -/

namespace Envelope

/-- The members of an envelope as they are printed. -/
def printed (m : Envelope) : List Member :=
  ("jsonrpc", printString m.version) :: memberOf "id" Json.print m.id ++
    (if m.method.isEmpty then [] else [("method", printString m.method)]) ++
    memberOf "params" Json.print m.params ++ memberOf "result" Json.print m.result ++
    memberOf "error" RpcError.print m.error

theorem print_eq (m : Envelope) : m.print = printRecord m.printed := rfl

theorem mem_memberOf {α : Type} {name : String} {printValue : α → Bytes} {x : Option α}
    {m : Member} :
    m ∈ memberOf name printValue x ↔ ∃ v, x = some v ∧ m = (name, printValue v) := by
  cases x <;> simp [memberOf]

theorem isValue_error (e : RpcError) : IsValue e.print := by
  refine isValue_record fun m hm => ?_
  simp only [List.mem_cons, mem_memberOf] at hm
  rcases hm with rfl | rfl | ⟨v, -, rfl⟩
  · exact isValue_printInt _
  · exact isValue_printString _
  · exact isValue_print v

theorem isValue_of_mem_printed {m : Envelope} {x : Member} (h : x ∈ m.printed) :
    IsValue x.2 := by
  simp only [printed, List.mem_append, List.mem_cons, mem_memberOf] at h
  rcases h with ((((rfl | ⟨v, -, rfl⟩) | h) | ⟨v, -, rfl⟩) | ⟨v, -, rfl⟩) | ⟨e, -, rfl⟩
  · exact isValue_printString _
  · exact isValue_print v
  · split at h
    · cases h
    · cases List.mem_singleton.mp h
      exact isValue_printString _
  · exact isValue_print v
  · exact isValue_print v
  · exact isValue_error e

/-- Only the id is printed under its name. -/
theorem id_mem_printed {m : Envelope} {t : Bytes} :
    ("id", t) ∈ m.printed ↔ ∃ v, m.id = some v ∧ t = v.print := by
  simp [printed, mem_memberOf]

/-- A printed envelope is an object, with the text of the id under its name if there is one. -/
theorem memberInputs_print (m : Envelope) :
    ∃ found, memberInputs m.print = .ok found ∧
      (∀ s, ("id", s) ∈ found → ∃ v rest, m.id = some v ∧ s = v.print ++ rest ∧
        StopsNumber rest ∧ s.length ≤ m.print.length) ∧
      (∀ v, m.id = some v → ∃ rest, ("id", v.print ++ rest) ∈ found) := by
  obtain ⟨found, hfound, hall⟩ := memberInputs_printRecord fun x hx => isValue_of_mem_printed hx
  rw [print_eq]
  refine ⟨found, hfound, fun s hs => ?_, fun v hv => ?_⟩
  · obtain ⟨⟨name, t⟩, hx, hname, rest, hrest, hstop, hl⟩ := exists_left_of_forall₂ hall hs
    obtain rfl : "id" = name := hname
    obtain ⟨v, hv, rfl⟩ := id_mem_printed.mp hx
    exact ⟨v, rest, hv, hrest, hstop, hl⟩
  · obtain ⟨⟨name, s⟩, hs, hname, rest, hrest, -⟩ :=
      exists_right_of_forall₂ hall (id_mem_printed.mpr ⟨v, hv, rfl⟩)
    obtain rfl : name = "id" := hname
    obtain rfl : s = v.print ++ rest := hrest
    exact ⟨rest, hs⟩

/-- The id of a printed envelope is what its text is read as. -/
theorem hasMember_print_iff {m : Envelope} {v w : Json} (hid : m.id = some v)
    (hc : Canonical (maxDepth - 1) v) :
    HasMember m.print "id" w ↔ reread (maxDepth - 1) v = .ok w := by
  obtain ⟨found, hfound, hfrom, hto⟩ := memberInputs_print m
  have hreads := hc.rereads.reads
  -- Each input under the name begins with the text of the id.
  have hread : ∀ s, ("id", s) ∈ found → ∃ rest,
      value m.print.length (maxDepth - 1) s = (reread (maxDepth - 1) v).map (·, rest) := by
    intro s hs
    obtain ⟨v', rest, hv', rfl, hstop, hl⟩ := hfrom s hs
    obtain rfl : v' = v := Option.some.inj (hv'.symm.trans hid)
    exact ⟨rest, hreads _ rest hl hstop⟩
  constructor
  · rintro ⟨ms, s, rest, hms, hs, hvalue⟩
    obtain rfl : ms = found := Except.ok.inj (hms.symm.trans hfound)
    obtain ⟨rest', hr⟩ := hread s hs
    rw [hvalue] at hr
    obtain ⟨u, hu, heq⟩ := exists_of_map_eq_ok hr.symm
    rw [hu, (Prod.mk.inj heq).1]
  · intro hw
    obtain ⟨after, hmem⟩ := hto v hid
    obtain ⟨rest, hr⟩ := hread _ hmem
    rw [hw] at hr
    exact ⟨found, _, rest, hfound, hmem, hr⟩

end Envelope

end RpcGateway
