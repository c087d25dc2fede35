import RpcGateway.Proofs.Collections
import RpcGateway.Proto.ToJson

/-!
The depth to which messages of any type are followed. Where it suffices, more of it leaves the form
of a message as it is, and so a message has at most one form.
-/
namespace RpcGateway.Proto

/-- Each form that `p` makes is one that `q` makes. -/
def Extends (p q : MessagePrinter) : Prop := ∀ t fs j, p t fs = .ok j → q t fs = .ok j

section Extension
variable {pool : Pool} {full : Bool} {p q : MessagePrinter}

theorem Extends.jsonOfAny (hext : Extends p q) {fields : Fields} {j : Json}
    (h : jsonOfAny pool p fields = .ok j) : jsonOfAny pool q fields = .ok j := by
  unfold Proto.jsonOfAny at h ⊢
  dsimp only at h ⊢
  split at h
  · split at h
    · next htype =>
      obtain ⟨m, hm, h⟩ := exists_of_bind_eq_ok h
      obtain ⟨k, hk, h⟩ := exists_of_bind_eq_ok h
      rw [hm]
      show (q _ m.fields >>= _) = _
      rw [hext _ _ _ hk]
      exact h
    · cases h
  · cases h

theorem Extends.formToJson (hext : Extends p q) {form : Form} {fields : Fields} {j : Json}
    (h : form.toJson pool p fields = .ok j) : form.toJson pool q fields = .ok j := by
  cases form with
  | any => exact hext.jsonOfAny h
  | _ => exact h

theorem Extends.jsonOfType (hext : Extends p q) {t : MessageType} {fields : Fields}
    {members members' : Unit → Except FormFault (List (String × Json))} {j : Json}
    (hmembers : ∀ ms, members () = .ok ms → members' () = .ok ms)
    (h : jsonOfType pool full p t fields members = .ok j) :
    jsonOfType pool full q t fields members' = .ok j := by
  unfold Proto.jsonOfType at h ⊢
  split at h
  · obtain ⟨ms, hms, rfl⟩ := exists_of_map_eq_ok h
    rw [hmembers ms hms]
    rfl
  · obtain ⟨fs, hfs, h⟩ := exists_of_bind_eq_ok h
    rw [hfs]
    exact hext.formToJson h

mutual

theorem Extends.jsonOfContent (hext : Extends p q) {c : Content} {v : Value} {j : Json}
    (h : jsonOfContent pool full p c v = .ok j) : jsonOfContent pool full q c v = .ok j := by
  cases v with
  | list items =>
    cases c with
    | list type packed presence =>
      rw [Proto.jsonOfContent] at h ⊢
      obtain ⟨js, hjs, rfl⟩ := exists_of_map_eq_ok h
      rw [hext.jsonOfItems hjs]
      rfl
    | _ => exact h
  | map entries =>
    cases c with
    | map key value presence =>
      rw [Proto.jsonOfContent] at h ⊢
      obtain ⟨ms, hms, rfl⟩ := exists_of_map_eq_ok h
      rw [hext.jsonOfEntries hms]
      rfl
    | _ => exact h
  | message fields =>
    cases c with
    | single slot =>
      rw [Proto.jsonOfContent] at h ⊢
      cases ht : pool.referred? slot.type with
      | none =>
        rw [ht] at h
        exact h
      | some t =>
        rw [ht] at h
        exact hext.jsonOfType (fun ms hms => hext.membersOfFields hms) h
    | _ => exact h
  | _ => cases c <;> exact h

theorem Extends.membersOfFields (hext : Extends p q) {t : MessageType}
    {fields : List (Nat × Value)} {ms : List (String × Json)}
    (h : membersOfFields pool full p t fields = .ok ms) :
    membersOfFields pool full q t fields = .ok ms := by
  cases fields with
  | nil => exact h
  | cons e rest =>
    obtain ⟨n, v⟩ := e
    rw [Proto.membersOfFields] at h ⊢
    cases hf : t.field? n with
    | none =>
      rw [hf] at h
      exact hext.membersOfFields h
    | some f =>
      rw [hf] at h
      dsimp only at h ⊢
      split at h
      · next hshows =>
        obtain ⟨j, hj, h⟩ := exists_of_bind_eq_ok h
        obtain ⟨others, hothers, h⟩ := exists_of_bind_eq_ok h
        rw [if_pos hshows, hext.jsonOfContent hj]
        show (_ >>= _) = _
        rw [hext.membersOfFields hothers]
        exact h
      · next hshows =>
        rw [if_neg hshows]
        exact hext.membersOfFields h

theorem Extends.jsonOfItems (hext : Extends p q) {type : FieldType} {items : List Value}
    {js : List Json} (h : jsonOfItems pool full p type items = .ok js) :
    jsonOfItems pool full q type items = .ok js := by
  cases items with
  | nil => exact h
  | cons v items =>
    rw [Proto.jsonOfItems] at h ⊢
    obtain ⟨j, hj, h⟩ := exists_of_bind_eq_ok h
    obtain ⟨others, hothers, h⟩ := exists_of_bind_eq_ok h
    rw [hext.jsonOfContent hj]
    show (_ >>= _) = _
    rw [hext.jsonOfItems hothers]
    exact h

theorem Extends.jsonOfEntries (hext : Extends p q) {type : FieldType}
    {entries : List (Value × Value)} {ms : List (String × Json)}
    (h : jsonOfEntries pool full p type entries = .ok ms) :
    jsonOfEntries pool full q type entries = .ok ms := by
  cases entries with
  | nil => exact h
  | cons e entries =>
    obtain ⟨k, v⟩ := e
    rw [Proto.jsonOfEntries] at h ⊢
    obtain ⟨j, hj, h⟩ := exists_of_bind_eq_ok h
    obtain ⟨others, hothers, h⟩ := exists_of_bind_eq_ok h
    rw [hext.jsonOfContent hj]
    show (_ >>= _) = _
    rw [hext.jsonOfEntries hothers]
    exact h

end

end Extension

/-! ## Depths -/

section Depths
variable {pool : Pool} {full : Bool}

theorem extends_jsonWithin_succ (n : Nat) :
    Extends (jsonWithin pool full n) (jsonWithin pool full (n + 1)) := by
  induction n with
  | zero =>
    intro t fs j h
    cases h
  | succ n ih =>
    intro t fs j h
    rw [jsonWithin] at h ⊢
    exact ih.jsonOfType (fun ms hms => ih.membersOfFields hms) h

theorem extends_jsonWithin {m n : Nat} (h : m ≤ n) :
    Extends (jsonWithin pool full m) (jsonWithin pool full n) := by
  induction h with
  | refl => exact fun _ _ _ h => h
  | step _ ih => exact fun t fs j h => extends_jsonWithin_succ _ t fs j (ih t fs j h)

end Depths

/-- The JSON form of a message, whatever the depth that it takes. -/
def HasForm (pool : Pool) (t : MessageType) (fs : Fields) (j : Json) : Prop :=
  ∃ depth, jsonWithin pool false depth t fs = .ok j

theorem HasForm.unique {pool : Pool} {t : MessageType} {fs : Fields} {j k : Json}
    (hj : HasForm pool t fs j) (hk : HasForm pool t fs k) : j = k := by
  obtain ⟨m, hj⟩ := hj
  obtain ⟨n, hk⟩ := hk
  have hj := extends_jsonWithin (Nat.le_max_left m n) t fs j hj
  have hk := extends_jsonWithin (Nat.le_max_right m n) t fs k hk
  exact Except.ok.inj (hj.symm.trans hk)

end RpcGateway.Proto
