import RpcGateway.Proofs.Http.Metadata

/-!
Headers as a map from names to lists of values. Grouping the entries by name keeps the values of
each name, so a header map is read completely by going through its groups, one name at a time.
-/
namespace RpcGateway

/-! ## Lists without repeats -/

theorem flatMap_filter {α β : Type} (p : α → Bool) (f : α → List β) (xs : List α) :
    (xs.filter p).flatMap f = xs.flatMap fun x => if p x then f x else [] := by
  induction xs with
  | nil => rfl
  | cons x xs ih =>
    rw [List.filter_cons, List.flatMap_cons, ← ih]
    split
    · rfl
    · rfl

section Distinct
variable {α β : Type} [DecidableEq α]

theorem nodup_eraseDups (xs : List α) : xs.eraseDups.Nodup := by
  match xs with
  | [] => exact List.nodup_nil
  | x :: xs =>
    rw [List.eraseDups_cons, List.nodup_cons, List.mem_eraseDups, List.mem_filter]
    exact ⟨by simp, nodup_eraseDups (xs.filter fun y => !y == x)⟩
termination_by xs.length
decreasing_by exact Nat.lt_succ_of_le (List.length_filter_le _ _)

theorem eraseDups_filter (p : α → Bool) (xs : List α) :
    (xs.filter p).eraseDups = xs.eraseDups.filter p := by
  match xs with
  | [] => rfl
  | x :: xs =>
    have ih := eraseDups_filter p (xs.filter fun y => !y == x)
    rw [List.filter_comm] at ih
    rw [List.eraseDups_cons, List.filter_cons, List.filter_cons, ← ih]
    split
    · rw [List.eraseDups_cons]
    · next hx =>
      -- What passes the filter is not the element that does not.
      have hother : (xs.filter p).filter (fun y => !y == x) = xs.filter p := by
        rw [List.filter_eq_self]
        intro y hy
        have hne : y ≠ x := by
          rintro rfl
          exact hx (List.mem_filter.mp hy).2
        simp [hne]
      rw [hother]
termination_by xs.length
decreasing_by exact Nat.lt_succ_of_le (List.length_filter_le _ _)

theorem eraseDups_map [DecidableEq β] {f : α → β} (hf : Function.Injective f) (xs : List α) :
    (xs.map f).eraseDups = xs.eraseDups.map f := by
  match xs with
  | [] => rfl
  | x :: xs =>
    have hsame : (fun y => !f y == f x) = fun y => !y == x := by
      funext y
      rw [Bool.eq_iff_iff]
      simp [hf.eq_iff]
    rw [List.map_cons, List.eraseDups_cons, List.eraseDups_cons, List.map_cons, List.filter_map,
      Function.comp_def, hsame, eraseDups_map hf]
termination_by xs.length
decreasing_by exact Nat.lt_succ_of_le (List.length_filter_le _ _)

/-- In a list without repeats of which one element gives anything, that is all it gives. -/
theorem flatMap_of_one {xs : List α} (hxs : xs.Nodup) {g : α → List β} {a : α}
    (hother : ∀ x ∈ xs, x ≠ a → g x = []) (habsent : a ∉ xs → g a = []) :
    xs.flatMap g = g a := by
  induction xs with
  | nil => exact (habsent List.not_mem_nil).symm
  | cons x xs ih =>
    obtain ⟨hx, hxs⟩ := List.nodup_cons.mp hxs
    obtain ⟨hfirst, hrest⟩ := List.forall_mem_cons.mp hother
    rw [List.flatMap_cons]
    by_cases hxa : x = a
    · subst hxa
      have hnone : xs.flatMap g = [] := by
        rw [List.flatMap_eq_nil_iff]
        intro y hy
        exact hrest y hy fun hyx => hx (hyx ▸ hy)
      rw [hnone, List.append_nil]
    · rw [hfirst hxa, List.nil_append]
      exact ih hxs hrest fun ha => habsent (List.not_mem_cons_of_ne_of_not_mem (Ne.symm hxa) ha)

/-- If two elements give anything, the one that stands first gives first. -/
theorem flatMap_of_two {xs : List α} (hxs : xs.Nodup) {g : α → List β} {a b : α} (hab : a ≠ b)
    (hother : ∀ x ∈ xs, x ≠ a → x ≠ b → g x = []) (ha : a ∉ xs → g a = [])
    (hb : b ∉ xs → g b = []) :
    xs.flatMap g = if xs.idxOf a < xs.idxOf b then g a ++ g b else g b ++ g a := by
  induction xs with
  | nil => simp [ha List.not_mem_nil, hb List.not_mem_nil]
  | cons x xs ih =>
    obtain ⟨hx, hxs⟩ := List.nodup_cons.mp hxs
    obtain ⟨hfirst, hrest⟩ := List.forall_mem_cons.mp hother
    rw [List.flatMap_cons]
    by_cases hxa : x = a
    · subst hxa
      have htail : xs.flatMap g = g b :=
        flatMap_of_one hxs (fun y hy hyb => hrest y hy (fun hyx => hx (hyx ▸ hy)) hyb)
          fun h => hb (List.not_mem_cons_of_ne_of_not_mem (Ne.symm hab) h)
      rw [htail, List.idxOf_cons_self, List.idxOf_cons_ne xs hab, if_pos (Nat.succ_pos _)]
    by_cases hxb : x = b
    · subst hxb
      have htail : xs.flatMap g = g a :=
        flatMap_of_one hxs (fun y hy hya => hrest y hy hya fun hyx => hx (hyx ▸ hy))
          fun h => ha (List.not_mem_cons_of_ne_of_not_mem hab h)
      rw [htail, List.idxOf_cons_self, if_neg (Nat.not_lt_zero _)]
    · rw [hfirst hxa hxb, List.nil_append, List.idxOf_cons_ne xs hxa, List.idxOf_cons_ne xs hxb,
        ih hxs hrest (fun h => ha (List.not_mem_cons_of_ne_of_not_mem (Ne.symm hxa) h))
          (fun h => hb (List.not_mem_cons_of_ne_of_not_mem (Ne.symm hxb) h))]
      simp only [Nat.succ_lt_succ_iff]

end Distinct

namespace Http.Headers

/-! ## Groups -/

theorem nodup_names (h : Headers) : h.names.Nodup := nodup_eraseDups _

theorem mem_names_iff {h : Headers} {name : String} : name ∈ h.names ↔ h.getAll name ≠ [] := by
  rw [names, List.mem_eraseDups, List.mem_map, getAll, ne_eq, List.filterMap_eq_nil_iff]
  simp

theorem getAll_of_not_mem_names {h : Headers} {name : String} (hn : name ∉ h.names) :
    h.getAll name = [] := by
  by_contra hne
  exact hn (mem_names_iff.mpr hne)

/-- No header name is empty. -/
theorem WellFormed.ne_empty_of_mem_names {h : Headers} (hh : h.WellFormed) {name : String}
    (hn : name ∈ h.names) : name ≠ "" := by
  rw [names, List.mem_eraseDups, List.mem_map] at hn
  obtain ⟨e, he, rfl⟩ := hn
  intro hempty
  have hname := (hh.named e he).1
  rw [hempty] at hname
  exact absurd hname (by decide)

theorem getAll_flatMap {α : Type} (xs : List α) (f : α → List (String × Bytes)) (name : String) :
    getAll ⟨xs.flatMap f⟩ name = xs.flatMap fun x => getAll ⟨f x⟩ name := List.filterMap_flatMap

/-- The values of a filtered list of entries. -/
theorem getAll_filter (p : String → Bytes → Bool) (es : List (String × Bytes)) (name : String) :
    getAll ⟨es.filter fun e => p e.1 e.2⟩ name = (getAll ⟨es⟩ name).filter (p name) := by
  induction es with
  | nil => rfl
  | cons e es ih =>
    obtain ⟨k, v⟩ := e
    rw [getAll_cons, List.filter_append, ← ih, List.filter_cons]
    by_cases hk : k = name
    · subst hk
      by_cases hp : p k v <;> simp [hp, getAll_cons]
    · by_cases hp : p k v <;> simp [hp, hk, getAll_cons]

/-- Entries under one name are all values of that name. -/
theorem getAll_map_same (vs : List Bytes) (k name : String) :
    getAll ⟨vs.map fun v => (k, v)⟩ name = if k = name then vs else [] := by
  unfold getAll
  rw [List.filterMap_map]
  by_cases hk : k = name <;> simp [hk]

/-- Grouping neither loses nor reorders the values of a name. -/
theorem getAll_grouped (h : Headers) (name : String) : getAll ⟨h.grouped⟩ name = h.getAll name := by
  rw [grouped, getAll_flatMap]
  simp only [getAll_map_same]
  rw [flatMap_of_one h.nodup_names (a := name)]
  · rw [if_pos rfl]
  · intro k _ hk
    rw [if_neg hk]
  · intro hn
    rw [if_pos rfl, getAll_of_not_mem_names hn]

end Http.Headers

end RpcGateway
