import Mathlib.Data.List.Dedup
import RpcGateway.Table

/-!
Lists of steps that may fail, and tables filled from lists. A later insertion under one name hides
an earlier one, so all elements are found exactly if their names differ.
-/
namespace RpcGateway

section Pairs
variable {α β : Type} {R : α → β → Prop} {xs : List α} {ys : List β}

/-- In two lists that correspond, each element has its counterpart. -/
theorem exists_left_of_forall₂ (h : List.Forall₂ R xs ys) {y : β} (hy : y ∈ ys) :
    ∃ x ∈ xs, R x y := by
  induction h with
  | nil => cases hy
  | cons hr _ ih =>
    rcases List.mem_cons.mp hy with rfl | hy
    · exact ⟨_, List.mem_cons_self, hr⟩
    · obtain ⟨x, hx, hr⟩ := ih hy
      exact ⟨x, List.mem_cons_of_mem _ hx, hr⟩

theorem exists_right_of_forall₂ (h : List.Forall₂ R xs ys) {x : α} (hx : x ∈ xs) :
    ∃ y ∈ ys, R x y := by
  obtain ⟨y, hy, hr⟩ := exists_left_of_forall₂ h.flip hx
  exact ⟨y, hy, hr⟩

end Pairs

section Steps
variable {ε α β : Type}

/-- Two steps in a row succeed only if both do. -/
theorem exists_of_bind_eq_ok {x : Except ε α} {f : α → Except ε β} {b : β}
    (h : x >>= f = .ok b) : ∃ a, x = .ok a ∧ f a = .ok b := by
  cases x with
  | error e => cases h
  | ok a => exact ⟨a, rfl, h⟩

theorem exists_of_map_eq_ok {x : Except ε α} {f : α → β} {b : β} (h : x.map f = .ok b) :
    ∃ a, x = .ok a ∧ f a = b := by
  cases x with
  | error e => cases h
  | ok a => exact ⟨a, rfl, Except.ok.inj h⟩

/-- An error of two steps in a row is an error of one of them. -/
theorem error_of_bind_eq_error {x : Except ε α} {f : α → Except ε β} {e : ε}
    (h : x >>= f = .error e) : x = .error e ∨ ∃ a, x = .ok a ∧ f a = .error e := by
  cases x with
  | error e' =>
    cases h
    exact .inl rfl
  | ok a => exact .inr ⟨a, rfl, h⟩

theorem bind_ne_error {x : Except ε α} {f : α → Except ε β} {e : ε} (hx : x ≠ .error e)
    (hf : ∀ a, f a ≠ .error e) : x >>= f ≠ .error e := by
  intro h
  rcases error_of_bind_eq_error h with he | ⟨a, -, he⟩
  · exact hx he
  · exact hf a he

theorem map_eq_error_iff {x : Except ε α} {f : α → β} {e : ε} :
    x.map f = .error e ↔ x = .error e := by
  cases x with
  | error e' => simp [Except.map]
  | ok a => simp [Except.map]

theorem mapM_ne_error {f : α → Except ε β} {e : ε} (hf : ∀ x, f x ≠ .error e) (xs : List α) :
    xs.mapM f ≠ .error e := by
  induction xs with
  | nil =>
    intro h
    cases h
  | cons x xs ih =>
    rw [List.mapM_cons]
    refine bind_ne_error (hf x) fun first => bind_ne_error ih fun rest => ?_
    intro h
    cases h

theorem mapM_congr {f g : α → Except ε β} {xs : List α} (h : ∀ x ∈ xs, f x = g x) :
    xs.mapM f = xs.mapM g := by
  induction xs with
  | nil => rfl
  | cons x xs ih =>
    obtain ⟨hx, hxs⟩ := List.forall_mem_cons.mp h
    rw [List.mapM_cons, List.mapM_cons, hx, ih hxs]

/-- Steps over a list succeed exactly if each of them does, with the results in order. -/
theorem mapM_eq_ok_iff {f : α → Except ε β} {xs : List α} {ys : List β} :
    xs.mapM f = .ok ys ↔ List.Forall₂ (fun x y => f x = .ok y) xs ys := by
  constructor
  · intro h
    induction xs generalizing ys with
    | nil =>
      cases h
      exact .nil
    | cons x xs ih =>
      rw [List.mapM_cons] at h
      obtain ⟨first, hx, h⟩ := exists_of_bind_eq_ok h
      obtain ⟨rest, hxs, h⟩ := exists_of_bind_eq_ok h
      cases h
      exact .cons hx (ih hxs)
  · intro h
    induction h with
    | nil => rfl
    | cons hx _ ih =>
      rw [List.mapM_cons, hx, ih]
      rfl

theorem exists_mem_of_mapM_eq_ok {f : α → Except ε β} {xs : List α} {ys : List β}
    (h : xs.mapM f = .ok ys) {y : β} (hy : y ∈ ys) : ∃ x ∈ xs, f x = .ok y :=
  exists_left_of_forall₂ (mapM_eq_ok_iff.mp h) hy

theorem exists_mapM_eq_ok {f : α → Except ε β} {xs : List α} (h : ∀ x ∈ xs, ∃ y, f x = .ok y) :
    ∃ ys, xs.mapM f = .ok ys := by
  induction xs with
  | nil => exact ⟨[], rfl⟩
  | cons x xs ih =>
    obtain ⟨⟨y, hx⟩, hxs⟩ := List.forall_mem_cons.mp h
    obtain ⟨ys, hys⟩ := ih hxs
    refine ⟨y :: ys, ?_⟩
    rw [List.mapM_cons, hx, hys]
    rfl

theorem exists_of_mem_of_mapM_eq_ok {f : α → Except ε β} {xs : List α} {ys : List β}
    (h : xs.mapM f = .ok ys) {x : α} (hx : x ∈ xs) : ∃ y, f x = .ok y := by
  obtain ⟨y, -, hy⟩ := exists_right_of_forall₂ (mapM_eq_ok_iff.mp h) hx
  exact ⟨y, hy⟩

/-- The first element that fails is the failure of the list. -/
theorem mapM_eq_error_of_first {f : α → Except ε β} {before after : List α} {x : α} {e : ε}
    (h : ∀ x' ∈ before, ∃ y, f x' = .ok y) (hx : f x = .error e) :
    (before ++ x :: after).mapM f = .error e := by
  obtain ⟨ys, hys⟩ := exists_mapM_eq_ok h
  rw [List.mapM_append, hys, List.mapM_cons, hx]
  rfl

/-- A list fails exactly with its first element that fails. -/
theorem mapM_eq_error_iff {f : α → Except ε β} {xs : List α} {e : ε} :
    xs.mapM f = .error e ↔ ∃ before x after, xs = before ++ x :: after ∧
      (∀ x' ∈ before, ∃ y, f x' = .ok y) ∧ f x = .error e := by
  constructor
  · intro h
    induction xs with
    | nil => cases h
    | cons x xs ih =>
      rw [List.mapM_cons] at h
      rcases error_of_bind_eq_error h with hx | ⟨y, hx, h⟩
      · exact ⟨[], x, xs, rfl, List.forall_mem_nil _, hx⟩
      · rcases error_of_bind_eq_error h with hxs | ⟨ys, -, h⟩
        · obtain ⟨before, x', after, rfl, hbefore, he⟩ := ih hxs
          exact ⟨x :: before, x', after, rfl, List.forall_mem_cons.mpr ⟨⟨y, hx⟩, hbefore⟩, he⟩
        · cases h
  · rintro ⟨before, x, after, rfl, hbefore, he⟩
    exact mapM_eq_error_of_first hbefore he

/-- Steps in a row succeed if each of them does, whatever it starts from. -/
theorem exists_foldlM_eq_ok {f : β → α → Except ε β} {xs : List α}
    (h : ∀ x ∈ xs, ∀ b, ∃ b', f b x = .ok b') (b : β) : ∃ b', xs.foldlM f b = .ok b' := by
  induction xs generalizing b with
  | nil => exact ⟨b, rfl⟩
  | cons x xs ih =>
    obtain ⟨hx, hxs⟩ := List.forall_mem_cons.mp h
    obtain ⟨next, hnext⟩ := hx b
    obtain ⟨last, hlast⟩ := ih hxs next
    refine ⟨last, ?_⟩
    rw [List.foldlM_cons, hnext]
    exact hlast

/-- A list is its own result exactly if each element is its own. -/
theorem mapM_eq_self_iff {f : α → Except ε α} {xs : List α} :
    xs.mapM f = .ok xs ↔ ∀ x ∈ xs, f x = .ok x := by
  rw [mapM_eq_ok_iff, List.forall₂_same]

/-- Where each result shows what its element shows, the results show what the list shows. -/
theorem map_eq_map_of_mapM_eq_ok {γ : Type} {f : α → Except ε β} {g : β → γ} {k : α → γ}
    (hg : ∀ x y, f x = .ok y → g y = k x) {xs : List α} {ys : List β} (h : xs.mapM f = .ok ys) :
    ys.map g = xs.map k := by
  have hall := mapM_eq_ok_iff.mp h
  clear h
  induction hall with
  | nil => rfl
  | cons hx _ ih => rw [List.map_cons, List.map_cons, hg _ _ hx, ih]

/-- Where each result shows its element, the results show the list. -/
theorem map_of_mapM_eq_ok {f : α → Except ε β} {g : β → α} (hg : ∀ x y, f x = .ok y → g y = x)
    {xs : List α} {ys : List β} (h : xs.mapM f = .ok ys) : ys.map g = xs :=
  (map_eq_map_of_mapM_eq_ok hg h).trans (List.map_id xs)

end Steps

section First
variable {α β : Type} {f : α → Option β} {before : α → α → Prop} {xs : List α}

/-- In a list in order, the first element with a result is the one before which none has any. -/
theorem findSome?_eq_some_iff_of_pairwise (hxs : xs.Pairwise before)
    (hasymm : ∀ x y, before x y → ¬ before y x) {b : β} :
    xs.findSome? f = some b ↔
      ∃ x ∈ xs, f x = some b ∧ ∀ y ∈ xs, before y x → f y = none := by
  have hirrefl : ∀ x, ¬ before x x := fun x h => hasymm x x h h
  rw [List.findSome?_eq_some_iff]
  constructor
  · rintro ⟨front, x, rest, rfl, hx, hnone⟩
    rw [List.pairwise_append, List.pairwise_cons] at hxs
    obtain ⟨-, ⟨hrest, -⟩, -⟩ := hxs
    refine ⟨x, List.mem_append_right _ List.mem_cons_self, hx, ?_⟩
    intro y hy hyx
    rcases List.mem_append.mp hy with hy | hy
    · exact hnone y hy
    · rcases List.mem_cons.mp hy with rfl | hy
      · exact absurd hyx (hirrefl y)
      · exact absurd (hrest y hy) (hasymm y x hyx)
  · rintro ⟨x, hx, hfx, hnone⟩
    obtain ⟨front, rest, rfl⟩ := List.append_of_mem hx
    rw [List.pairwise_append] at hxs
    obtain ⟨-, -, hfront⟩ := hxs
    refine ⟨front, x, rest, rfl, hfx, fun y hy => ?_⟩
    exact hnone y (List.mem_append_left _ hy) (hfront y hy x List.mem_cons_self)

end First

/-- An element is the last in a list of those with one name. -/
def LastUnder {β : Type} (key : β → String) (xs : List β) (name : String) (x : β) : Prop :=
  ∃ front rest, xs = front ++ x :: rest ∧ key x = name ∧ name ∉ rest.map key

theorem exists_lastUnder {β : Type} {key : β → String} {xs : List β} {name : String}
    (h : name ∈ xs.map key) : ∃ x, LastUnder key xs name x := by
  induction xs with
  | nil => cases h
  | cons x xs ih =>
    by_cases hxs : name ∈ xs.map key
    · obtain ⟨y, front, rest, rfl, hlast⟩ := ih hxs
      exact ⟨y, x :: front, rest, rfl, hlast⟩
    · have hname : name = key x := (List.mem_cons.mp h).resolve_right hxs
      exact ⟨x, [], xs, rfl, hname.symm, hxs⟩

namespace Table
variable {α β : Type} {key : β → String} {value : β → α}

/-- A table after one insertion for each element of a list. -/
def fill (key : β → String) (value : β → α) (t : Table α) (xs : List β) : Table α :=
  xs.foldl (fun t x => t.insert (key x) (value x)) t

theorem isSome_get?_insert {t : Table α} {name : String} (other : String) (v : α)
    (h : (t.get? name).isSome) : ((t.insert other v).get? name).isSome := by
  rw [get?_insert]
  split
  · rfl
  · exact h

theorem ofList_eq_fill (name : α → String) (xs : List α) : ofList name xs = empty.fill name id xs :=
  rfl

@[simp] theorem fill_cons (t : Table α) (x : β) (xs : List β) :
    t.fill key value (x :: xs) = (t.insert (key x) (value x)).fill key value xs := rfl

theorem fill_append (t : Table α) (xs ys : List β) :
    t.fill key value (xs ++ ys) = (t.fill key value xs).fill key value ys := List.foldl_append

theorem mem_or_get?_of_fill {t : Table α} {xs : List β} {name : String} {v : α}
    (h : (t.fill key value xs).get? name = some v) :
    (∃ x ∈ xs, key x = name ∧ value x = v) ∨ t.get? name = some v := by
  induction xs generalizing t with
  | nil => exact .inr h
  | cons x xs ih =>
    rcases ih h with ⟨y, hy, hk⟩ | hg
    · exact .inl ⟨y, List.mem_cons_of_mem _ hy, hk⟩
    · rw [get?_insert] at hg
      split at hg
      · next hn => exact .inl ⟨x, List.mem_cons_self, hn.symm, Option.some.inj hg⟩
      · exact .inr hg

/-- What is found in a table of a list is in the list, and was put there under its own name. -/
theorem mem_of_ofList_get? {name : α → String} {xs : List α} {k : String} {x : α}
    (h : (ofList name xs).get? k = some x) : x ∈ xs ∧ name x = k := by
  rw [ofList_eq_fill] at h
  rcases mem_or_get?_of_fill h with ⟨y, hy, hname, rfl⟩ | h
  · exact ⟨hy, hname⟩
  · cases h

/-- Filling keeps all names, and adds those of the elements. -/
theorem isSome_get?_fill {t : Table α} {xs : List β} {name : String} :
    ((t.fill key value xs).get? name).isSome ↔
      name ∈ xs.map key ∨ (t.get? name).isSome := by
  induction xs generalizing t with
  | nil => simp [fill]
  | cons x xs ih =>
    rw [fill_cons, ih, get?_insert, List.map_cons, List.mem_cons]
    by_cases hn : name = key x <;> simp [hn]

theorem get?_fill_of_not_mem {t : Table α} {xs : List β} {name : String}
    (h : name ∉ xs.map key) : (t.fill key value xs).get? name = t.get? name := by
  induction xs generalizing t with
  | nil => rfl
  | cons x xs ih =>
    rw [List.map_cons, List.mem_cons, not_or] at h
    rw [fill_cons, ih h.2, get?_insert_of_ne _ _ h.1]

/-- What is found under a name after filling depends on what was found there before, if on that. -/
theorem get?_fill_congr {t u : Table α} {name : String} (h : t.get? name = u.get? name)
    (xs : List β) : (t.fill key value xs).get? name = (u.fill key value xs).get? name := by
  induction xs generalizing t u with
  | nil => exact h
  | cons x xs ih =>
    apply ih
    rw [get?_insert, get?_insert, h]

/-- Under the name of an element, what was there before makes no difference. -/
theorem get?_fill_of_mem {t : Table α} (u : Table α) {xs : List β} {name : String}
    (h : name ∈ xs.map key) :
    (t.fill key value xs).get? name = (u.fill key value xs).get? name := by
  induction xs generalizing t u with
  | nil => cases h
  | cons x xs ih =>
    rw [fill_cons, fill_cons]
    by_cases hx : name ∈ xs.map key
    · exact ih _ hx
    · have hname : name = key x := (List.mem_cons.mp h).resolve_right hx
      rw [get?_fill_of_not_mem hx, get?_fill_of_not_mem hx, hname, get?_insert_self,
        get?_insert_self]

/-- Elements that share no names may be put in in either order. -/
theorem get?_fill_comm (t : Table α) {xs ys : List β}
    (h : List.Disjoint (xs.map key) (ys.map key)) (name : String) :
    ((t.fill key value xs).fill key value ys).get? name =
      ((t.fill key value ys).fill key value xs).get? name := by
  by_cases hy : name ∈ ys.map key
  · have hx : name ∉ xs.map key := fun hx => h hx hy
    rw [get?_fill_of_not_mem hx, get?_fill_congr (get?_fill_of_not_mem hx)]
  · rw [get?_fill_of_not_mem hy]
    exact (get?_fill_congr (get?_fill_of_not_mem hy) xs).symm

theorem fill_map {γ : Type} (t : Table α) (key : γ → String) (value : γ → α) (f : β → γ)
    (xs : List β) :
    t.fill key value (xs.map f) = t.fill (fun x => key (f x)) (fun x => value (f x)) xs :=
  List.foldl_map

/-- Of elements with one name the last is found. -/
theorem get?_fill_of_lastUnder {t : Table α} {xs : List β} {name : String} {x : β}
    (h : LastUnder key xs name x) : (t.fill key value xs).get? name = some (value x) := by
  obtain ⟨front, rest, rfl, rfl, hrest⟩ := h
  rw [fill_append, fill_cons, get?_fill_of_not_mem hrest, get?_insert_self]

/-- A table that has the last element of each name in a list, and otherwise what another has. -/
structure StoresLast (key : β → String) (value : β → α) (xs : List β) (t u : Table α) : Prop where
  listed : ∀ name ∈ xs.map key, ∃ x, LastUnder key xs name x ∧ u.get? name = some (value x)
  other : ∀ name ∉ xs.map key, u.get? name = t.get? name

theorem storesLast_fill (t : Table α) (xs : List β) :
    StoresLast key value xs t (t.fill key value xs) where
  listed := by
    intro name h
    obtain ⟨x, hx⟩ := exists_lastUnder h
    exact ⟨x, hx, get?_fill_of_lastUnder hx⟩
  other := fun _ h => get?_fill_of_not_mem h

theorem get?_fill_map {γ : Type} (g : α → γ) (xs : List β) (name : String) :
    ((empty : Table γ).fill key (fun x => g (value x)) xs).get? name =
      ((empty.fill key value xs).get? name).map g := by
  -- The two tables start out empty, but the induction needs any two that agree so far.
  have hfill : ∀ (t : Table α) (t' : Table γ), (∀ k, t'.get? k = (t.get? k).map g) →
      (t'.fill key (fun x => g (value x)) xs).get? name =
        ((t.fill key value xs).get? name).map g := by
    induction xs with
    | nil => exact fun _ _ h => h name
    | cons x xs ih =>
      intro t t' h
      apply ih
      intro k
      rw [get?_insert, get?_insert, h k]
      split <;> rfl
  exact hfill empty empty fun _ => rfl

/-- An element is found under its name if no other element has that name. -/
theorem get?_fill_of_nodup {t : Table α} {xs : List β} (h : (xs.map key).Nodup) {x : β}
    (hx : x ∈ xs) : (t.fill key value xs).get? (key x) = some (value x) := by
  induction xs generalizing t with
  | nil => cases hx
  | cons y ys ih =>
    rw [List.map_cons, List.nodup_cons] at h
    rcases List.mem_cons.mp hx with rfl | hx
    · rw [fill_cons, get?_fill_of_not_mem h.1, get?_insert_self]
    · exact ih h.2 hx

theorem nodup_names_insert {t : Table α} (name : String) (v : α) (h : t.names.Nodup) :
    (t.insert name v).names.Nodup := by
  rw [names_insert]
  split
  · exact h
  · next hn =>
    rw [← List.concat_eq_append]
    exact h.concat hn

theorem nodup_names_fill {t : Table α} (xs : List β) (h : t.names.Nodup) :
    (t.fill key value xs).names.Nodup := by
  induction xs generalizing t with
  | nil => exact h
  | cons x xs ih => exact ih (nodup_names_insert _ _ h)

/-- An entry is found under its name if no other entry has that name. -/
theorem get?_of_mem_entries {t : Table α} (h : t.names.Nodup) {name : String} {v : α}
    (hmem : (name, v) ∈ t.entries) : t.get? name = some v := by
  obtain ⟨es⟩ := t
  induction es with
  | nil => cases hmem
  | cons e es ih =>
    obtain ⟨k, w⟩ := e
    have hn : k ∉ es.map Prod.fst ∧ (es.map Prod.fst).Nodup := List.nodup_cons.mp h
    rw [get?, lookup_cons]
    rcases List.mem_cons.mp hmem with heq | hmem
    · cases heq
      exact if_pos rfl
    · have hne : name ≠ k := fun he => hn.1 (he ▸ List.mem_map_of_mem hmem)
      rw [if_neg hne]
      exact ih hn.2 hmem

/-- There are as many names as elements exactly if the names of the elements differ. -/
theorem length_names_fill {xs : List β} :
    ((empty : Table α).fill key value xs).names.length = xs.length ↔ (xs.map key).Nodup := by
  have hempty : (empty : Table α).names.Nodup := List.nodup_nil
  have hperm : (((empty : Table α).fill key value xs).names).Perm (xs.map key).dedup := by
    rw [List.perm_ext_iff_of_nodup (nodup_names_fill xs hempty) (List.nodup_dedup _)]
    intro name
    rw [mem_names_iff, isSome_get?_fill, List.mem_dedup]
    simp
  rw [hperm.length_eq]
  constructor
  · intro hl
    have he : (xs.map key).dedup = xs.map key :=
      (List.dedup_sublist _).eq_of_length (by rw [hl, List.length_map])
    exact List.dedup_eq_self.mp he
  · intro hnd
    rw [hnd.dedup, List.length_map]

/-! ## Filling twice -/

theorem place_place_self (name : String) (v w : α) (es : List (String × α)) :
    place name w (place name v es) = place name w es := by
  induction es with
  | nil => simp [place]
  | cons e es ih =>
    obtain ⟨k, u⟩ := e
    by_cases hk : k = name <;> simp [place, hk, ih]

theorem place_comm {name other : String} (hne : name ≠ other) (v w : α) {es : List (String × α)}
    (hmem : name ∈ es.map Prod.fst) :
    place other w (place name v es) = place name v (place other w es) := by
  induction es with
  | nil => cases hmem
  | cons e es ih =>
    obtain ⟨k, u⟩ := e
    by_cases hk : k = name
    · subst hk
      simp [place, hne]
    · have htail : name ∈ es.map Prod.fst := (List.mem_cons.mp hmem).resolve_left (Ne.symm hk)
      by_cases ho : k = other
      · subst ho
        simp [place, hk]
      · simp [place, hk, ho, ih htail]

theorem insert_insert_self (t : Table α) (name : String) (v w : α) :
    (t.insert name v).insert name w = t.insert name w :=
  congrArg Table.mk (place_place_self name v w t.entries)

theorem insert_comm_of_mem {t : Table α} {name other : String} (hne : name ≠ other)
    (hmem : name ∈ t.names) (v w : α) :
    (t.insert name v).insert other w = (t.insert other w).insert name v :=
  congrArg Table.mk (place_comm hne v w hmem)

theorem mem_names_insert {t : Table α} {name : String} (h : name ∈ t.names) (other : String)
    (v : α) : name ∈ (t.insert other v).names := by
  rw [mem_names_iff] at h ⊢
  exact isSome_get?_insert other v h

/-- An insertion under the name of an element is overwritten when the table is filled. -/
theorem fill_insert_of_mem {t : Table α} {xs : List β} {name : String} (hmem : name ∈ t.names)
    (hx : name ∈ xs.map key) (v : α) :
    (t.insert name v).fill key value xs = t.fill key value xs := by
  induction xs generalizing t with
  | nil => cases hx
  | cons x xs ih =>
    rw [fill_cons, fill_cons]
    by_cases hname : name = key x
    · rw [hname, insert_insert_self]
    · have htail : name ∈ xs.map key := (List.mem_cons.mp hx).resolve_left hname
      rw [insert_comm_of_mem hname hmem, ih (mem_names_insert hmem _ _) htail]

/-- Filling a table once more with the same elements changes nothing, not even the order of its
entries: each name keeps its place, and the last element of a name wins again. -/
theorem fill_fill_self (t : Table α) (xs : List β) :
    (t.fill key value xs).fill key value xs = t.fill key value xs := by
  induction xs generalizing t with
  | nil => rfl
  | cons x xs ih =>
    rw [fill_cons, fill_cons]
    by_cases hx : key x ∈ xs.map key
    · have hmem : key x ∈ ((t.insert (key x) (value x)).fill key value xs).names := by
        rw [mem_names_iff, isSome_get?_fill]
        exact .inl hx
      rw [fill_insert_of_mem hmem hx, ih]
    · have hget : ((t.insert (key x) (value x)).fill key value xs).get? (key x) =
          some (value x) := by
        rw [get?_fill_of_not_mem hx, get?_insert_self]
      rw [insert_of_get? hget, ih]

end Table

end RpcGateway
