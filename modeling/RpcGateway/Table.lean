/-!
Finite maps from names. Entries keep the order of their first insertion, and a second insertion
under one name replaces the value in place, so repeating an insertion changes nothing.
-/
namespace RpcGateway

structure Table (α : Type) where
  entries : List (String × α) := []

namespace Table
variable {α : Type}

/-- Entries with `value` under `name`, in the place of an earlier one if there is one. -/
def place (name : String) (value : α) : List (String × α) → List (String × α)
  | [] => [(name, value)]
  | (k, v) :: rest => if k = name then (name, value) :: rest else (k, v) :: place name value rest

def empty : Table α := ⟨[]⟩

instance : Inhabited (Table α) := ⟨empty⟩

def get? (t : Table α) (name : String) : Option α := t.entries.lookup name

def insert (t : Table α) (name : String) (value : α) : Table α := ⟨place name value t.entries⟩

/-- Values under their own names; of those with one name the last stays. -/
def ofList (name : α → String) (xs : List α) : Table α :=
  xs.foldl (fun t x => t.insert (name x) x) empty

def contains (t : Table α) (name : String) : Bool := (t.get? name).isSome

def names (t : Table α) : List String := t.entries.map Prod.fst

@[simp] theorem get?_empty (name : String) : (empty : Table α).get? name = none := rfl

theorem lookup_cons (name k : String) (v : α) (es : List (String × α)) :
    List.lookup name ((k, v) :: es) = if name = k then some v else es.lookup name := by
  rw [List.lookup_cons]
  by_cases h : name = k
  · simp [h]
  · have hb : (name == k) = false := by simpa using h
    simp [hb, h]

theorem lookup_place (name other : String) (value : α) (es : List (String × α)) :
    (place name value es).lookup other = if other = name then some value else es.lookup other := by
  induction es with
  | nil => rw [place, lookup_cons]
  | cons e es ih =>
    obtain ⟨k, v⟩ := e
    rw [place]
    split
    · next hk => subst hk; simp only [lookup_cons]; split <;> rfl
    · next hk =>
      simp only [lookup_cons, ih]
      by_cases h : other = k
      · subst h; simp [hk]
      · simp [h]

theorem get?_insert (t : Table α) (name other : String) (value : α) :
    (t.insert name value).get? other = if other = name then some value else t.get? other :=
  lookup_place name other value t.entries

@[simp] theorem get?_insert_self (t : Table α) (name : String) (value : α) :
    (t.insert name value).get? name = some value := by
  simp [get?_insert]

theorem get?_insert_of_ne (t : Table α) {name other : String} (value : α) (h : other ≠ name) :
    (t.insert name value).get? other = t.get? other := by
  simp [get?_insert, h]

theorem place_of_lookup {name : String} {value : α} {es : List (String × α)}
    (h : es.lookup name = some value) : place name value es = es := by
  induction es with
  | nil => simp at h
  | cons e es ih =>
    obtain ⟨k, v⟩ := e
    rw [lookup_cons] at h
    by_cases hk : k = name
    · subst hk
      simp_all [place]
    · rw [if_neg fun h => hk h.symm] at h
      simp [place, hk, ih h]

/-- Inserting what is already there changes nothing, not even the order of the entries. -/
theorem insert_of_get? {t : Table α} {name : String} {value : α} (h : t.get? name = some value) :
    t.insert name value = t := by
  cases t
  simp [insert, place_of_lookup h]

theorem names_insert (t : Table α) (name : String) (value : α) :
    (t.insert name value).names = if name ∈ t.names then t.names else t.names ++ [name] := by
  obtain ⟨es⟩ := t
  simp only [insert, names]
  induction es with
  | nil => simp [place]
  | cons e es ih =>
    obtain ⟨k, v⟩ := e
    by_cases hk : k = name
    · simp [place, hk]
    · have hk' : ¬ name = k := fun h => hk h.symm
      by_cases hm : name ∈ es.map Prod.fst <;> simp_all [place]

theorem mem_names_iff (t : Table α) (name : String) : name ∈ t.names ↔ (t.get? name).isSome := by
  obtain ⟨es⟩ := t
  simp only [names, get?]
  induction es with
  | nil => simp
  | cons e es ih =>
    obtain ⟨k, v⟩ := e
    rw [lookup_cons, List.map_cons, List.mem_cons]
    by_cases h : name = k
    · simp [h]
    · simp only [h, false_or, ih, if_false]

end Table

end RpcGateway
