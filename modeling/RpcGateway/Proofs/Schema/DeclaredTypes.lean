import RpcGateway.Proofs.Schema.Histories
import RpcGateway.Proofs.Schema.Entries

/-!
The types that a file declares, each with its place among the declarations. Registering a file lists
its messages in pre-order and each of its enums once, and stores under every listed name the last
type of that name, and nothing else.
-/
namespace RpcGateway.Schema

/-! ## Names -/

/-- A dot, the package with another one if there is a package, and components with dots between
them. -/
def absoluteName (package : String) (components : List String) : String :=
  "." ++ (if package.isEmpty then "" else package ++ ".") ++ ".".intercalate components

theorem join_dotted {components : List String} (h : components ≠ []) :
    String.join (components.map ("." ++ ·)) = "." ++ ".".intercalate components := by
  induction components with
  | nil => exact absurd rfl h
  | cons first rest ih =>
    rw [List.map_cons, String.join_cons]
    by_cases hr : rest = []
    · subst hr
      simp
    · rw [ih hr, String.intercalate_cons_of_ne_nil hr, String.append_assoc, String.append_assoc]

theorem qualifiedName_eq (package : String) (outers : List String) (name : String) :
    qualifiedName package outers name = absoluteName package (outers ++ [name]) := by
  have hne : outers ++ [name] ≠ [] := by simp
  unfold qualifiedName absoluteName
  split
  · rw [join_dotted hne, String.append_empty]
  · show String.join (((package :: outers) ++ [name]).map ("." ++ ·)) = _
    rw [List.cons_append, join_dotted (List.cons_ne_nil _ _),
      String.intercalate_cons_of_ne_nil hne]
    simp only [String.append_assoc]

/-! ## Messages and their places -/

/-- A message with its place: the index in each list of declarations on the way to it, and the names
of the messages around it, outermost first. -/
structure Spot where
  position : List Nat
  outers : List String
  decl : MessageDecl

namespace Spot

/-- The place seen from outside of a message. -/
def under (index : Nat) (name : String) (s : Spot) : Spot :=
  ⟨index :: s.position, name :: s.outers, s.decl⟩

/-- The index among the siblings. -/
def index (s : Spot) : Nat := s.position.getLastD 0

def fullName (package : String) (s : Spot) : String :=
  absoluteName package (s.outers ++ [s.decl.name])

def message (file package : String) (s : Spot) : Message :=
  .ofDecl file package s.outers s.index s.decl

/-- In pre-order: what encloses or precedes a message comes before it. -/
def Before (s t : Spot) : Prop := s.position < t.position

end Spot

/-- A list of declarations holds a message at a place, at whatever depth. -/
inductive Declares : List MessageDecl → Spot → Prop
  | outermost {ds : List MessageDecl} {i : Nat} {d : MessageDecl} (h : ds[i]? = some d) :
      Declares ds ⟨[i], [], d⟩
  | nested {ds : List MessageDecl} {i : Nat} {d : MessageDecl} {s : Spot} (h : ds[i]? = some d)
      (hs : Declares d.nested s) : Declares ds (s.under i d.name)

/-- All messages of some declarations in pre-order, each once. -/
structure Preorder (ds : List MessageDecl) (spots : List Spot) : Prop where
  ordered : spots.Pairwise Spot.Before
  complete : ∀ s, s ∈ spots ↔ Declares ds s

mutual

/-- A message at an index and the messages nested in it. -/
def MessageDecl.spots (index : Nat) : MessageDecl → List Spot
  | ⟨name, fields, nested, enums, oneofs, mapEntry, extensions, rules⟩ =>
    ⟨[index], [], ⟨name, fields, nested, enums, oneofs, mapEntry, extensions, rules⟩⟩ ::
      (spotsFrom 0 nested).map (Spot.under index name)

/-- The messages of declarations that start at an index. -/
def spotsFrom (index : Nat) : List MessageDecl → List Spot
  | [] => []
  | d :: ds => d.spots index ++ spotsFrom (index + 1) ds

end

theorem MessageDecl.spots_eq (index : Nat) (d : MessageDecl) :
    d.spots index = ⟨[index], [], d⟩ :: (spotsFrom 0 d.nested).map (Spot.under index d.name) := by
  cases d
  rw [spots]

theorem mem_spotsFrom_iff {ds : List MessageDecl} {k : Nat} {s : Spot} :
    s ∈ spotsFrom k ds ↔ ∃ (i : Nat) (d : MessageDecl), ds[i]? = some d ∧ s ∈ d.spots (k + i) := by
  induction ds generalizing k with
  | nil => simp [spotsFrom]
  | cons d ds ih =>
    rw [spotsFrom, List.mem_append, ih]
    constructor
    · rintro (h | ⟨i, e, he, h⟩)
      · exact ⟨0, d, rfl, h⟩
      · exact ⟨i + 1, e, he, by rwa [Nat.add_right_comm] at h⟩
    · rintro ⟨i, e, he, h⟩
      cases i with
      | zero =>
        cases he
        exact .inl h
      | succ i => exact .inr ⟨i, e, he, by rwa [Nat.add_right_comm]⟩

theorem declares_of_mem_spotsFrom {p : List Nat} {ds : List MessageDecl} {s : Spot}
    (hp : s.position = p) (h : s ∈ spotsFrom 0 ds) : Declares ds s := by
  -- The induction is on the position, which loses its first index with each level.
  induction p generalizing ds s with
  | nil =>
    obtain ⟨i, d, -, h⟩ := mem_spotsFrom_iff.mp h
    rw [d.spots_eq] at h
    rcases List.mem_cons.mp h with rfl | h
    · cases hp
    · obtain ⟨t, -, rfl⟩ := List.mem_map.mp h
      cases hp
  | cons index p ih =>
    obtain ⟨i, d, hd, h⟩ := mem_spotsFrom_iff.mp h
    rw [Nat.zero_add, d.spots_eq] at h
    rcases List.mem_cons.mp h with rfl | h
    · exact .outermost hd
    · obtain ⟨t, ht, rfl⟩ := List.mem_map.mp h
      exact .nested hd (ih (List.cons.inj hp).2 ht)

theorem mem_spotsFrom_zero_iff {ds : List MessageDecl} {s : Spot} :
    s ∈ spotsFrom 0 ds ↔ Declares ds s := by
  refine ⟨declares_of_mem_spotsFrom rfl, fun h => ?_⟩
  induction h with
  | outermost hd =>
    refine mem_spotsFrom_iff.mpr ⟨_, _, hd, ?_⟩
    rw [Nat.zero_add, MessageDecl.spots_eq]
    exact List.mem_cons_self
  | nested hd _ ih =>
    refine mem_spotsFrom_iff.mpr ⟨_, _, hd, ?_⟩
    rw [Nat.zero_add, MessageDecl.spots_eq]
    exact List.mem_cons_of_mem _ (List.mem_map_of_mem ih)

/-! ## Pre-order -/

theorem MessageDecl.head_of_mem_spots {d : MessageDecl} {k : Nat} {s : Spot} (h : s ∈ d.spots k) :
    ∃ p, s.position = k :: p := by
  rw [d.spots_eq] at h
  rcases List.mem_cons.mp h with rfl | h
  · exact ⟨[], rfl⟩
  · obtain ⟨t, -, rfl⟩ := List.mem_map.mp h
    exact ⟨t.position, rfl⟩

theorem head_of_mem_spotsFrom {ds : List MessageDecl} {k : Nat} {s : Spot}
    (h : s ∈ spotsFrom k ds) : ∃ i p, k ≤ i ∧ s.position = i :: p := by
  obtain ⟨i, d, -, h⟩ := mem_spotsFrom_iff.mp h
  obtain ⟨p, hp⟩ := MessageDecl.head_of_mem_spots h
  exact ⟨k + i, p, Nat.le_add_right k i, hp⟩

mutual

theorem MessageDecl.pairwise_spots (k : Nat) (d : MessageDecl) :
    (d.spots k).Pairwise Spot.Before := by
  obtain ⟨name, fields, nested, enums, oneofs, mapEntry, extensions, rules⟩ := d
  rw [MessageDecl.spots, List.pairwise_cons, List.pairwise_map]
  constructor
  · intro s hs
    obtain ⟨t, ht, rfl⟩ := List.mem_map.mp hs
    obtain ⟨i, p, -, hp⟩ := head_of_mem_spotsFrom ht
    show [k] < k :: t.position
    rw [hp]
    exact .cons .nil
  · exact (pairwise_spotsFrom 0 nested).imp fun h => List.Lex.cons h

theorem pairwise_spotsFrom (k : Nat) (ds : List MessageDecl) :
    (spotsFrom k ds).Pairwise Spot.Before := by
  cases ds with
  | nil => exact List.Pairwise.nil
  | cons d ds =>
    rw [spotsFrom, List.pairwise_append]
    refine ⟨d.pairwise_spots k, pairwise_spotsFrom (k + 1) ds, ?_⟩
    intro s hs t ht
    obtain ⟨p, hp⟩ := MessageDecl.head_of_mem_spots hs
    obtain ⟨i, q, hi, hq⟩ := head_of_mem_spotsFrom ht
    show s.position < t.position
    rw [hp, hq]
    exact .rel hi

end

theorem preorder_spotsFrom (ds : List MessageDecl) : Preorder ds (spotsFrom 0 ds) where
  ordered := pairwise_spotsFrom 0 ds
  complete := fun _ => mem_spotsFrom_zero_iff

/-! ## Entries of messages -/

/-- What a message is stored as, with its name, if these messages are around its declarations. -/
def Spot.entry (file package : String) (outers : List String) (s : Spot) : String × Message :=
  let m := Message.ofDecl file package (outers ++ s.outers) s.index s.decl
  (m.fullName, m)

theorem Spot.entry_nil (file package : String) (s : Spot) :
    s.entry file package [] = (s.fullName package, s.message file package) := by
  show (qualifiedName package s.outers s.decl.name, _) = _
  rw [qualifiedName_eq]
  rfl

theorem Spot.entry_under {ds : List MessageDecl} {k : Nat} {s : Spot} (hs : s ∈ spotsFrom k ds)
    (file package : String) (outers : List String) (index : Nat) (name : String) :
    (s.under index name).entry file package outers = s.entry file package (outers ++ [name]) := by
  obtain ⟨i, p, -, hp⟩ := head_of_mem_spotsFrom hs
  have hindex : (s.under index name).index = s.index := by
    simp only [Spot.index, Spot.under, hp, List.getLastD_cons]
  have houters : outers ++ (s.under index name).outers = outers ++ [name] ++ s.outers := by
    rw [Spot.under, List.append_assoc, List.singleton_append]
  simp only [Spot.entry, hindex, houters]
  rfl

mutual

theorem MessageDecl.entries_eq_map_spots (file package : String) (outers : List String)
    (index : Nat) (d : MessageDecl) :
    d.entries file package outers index = (d.spots index).map (Spot.entry file package outers) := by
  obtain ⟨name, fields, nested, enums, oneofs, mapEntry, extensions, rules⟩ := d
  rw [MessageDecl.entries, MessageDecl.spots, List.map_cons, List.map_map,
    messageEntries_eq_map_spots file package (outers ++ [name]) 0 nested]
  congr 1
  · simp only [Spot.entry, List.append_nil]
    rfl
  · apply List.map_congr_left
    intro s hs
    exact (Spot.entry_under hs file package outers index name).symm

theorem messageEntries_eq_map_spots (file package : String) (outers : List String) (index : Nat)
    (ds : List MessageDecl) :
    messageEntries file package outers index ds =
      (spotsFrom index ds).map (Spot.entry file package outers) := by
  cases ds with
  | nil => rfl
  | cons d ds =>
    rw [messageEntries, spotsFrom, List.map_append,
      d.entries_eq_map_spots file package outers index,
      messageEntries_eq_map_spots file package outers (index + 1) ds]

end

/-! ## Enums and their places -/

/-- An enum with its place: the position of the message that declares it, none for the file, and its
index there. -/
structure EnumSpot where
  place : List Nat
  index : Nat
  outers : List String
  decl : EnumDecl

namespace EnumSpot

def under (index : Nat) (name : String) (s : EnumSpot) : EnumSpot :=
  ⟨index :: s.place, s.index, name :: s.outers, s.decl⟩

def fullName (package : String) (s : EnumSpot) : String :=
  absoluteName package (s.outers ++ [s.decl.name])

def enum (file package : String) (s : EnumSpot) : Enum :=
  .ofDecl file package s.outers s.index s.decl

/-- What tells an enum from all others of a file. -/
def key (s : EnumSpot) : List Nat × Nat := (s.place, s.index)

end EnumSpot

/-- A file holds an enum at a place, beside its messages or in any of them. -/
inductive DeclaresEnum (d : FileDecl) : EnumSpot → Prop
  | outermost {i : Nat} {e : EnumDecl} (h : d.enums[i]? = some e) : DeclaresEnum d ⟨[], i, [], e⟩
  | nested {s : Spot} {i : Nat} {e : EnumDecl} (hs : Declares d.messages s)
      (h : s.decl.enums[i]? = some e) :
      DeclaresEnum d ⟨s.position, i, s.outers ++ [s.decl.name], e⟩

/-- All enums of a file, each once. -/
structure EachEnum (d : FileDecl) (spots : List EnumSpot) : Prop where
  once : (spots.map EnumSpot.key).Nodup
  complete : ∀ s, s ∈ spots ↔ DeclaresEnum d s

/-- Enums declared side by side. -/
def enumSpotsAt (place : List Nat) (outers : List String) (es : List EnumDecl) : List EnumSpot :=
  es.zipIdx.map fun (e, i) => ⟨place, i, outers, e⟩

/-- The enums that a message declares itself. -/
def Spot.enums (s : Spot) : List EnumSpot :=
  enumSpotsAt s.position (s.outers ++ [s.decl.name]) s.decl.enums

mutual

def MessageDecl.enumSpots (index : Nat) : MessageDecl → List EnumSpot
  | ⟨name, _, nested, enums, _, _, _, _⟩ =>
    (enumSpotsFrom 0 nested).map (EnumSpot.under index name) ++ enumSpotsAt [index] [name] enums

def enumSpotsFrom (index : Nat) : List MessageDecl → List EnumSpot
  | [] => []
  | d :: ds => d.enumSpots index ++ enumSpotsFrom (index + 1) ds

end

/-- The enums of a file in the order in which they are listed. -/
def FileDecl.enumSpots (d : FileDecl) : List EnumSpot :=
  enumSpotsFrom 0 d.messages ++ enumSpotsAt [] [] d.enums

theorem mem_enumSpotsAt_iff {place : List Nat} {outers : List String} {es : List EnumDecl}
    {s : EnumSpot} :
    s ∈ enumSpotsAt place outers es ↔
      ∃ (i : Nat) (e : EnumDecl), es[i]? = some e ∧ s = ⟨place, i, outers, e⟩ := by
  rw [enumSpotsAt, List.mem_map]
  constructor
  · rintro ⟨⟨e, i⟩, he, rfl⟩
    exact ⟨i, e, List.mk_mem_zipIdx_iff_getElem?.mp he, rfl⟩
  · rintro ⟨i, e, he, rfl⟩
    exact ⟨(e, i), List.mk_mem_zipIdx_iff_getElem?.mpr he, rfl⟩

theorem place_of_mem_enumSpotsAt {place : List Nat} {outers : List String} {es : List EnumDecl}
    {s : EnumSpot} (h : s ∈ enumSpotsAt place outers es) : s.place = place := by
  obtain ⟨i, e, -, rfl⟩ := mem_enumSpotsAt_iff.mp h
  rfl

theorem nodup_enumSpotsAt (place : List Nat) (outers : List String) (es : List EnumDecl) :
    ((enumSpotsAt place outers es).map EnumSpot.key).Nodup := by
  have hkeys : (enumSpotsAt place outers es).map EnumSpot.key =
      (es.zipIdx.map Prod.snd).map fun i => (place, i) := by
    rw [enumSpotsAt, List.map_map, List.map_map]
    rfl
  rw [hkeys, List.zipIdx_map_snd]
  exact (List.nodup_range' (s := 0)).map fun i j h => (Prod.mk.inj h).2

theorem Spot.enums_under (index : Nat) (name : String) (s : Spot) :
    (s.under index name).enums = s.enums.map (EnumSpot.under index name) := by
  rw [Spot.enums, Spot.enums, enumSpotsAt, enumSpotsAt, List.map_map]
  rfl

mutual

/-- The enums are those of the messages, though a message's own come after those nested in it. -/
theorem MessageDecl.perm_enumSpots (index : Nat) (d : MessageDecl) :
    (d.enumSpots index).Perm ((d.spots index).flatMap Spot.enums) := by
  obtain ⟨name, fields, nested, enums, oneofs, mapEntry, extensions, rules⟩ := d
  rw [MessageDecl.enumSpots, MessageDecl.spots, List.flatMap_cons, List.flatMap_map]
  refine List.perm_append_comm.trans (List.Perm.append (.refl _) ?_)
  refine ((perm_enumSpotsFrom 0 nested).map _).trans (.of_eq ?_)
  rw [List.map_flatMap]
  exact List.flatMap_congr fun s _ => (s.enums_under index name).symm

theorem perm_enumSpotsFrom (index : Nat) (ds : List MessageDecl) :
    (enumSpotsFrom index ds).Perm ((spotsFrom index ds).flatMap Spot.enums) := by
  cases ds with
  | nil => exact .refl _
  | cons d ds =>
    rw [enumSpotsFrom, spotsFrom, List.flatMap_append]
    exact (d.perm_enumSpots index).append (perm_enumSpotsFrom (index + 1) ds)

end

theorem FileDecl.perm_enumSpots (d : FileDecl) :
    d.enumSpots.Perm ((spotsFrom 0 d.messages).flatMap Spot.enums ++ enumSpotsAt [] [] d.enums) :=
  (perm_enumSpotsFrom 0 d.messages).append_right _

theorem FileDecl.mem_enumSpots_iff (d : FileDecl) {s : EnumSpot} :
    s ∈ d.enumSpots ↔ DeclaresEnum d s := by
  rw [d.perm_enumSpots.mem_iff, List.mem_append, List.mem_flatMap]
  constructor
  · rintro (⟨t, ht, h⟩ | h)
    · obtain ⟨i, e, he, rfl⟩ := mem_enumSpotsAt_iff.mp h
      exact .nested (mem_spotsFrom_zero_iff.mp ht) he
    · obtain ⟨i, e, he, rfl⟩ := mem_enumSpotsAt_iff.mp h
      exact .outermost he
  · intro h
    cases h with
    | outermost he => exact .inr (mem_enumSpotsAt_iff.mpr ⟨_, _, he, rfl⟩)
    | nested ht he =>
      exact .inl ⟨_, mem_spotsFrom_zero_iff.mpr ht, mem_enumSpotsAt_iff.mpr ⟨_, _, he, rfl⟩⟩

theorem FileDecl.nodup_enumSpots (d : FileDecl) : (d.enumSpots.map EnumSpot.key).Nodup := by
  rw [(d.perm_enumSpots.map EnumSpot.key).nodup_iff, List.map_append, List.map_flatMap,
    List.nodup_append', List.nodup_flatMap]
  refine ⟨⟨fun s _ => nodup_enumSpotsAt _ _ _, ?_⟩, nodup_enumSpotsAt _ _ _, ?_⟩
  · refine (pairwise_spotsFrom 0 d.messages).imp fun {s t} hst key hs ht => ?_
    -- An enum of two messages would give them one position.
    obtain ⟨e, he, rfl⟩ := List.mem_map.mp hs
    obtain ⟨e', he', hkey⟩ := List.mem_map.mp ht
    have hplace : t.position = s.position := by
      rw [← place_of_mem_enumSpotsAt he, ← place_of_mem_enumSpotsAt he']
      exact (Prod.mk.inj hkey).1
    have hlt : s.position < t.position := hst
    rw [hplace] at hlt
    exact List.lt_irrefl s.position hlt
  · intro key hs ht
    obtain ⟨s, hspot, hs⟩ := List.mem_flatMap.mp hs
    obtain ⟨e, he, rfl⟩ := List.mem_map.mp hs
    obtain ⟨e', he', hkey⟩ := List.mem_map.mp ht
    obtain ⟨i, p, -, hp⟩ := head_of_mem_spotsFrom hspot
    have hplace : [] = s.position := by
      rw [← place_of_mem_enumSpotsAt he, ← place_of_mem_enumSpotsAt he']
      exact (Prod.mk.inj hkey).1
    rw [hp] at hplace
    cases hplace

theorem eachEnum_enumSpots (d : FileDecl) : EachEnum d d.enumSpots :=
  ⟨d.nodup_enumSpots, fun _ => d.mem_enumSpots_iff⟩

/-! ## Entries of enums -/

def EnumSpot.entry (file package : String) (outers : List String) (s : EnumSpot) : String × Enum :=
  let e := Enum.ofDecl file package (outers ++ s.outers) s.index s.decl
  (e.fullName, e)

theorem EnumSpot.entry_nil (file package : String) (s : EnumSpot) :
    s.entry file package [] = (s.fullName package, s.enum file package) := by
  show (qualifiedName package s.outers s.decl.name, _) = _
  rw [qualifiedName_eq]
  rfl

theorem EnumSpot.entry_under (file package : String) (outers : List String) (index : Nat)
    (name : String) (s : EnumSpot) :
    (s.under index name).entry file package outers = s.entry file package (outers ++ [name]) := by
  have houters : outers ++ (s.under index name).outers = outers ++ [name] ++ s.outers := by
    rw [EnumSpot.under, List.append_assoc, List.singleton_append]
  simp only [EnumSpot.entry, houters]
  rfl

theorem enumEntries_eq_map_spots (file package : String) (outers inner : List String)
    (place : List Nat) (es : List EnumDecl) :
    enumEntries file package (outers ++ inner) es =
      (enumSpotsAt place inner es).map (EnumSpot.entry file package outers) := by
  rw [enumEntries, enumSpotsAt, List.map_map, List.mapIdx_eq_zipIdx_map]
  rfl

mutual

theorem MessageDecl.enumEntries_eq_map_spots (file package : String) (outers : List String)
    (index : Nat) (d : MessageDecl) :
    d.enumEntries file package outers =
      (d.enumSpots index).map (EnumSpot.entry file package outers) := by
  obtain ⟨name, fields, nested, enums, oneofs, mapEntry, extensions, rules⟩ := d
  rw [MessageDecl.enumEntries, MessageDecl.enumSpots, List.map_append, List.map_map,
    nestedEnumEntries_eq_map_spots file package (outers ++ [name]) 0 nested,
    ← Schema.enumEntries_eq_map_spots]
  congr 1
  apply List.map_congr_left
  intro s _
  exact (s.entry_under file package outers index name).symm

theorem nestedEnumEntries_eq_map_spots (file package : String) (outers : List String)
    (index : Nat) (ds : List MessageDecl) :
    nestedEnumEntries file package outers ds =
      (enumSpotsFrom index ds).map (EnumSpot.entry file package outers) := by
  cases ds with
  | nil => rfl
  | cons d ds =>
    rw [nestedEnumEntries, enumSpotsFrom, List.map_append,
      d.enumEntries_eq_map_spots file package outers index,
      nestedEnumEntries_eq_map_spots file package outers (index + 1) ds]

end

/-! ## Entries of a file -/

theorem FileDecl.messageEntries_eq (d : FileDecl) :
    d.messageEntries = (spotsFrom 0 d.messages).map fun s =>
      (s.fullName d.package, s.message d.name d.package) := by
  rw [FileDecl.messageEntries, messageEntries_eq_map_spots]
  exact List.map_congr_left fun s _ => s.entry_nil d.name d.package

theorem FileDecl.enumEntries_eq (d : FileDecl) :
    d.enumEntries = d.enumSpots.map fun s =>
      (s.fullName d.package, s.enum d.name d.package) := by
  rw [FileDecl.enumEntries, nestedEnumEntries_eq_map_spots d.name d.package [] 0,
    show Schema.enumEntries d.name d.package [] d.enums = _ from
      Schema.enumEntries_eq_map_spots d.name d.package [] [] [] d.enums, ← List.map_append]
  exact List.map_congr_left fun s _ => s.entry_nil d.name d.package

/-! ## Registering a file -/

namespace Registry

/-- Registering a file lists all messages that it declares in pre-order, and each of its enums once,
under a name that is made of the package, the enclosing messages and the own name. Under each listed
name the last type of that name is found afterwards, with its enclosing messages and its index, and
under all other names what was found before. -/
theorem loadFile_registers (r : Registry) (d : FileDecl) :
    ∃ (spots : List Spot) (enumSpots : List EnumSpot) (f : File),
      Preorder d.messages spots ∧ EachEnum d enumSpots ∧
      (r.loadFile d).files.get? d.name = some f ∧
      f.messages = spots.map (Spot.fullName d.package) ∧
      f.enums = enumSpots.map (EnumSpot.fullName d.package) ∧
      Table.StoresLast (Spot.fullName d.package) (Spot.message d.name d.package) spots r.messages
        (r.loadFile d).messages ∧
      Table.StoresLast (EnumSpot.fullName d.package) (EnumSpot.enum d.name d.package) enumSpots
        r.enums (r.loadFile d).enums := by
  refine ⟨spotsFrom 0 d.messages, d.enumSpots, r.entryFor d, preorder_spotsFrom d.messages,
    eachEnum_enumSpots d, ?_, ?_, ?_, ?_, ?_⟩
  · rw [loadFile_files, Table.get?_insert_self]
  · show d.messageEntries.map Prod.fst = _
    rw [d.messageEntries_eq, List.map_map]
    rfl
  · show d.enumEntries.map Prod.fst = _
    rw [d.enumEntries_eq, List.map_map]
    rfl
  · rw [loadFile_messages, insertAll_eq_fill, d.messageEntries_eq, Table.fill_map]
    exact Table.storesLast_fill _ _
  · rw [loadFile_enums, insertAll_eq_fill, d.enumEntries_eq, Table.fill_map]
    exact Table.storesLast_fill _ _

end Registry

end RpcGateway.Schema
