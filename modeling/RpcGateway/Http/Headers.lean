import RpcGateway.Bytes
import RpcGateway.Number.Decimal

/-!
Header fields and call metadata: names in lower case, each with one or more values. The values of
one name keep their order; the order of different names carries no meaning.
-/
namespace RpcGateway.Http
open Number

/-- Lower case of ASCII letters. -/
def lowerName (name : String) : String := name.map Char.toLower

/-- Characters of header names. -/
def isNameByte (b : UInt8) : Bool :=
  isDigit b || (0x41 ≤ b && b ≤ 0x5A) || (0x61 ≤ b && b ≤ 0x7A) ||
    (utf8 "!#$%&'*+-.^_`|~").contains b

/-- Whether a text is a header name, in any case. -/
def isName (name : String) : Bool :=
  !(utf8 name).isEmpty && (utf8 name).all isNameByte && (utf8 name).length < words16

/-- Bytes of header values: no controls but the tab. -/
def isValueByte (b : UInt8) : Bool := (0x20 ≤ b && b ≠ 0x7F) || b = 0x09

def isValue (value : Bytes) : Bool := value.all isValueByte

/-- Whether a value is visible ASCII, blanks and tabs included, and so can be read as text. -/
def isVisible (value : Bytes) : Bool := value.all fun b => (0x20 ≤ b && b < 0x7F) || b = 0x09

/-- A value as text, if it is visible ASCII. -/
def visible? (value : Bytes) : Option Bytes := if isVisible value then some value else none

def isBlankByte (b : UInt8) : Bool := b = 0x20 || b = 0x09

/-- A value without blanks at its ends. -/
def trim (value : Bytes) : Bytes :=
  ((value.dropWhile isBlankByte).reverse.dropWhile isBlankByte).reverse

structure Headers where
  entries : List (String × Bytes) := []
  deriving DecidableEq, Repr, Inhabited

namespace Headers

def empty : Headers := ⟨[]⟩

/-- Adds a value behind those that the name has already. -/
def append (h : Headers) (name : String) (value : Bytes) : Headers := ⟨h.entries ++ [(name, value)]⟩

/-- Removes all values of a name. -/
def remove (h : Headers) (name : String) : Headers := ⟨h.entries.filter fun e => e.1 != name⟩

/-- Gives a name one value, in place of all it had. -/
def insert (h : Headers) (name : String) (value : Bytes) : Headers :=
  (h.remove name).append name value

/-- Headers with names in any case. -/
def ofList (entries : List (String × Bytes)) : Headers :=
  ⟨entries.map fun (name, value) => (lowerName name, value)⟩

def getAll (h : Headers) (name : String) : List Bytes :=
  h.entries.filterMap fun (k, v) => if k = name then some v else none

/-- The first value of a name. -/
def get? (h : Headers) (name : String) : Option Bytes := h.entries.lookup name

/-- The first value of a name, if it can be read as text. -/
def text? (h : Headers) (name : String) : Option Bytes := (h.get? name).bind visible?

/-- Names in the order of their first values. -/
def names (h : Headers) : List String := (h.entries.map Prod.fst).eraseDups

/-- Entries with the values of one name together. -/
def grouped (h : Headers) : List (String × Bytes) :=
  h.names.flatMap fun name => (h.getAll name).map (name, ·)

/-- Adds the entries of other headers, whose names lose the values they had here. -/
def overlay (h other : Headers) : Headers :=
  ⟨(h.entries.filter fun e => !other.entries.any (·.1 == e.1)) ++ other.entries⟩

/-- Entries in ascending order of names. -/
def sorted (h : Headers) : List (String × Bytes) :=
  h.entries.mergeSort fun a b => decide (a.1 ≤ b.1)

@[simp] theorem getAll_append (h : Headers) (name other : String) (value : Bytes) :
    (h.append name value).getAll other =
      h.getAll other ++ if name = other then [value] else [] := by
  by_cases hn : name = other <;> simp [append, getAll, hn]

@[simp] theorem getAll_remove (h : Headers) (name other : String) :
    (h.remove name).getAll other = if name = other then [] else h.getAll other := by
  obtain ⟨es⟩ := h
  simp only [remove, getAll]
  by_cases hno : name = other
  · subst hno
    induction es with
    | nil => simp
    | cons e es ih => by_cases hk : e.1 = name <;> simp_all
  · induction es with
    | nil => simp
    | cons e es ih =>
      by_cases hk : e.1 = name
      · have hko : e.1 ≠ other := fun h => hno (hk ▸ h)
        simp_all
      · by_cases ho : e.1 = other <;> simp_all

theorem get?_eq_head? (h : Headers) (name : String) : h.get? name = (h.getAll name).head? := by
  obtain ⟨es⟩ := h
  simp only [get?, getAll]
  induction es with
  | nil => rfl
  | cons e es ih =>
    obtain ⟨k, v⟩ := e
    by_cases hk : k = name
    · simp [hk]
    · have hne : (name == k) = false := beq_false_of_ne (Ne.symm hk)
      simp [List.lookup_cons, hne, hk, ih]

@[simp] theorem get?_remove (h : Headers) (name other : String) :
    (h.remove name).get? other = if name = other then none else h.get? other := by
  rw [get?_eq_head?, get?_eq_head?, getAll_remove]
  split <;> rfl

theorem getAll_insert (h : Headers) (name other : String) (value : Bytes) :
    (h.insert name value).getAll other = if name = other then [value] else h.getAll other := by
  by_cases hn : name = other <;> simp [insert, hn]

end Headers

end RpcGateway.Http
