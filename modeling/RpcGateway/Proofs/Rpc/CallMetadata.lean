import RpcGateway.Proofs.Http.Grouping

/-!
The metadata that the headers of a request give its call, key by key. A key gets the readable values
of its prefixed header; `authorization` also gets those of the header of that name, and of the two
headers the one that stands first gives first.
-/
namespace RpcGateway
open Http

namespace Http.Headers

/-- The values of a name that can be read as text, in their order. -/
def texts (h : Headers) (name : String) : List Bytes := (h.getAll name).filter isVisible

/-- A name has a value before the other one has any. -/
def Leads (h : Headers) (name other : String) : Prop := h.names.idxOf name < h.names.idxOf other

instance (h : Headers) (name other : String) : Decidable (h.Leads name other) :=
  inferInstanceAs (Decidable (_ < _))

theorem texts_of_not_mem_names {h : Headers} {name : String} (hn : name ∉ h.names) :
    h.texts name = [] := by
  rw [texts, getAll_of_not_mem_names hn]
  rfl

end Http.Headers

namespace Rpc

/-- Keys whose values are texts. -/
def isPlainKey (key : String) : Bool := !(key.isEmpty || isBinaryKey key)

/-- The header that is metadata under its own name. -/
def authorizationKey : String := "authorization"

/-- The entries that values give a call under the key of their header, if it has one. -/
def carriedAs (key : Option String) (values : List Bytes) : List (String × Bytes) :=
  match key with
  | none => []
  | some key => if isPlainKey key then (values.filter isVisible).map fun v => (key, v) else []

/-- What a header gives a call. -/
def carried? (name : String) (value : Bytes) : Option (String × Bytes) := do
  let key ← keyOfHeader? name
  guard (!(key.isEmpty || isBinaryKey key))
  return (key, ← visible? value)

theorem carried?_eq (name : String) (value : Bytes) :
    carried? name value =
      (keyOfHeader? name).bind fun key =>
        if isPlainKey key && isVisible value then some (key, value) else none := by
  unfold carried? isPlainKey visible?
  cases keyOfHeader? name with
  | none => rfl
  | some key =>
    dsimp only [Option.bind_eq_bind, Option.bind_some]
    cases key.isEmpty || isBinaryKey key <;> cases isVisible value <;> rfl

/-- The metadata of a call, header by header. -/
theorem outgoing_eq_flatMap (h : Headers) :
    outgoing h = h.names.flatMap fun name => carriedAs (keyOfHeader? name) (h.getAll name) := by
  have hentries : outgoing h = h.grouped.filterMap fun e => carried? e.1 e.2 := rfl
  rw [hentries, Headers.grouped, List.filterMap_flatMap]
  apply List.flatMap_congr
  intro name _
  rw [List.filterMap_map]
  simp only [Function.comp_def, carried?_eq]
  cases keyOfHeader? name with
  | none => simp [carriedAs]
  | some key =>
    rw [carriedAs, ← List.filterMap_eq_map', List.filterMap_filter]
    by_cases hplain : isPlainKey key = true <;> simp [hplain]

/-- The values that the header of one name gives a call under a key. -/
def valuesFrom (h : Headers) (key name : String) : List Bytes :=
  if keyOfHeader? name = some key ∧ isPlainKey key = true then h.texts name else []

theorem getAll_carriedAs (h : Headers) (key name : String) :
    Headers.getAll ⟨carriedAs (keyOfHeader? name) (h.getAll name)⟩ key = valuesFrom h key name := by
  unfold valuesFrom
  cases keyOfHeader? name with
  | none => rfl
  | some other =>
    by_cases hkey : other = key
    · subst hkey
      by_cases hplain : isPlainKey other = true
      · rw [carriedAs, if_pos hplain, Headers.getAll_map_same, if_pos rfl, if_pos ⟨rfl, hplain⟩]
        rfl
      · rw [carriedAs, if_neg hplain, if_neg]
        · rfl
        · exact fun h => hplain h.2
    · have hother : ¬ (some other = some key ∧ isPlainKey key = true) :=
        fun h => hkey (Option.some.inj h.1)
      rw [carriedAs, if_neg hother]
      split
      · rw [Headers.getAll_map_same, if_neg hkey]
      · rfl

theorem valuesFrom_of_key {key name : String} (h : Headers) (hplain : isPlainKey key = true)
    (hkey : keyOfHeader? name = some key) : valuesFrom h key name = h.texts name :=
  if_pos ⟨hkey, hplain⟩

theorem valuesFrom_of_other {key name : String} (h : Headers)
    (hkey : keyOfHeader? name ≠ some key) : valuesFrom h key name = [] :=
  if_neg fun hk => hkey hk.1

theorem valuesFrom_of_not_mem_names {h : Headers} {name : String} (key : String)
    (hn : name ∉ h.names) : valuesFrom h key name = [] := by
  unfold valuesFrom
  rw [Headers.texts_of_not_mem_names hn, ite_self]

/-- The values that a request's headers give its call under a key. -/
def callValues (h : Headers) (key : String) : List Bytes :=
  if isPlainKey key = false then []
  else if key = authorizationKey then
    if h.Leads key (metadataPrefix ++ key) then h.texts key ++ h.texts (metadataPrefix ++ key)
    else h.texts (metadataPrefix ++ key) ++ h.texts key
  else h.texts (metadataPrefix ++ key)

theorem getAll_outgoing (h : Headers) (key : String) :
    Headers.getAll ⟨outgoing h⟩ key = callValues h key := by
  have hflat : Headers.getAll ⟨outgoing h⟩ key = h.names.flatMap (valuesFrom h key) := by
    rw [outgoing_eq_flatMap, Headers.getAll_flatMap]
    simp only [getAll_carriedAs]
  rw [hflat, callValues]
  by_cases hplain : isPlainKey key = true
  · rw [if_neg (Bool.not_eq_false _ ▸ hplain)]
    have hprefixed := valuesFrom_of_key h hplain (keyOfHeader?_append key)
    by_cases hown : key = authorizationKey
    · have hkey : keyOfHeader? key = some key := keyOfHeader?_eq_some_iff.mpr (.inr ⟨rfl, hown⟩)
      have hne : key ≠ metadataPrefix ++ key := by subst hown; decide
      have hother : ∀ name ∈ h.names, name ≠ key → name ≠ metadataPrefix ++ key →
          valuesFrom h key name = [] := by
        intro name _ hname hname'
        apply valuesFrom_of_other
        rw [Ne, keyOfHeader?_eq_some_iff]
        exact not_or.mpr ⟨hname', fun hn => hname hn.1⟩
      rw [if_pos hown, flatMap_of_two h.nodup_names hne hother (valuesFrom_of_not_mem_names key)
        (valuesFrom_of_not_mem_names key), hprefixed, valuesFrom_of_key h hplain hkey]
      rfl
    · have hother : ∀ name ∈ h.names, name ≠ metadataPrefix ++ key →
          valuesFrom h key name = [] := by
        intro name _ hname
        apply valuesFrom_of_other
        rw [Ne, keyOfHeader?_eq_some_iff]
        exact not_or.mpr ⟨hname, fun hn => hown hn.2⟩
      rw [if_neg hown, flatMap_of_one h.nodup_names hother (valuesFrom_of_not_mem_names key),
        hprefixed]
  · rw [if_pos (Bool.eq_false_iff.mpr hplain), List.flatMap_eq_nil_iff]
    intro name _
    exact if_neg fun h => hplain h.2

end Rpc

end RpcGateway
