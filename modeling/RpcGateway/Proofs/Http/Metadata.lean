import RpcGateway.Proofs.Collections
import RpcGateway.Rpc.Metadata

/-!
Metadata on its way through headers: which entries go to a client, and that whatever a request's
headers give can be sent on.
-/
namespace RpcGateway
open Http Rpc Number

namespace Http

/-- Headers under header names in lower case, as those of every request that is received. -/
def Headers.Named (h : Headers) : Prop := ∀ e ∈ h.entries, isName e.1 ∧ lowerName e.1 = e.1

instance (h : Headers) : Decidable h.Named := inferInstanceAs (Decidable (∀ e ∈ h.entries, _))

/-- Headers as a map of them can be: under such names, and with values that can be sent. -/
structure Headers.WellFormed (h : Headers) : Prop where
  named : h.Named
  valued : ∀ e ∈ h.entries, isValue e.2 = true

instance (h : Headers) : Decidable h.WellFormed :=
  decidable_of_iff (h.Named ∧ ∀ e ∈ h.entries, isValue e.2 = true)
    ⟨fun h => ⟨h.1, h.2⟩, fun h => ⟨h.named, h.valued⟩⟩

theorem Headers.mem_entries_of_mem_getAll {h : Headers} {name : String} {value : Bytes}
    (hv : value ∈ h.getAll name) : (name, value) ∈ h.entries := by
  obtain ⟨⟨k, v⟩, hmem, hv⟩ := List.mem_filterMap.mp hv
  dsimp only at hv
  split at hv
  · next hk =>
    cases hv
    exact hk ▸ hmem
  · cases hv

theorem Headers.mem_of_mem_grouped {h : Headers} {e : String × Bytes} (he : e ∈ h.grouped) :
    e ∈ h.entries := by
  obtain ⟨name, -, he⟩ := List.mem_flatMap.mp he
  obtain ⟨value, hv, rfl⟩ := List.mem_map.mp he
  exact mem_entries_of_mem_getAll hv

theorem Headers.getAll_cons (e : String × Bytes) (es : List (String × Bytes)) (name : String) :
    Headers.getAll ⟨e :: es⟩ name =
      (if e.1 = name then [e.2] else []) ++ Headers.getAll ⟨es⟩ name := by
  unfold Headers.getAll
  rw [List.filterMap_cons]
  by_cases hn : e.1 = name <;> simp [hn]

/-- What can be read as text can be sent. -/
theorem isValue_of_isVisible {value : Bytes} (h : isVisible value) : isValue value := by
  rw [isVisible, List.all_eq_true] at h
  rw [isValue, List.all_eq_true]
  intro b hb
  have hv := h b hb
  unfold isValueByte
  grind

/-- Digits can be read as text. -/
theorem isVisible_of_digits {ds : Bytes} (h : ds.all isDigit = true) : isVisible ds = true := by
  rw [List.all_eq_true] at h
  rw [isVisible, List.all_eq_true]
  intro b hb
  have hd := h b hb
  simp only [isDigit, Bool.and_eq_true, decide_eq_true_eq] at hd
  simp only [Bool.or_eq_true, Bool.and_eq_true, decide_eq_true_eq]
  exact .inl ⟨UInt8.le_trans (by decide) hd.1, UInt8.lt_of_le_of_lt hd.2 (by decide)⟩

end Http

namespace Rpc

/-- A header outside of the metadata has no key's name. -/
theorem ne_metadataKey {name : String} (h : ¬ metadataPrefix.toList.isPrefixOf name.toList)
    (key : String) : name ≠ metadataPrefix ++ key := by
  rintro rfl
  apply h
  rw [String.toList_append, List.isPrefixOf_iff_prefix]
  exact List.prefix_append _ _

/-- Forwarding adds the entries that may go to a client behind the headers, under prefixed keys. -/
theorem entries_forward (h : Headers) (metadata : Metadata) :
    (forward h metadata).entries =
      h.entries ++ (metadata.entries.filter fun e => isForwarded e.1 e.2).map
        fun e => (metadataPrefix ++ e.1, e.2) := by
  obtain ⟨es⟩ := metadata
  unfold forward
  induction es generalizing h with
  | nil => simp
  | cons e es ih =>
    rw [List.foldl_cons, ih]
    by_cases hv : isForwarded e.1 e.2 <;> simp [hv, Headers.append]

/-- The values that forwarding adds under a key: those that may go to a client. -/
theorem getAll_forward (h : Headers) (metadata : Metadata) (key : String) :
    (forward h metadata).getAll (metadataPrefix ++ key) =
      h.getAll (metadataPrefix ++ key) ++ (metadata.getAll key).filter (isForwarded key) := by
  obtain ⟨es⟩ := metadata
  unfold forward
  induction es generalizing h with
  | nil => simp [Headers.getAll]
  | cons e es ih =>
    obtain ⟨k, v⟩ := e
    rw [List.foldl_cons, ih, Headers.getAll_cons, List.filter_append]
    by_cases hk : k = key
    · subst hk
      by_cases hv : isForwarded k v <;> simp [hv]
    · have hne : metadataPrefix ++ k ≠ metadataPrefix ++ key := by
        intro he
        exact hk ((String.append_right_inj _).mp he)
      by_cases hv : isForwarded k v <;> simp [hv, hk, hne]

/-- Forwarding leaves the values of all other names as they are. -/
theorem getAll_forward_of_unprefixed {name : String}
    (hname : ¬ metadataPrefix.toList.isPrefixOf name.toList) (h : Headers) (metadata : Metadata) :
    (forward h metadata).getAll name = h.getAll name := by
  rw [Headers.getAll, entries_forward, List.filterMap_append, List.filterMap_map]
  have hnone : ∀ key, metadataPrefix ++ key ≠ name := fun key => Ne.symm (ne_metadataKey hname key)
  simp [Headers.getAll, hnone]

/-! ## Which entries go out -/

theorem utf8_append (a b : String) : utf8 (a ++ b) = utf8 a ++ utf8 b := by
  simp [utf8]

/-- Keys that are not reserved, and short enough for a header name behind the prefix. -/
def goesOut (key : String) : Bool :=
  !reservedKeys.contains key && decide ((utf8 (metadataPrefix ++ key)).length < words16)

/-- A key that is a header name is one behind the prefix, too, if it is not too long for that. -/
theorem isName_prefixed {key : String} (h : isName key = true) :
    isName (metadataPrefix ++ key) =
      decide ((utf8 (metadataPrefix ++ key)).length < words16) := by
  have hprefix : (utf8 metadataPrefix).all isNameByte = true := by decide
  have hsome : (utf8 metadataPrefix ++ utf8 key).isEmpty = false := rfl
  unfold isName at h ⊢
  simp only [Bool.and_eq_true] at h
  rw [utf8_append, List.all_append, hprefix, h.1.2, hsome]
  rfl

theorem isForwarded_eq_goesOut {metadata : Metadata} (h : metadata.WellFormed)
    {e : String × Bytes} (he : e ∈ metadata.entries) : isForwarded e.1 e.2 = goesOut e.1 := by
  rw [isForwarded, isName_prefixed (h.named e he).1, h.valued e he, Bool.and_true]
  rfl

/-! ## Keys of a request -/

/-- The prefix is taken off exactly as it was put on. -/
theorem keyOfHeader?_append (key : String) : keyOfHeader? (metadataPrefix ++ key) = some key := by
  have hprefix : metadataPrefix.toList.isPrefixOf (metadataPrefix ++ key).toList = true := by
    rw [String.toList_append, List.isPrefixOf_iff_prefix]
    exact List.prefix_append _ _
  rw [keyOfHeader?, if_pos hprefix, String.toList_append, ← String.length_toList, List.drop_left,
    String.ofList_toList]

/-- A key is that of two headers at most: the prefixed one, and `authorization` itself. -/
theorem keyOfHeader?_eq_some_iff {name key : String} :
    keyOfHeader? name = some key ↔
      name = metadataPrefix ++ key ∨ name = key ∧ key = "authorization" := by
  constructor
  · intro h
    by_cases hprefix : metadataPrefix.toList.isPrefixOf name.toList = true
    · obtain ⟨rest, hrest⟩ := List.isPrefixOf_iff_prefix.mp hprefix
      have hname : name = metadataPrefix ++ String.ofList rest := by
        rw [← String.toList_inj, String.toList_append, String.toList_ofList, hrest]
      rw [hname, keyOfHeader?_append] at h
      exact .inl (hname.trans (congrArg _ (Option.some.inj h)))
    · rw [keyOfHeader?, if_neg hprefix] at h
      split at h
      · next hname =>
        cases h
        exact .inr ⟨rfl, hname⟩
      · cases h
  · rintro (rfl | ⟨rfl, rfl⟩)
    · exact keyOfHeader?_append key
    · decide

/-- A part of a header name that is not empty is one, too. -/
theorem isName_of_append {start key : String} (h : isName (start ++ key)) (hkey : key ≠ "") :
    isName key := by
  have hne : (utf8 key).isEmpty = false := by
    cases hu : utf8 key with
    | nil =>
      have hempty : ofUtf8? (utf8 key) = ofUtf8? (utf8 "") := by rw [hu]; rfl
      rw [ofUtf8?_utf8, ofUtf8?_utf8] at hempty
      exact absurd (Option.some.inj hempty) hkey
    | cons b bs => rfl
  unfold isName at h ⊢
  rw [utf8_append] at h
  simp only [Bool.and_eq_true, List.all_append, List.length_append, decide_eq_true_eq] at h ⊢
  exact ⟨⟨by rw [hne]; rfl, h.1.2.2⟩, by omega⟩

theorem lowerName_of_append {start key : String} (h : lowerName (start ++ key) = start ++ key) :
    lowerName key = key := by
  have hl := congrArg String.toList h
  simp only [lowerName, String.toList_map, String.toList_append, List.map_append] at hl
  apply String.toList_inj.mp
  rw [lowerName, String.toList_map]
  exact (List.append_inj hl (List.length_map _)).2

/-- The metadata that a request's headers give can be sent as it is. -/
theorem mem_outgoing {h : Headers} (hn : h.Named) {e : String × Bytes} (he : e ∈ outgoing h) :
    isName e.1 ∧ lowerName e.1 = e.1 ∧ isBinaryKey e.1 = false ∧ isValue e.2 := by
  obtain ⟨⟨name, value⟩, hmem, he⟩ := List.mem_filterMap.mp he
  obtain ⟨key, hkey, he⟩ := Option.bind_eq_some_iff.mp he
  obtain ⟨_, hguard, he⟩ := Option.bind_eq_some_iff.mp he
  obtain ⟨text, htext, he⟩ := Option.bind_eq_some_iff.mp he
  cases he
  obtain ⟨hname, hlower⟩ := hn _ (Headers.mem_of_mem_grouped hmem)
  have hplain : key ≠ "" ∧ isBinaryKey key = false := by
    simpa [guard, String.isEmpty_iff] using hguard
  have hvalue : isValue text := by
    unfold visible? at htext
    split at htext
    · next hv =>
      cases htext
      exact isValue_of_isVisible hv
    · cases htext
  rcases keyOfHeader?_eq_some_iff.mp hkey with rfl | ⟨rfl, -⟩
  · exact ⟨isName_of_append hname hplain.1, lowerName_of_append hlower, hplain.2, hvalue⟩
  · exact ⟨hname, hlower, hplain.2, hvalue⟩

end Rpc

end RpcGateway
