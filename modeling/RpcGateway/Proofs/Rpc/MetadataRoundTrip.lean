import RpcGateway.Proofs.Rpc.CallMetadata

/-!
Metadata out to a client and in again. What comes back are the entries that may go out, may come in,
and whose prefixed key is short enough for a header name; they come back unchanged and in order.
-/
namespace RpcGateway.Rpc
open Http Number

/-! ## The way out -/

section Forwarded
variable {metadata : Metadata} (h : metadata.WellFormed)
include h

/-- Into headers that are empty, entries are copied under prefixed keys. -/
theorem entries_forward_empty :
    (forward .empty metadata).entries =
      (metadata.entries.filter fun e => goesOut e.1).map fun e => (metadataPrefix ++ e.1, e.2) := by
  rw [entries_forward, List.filter_congr fun e he => isForwarded_eq_goesOut h he]
  rfl

theorem names_forward_empty :
    (forward .empty metadata).names =
      (metadata.names.filter goesOut).map fun key => metadataPrefix ++ key := by
  have hinjective : Function.Injective fun key => metadataPrefix ++ key :=
    fun _ _ hab => (String.append_right_inj _).mp hab
  rw [Headers.names, Headers.names, entries_forward_empty h, ← eraseDups_filter,
    ← eraseDups_map hinjective, List.filter_map, List.map_map, List.map_map]
  rfl

theorem getAll_forward_empty {key : String} (hkey : goesOut key = true) :
    (forward .empty metadata).getAll (metadataPrefix ++ key) = metadata.getAll key := by
  rw [getAll_forward]
  show [] ++ _ = _
  rw [List.nil_append, List.filter_eq_self]
  intro value hvalue
  have hmem : (key, value) ∈ metadata.entries := Headers.mem_entries_of_mem_getAll hvalue
  rw [isForwarded_eq_goesOut h hmem, hkey]

end Forwarded

/-! ## And in again -/

/-- Whether an entry comes back: its key is neither reserved nor one of binary values nor too long,
and its value is a text. -/
def comesBack (key : String) (value : Bytes) : Bool :=
  !reservedKeys.contains key && !isBinaryKey key &&
    decide ((utf8 (metadataPrefix ++ key)).length < words16) && isVisible value

theorem comesBack_eq {key : String} (hkey : key ≠ "") (value : Bytes) :
    comesBack key value = (goesOut key && isPlainKey key && isVisible value) := by
  have hsome : key.isEmpty = false := by simpa using hkey
  unfold comesBack goesOut isPlainKey
  rw [hsome, Bool.false_or]
  cases reservedKeys.contains key <;> cases isBinaryKey key <;> simp

/-- The entries of one key come back together. -/
theorem carriedAs_eq_filter {key : String} (hkey : key ≠ "") (values : List Bytes) :
    (if goesOut key = true then carriedAs (some key) values else []) =
      (values.map fun v => (key, v)).filter fun e => comesBack e.1 e.2 := by
  rw [List.filter_map, Function.comp_def]
  simp only [comesBack_eq hkey, carriedAs]
  by_cases hout : goesOut key = true <;> by_cases hplain : isPlainKey key = true <;>
    simp [hout, hplain]

/-- Metadata that is forwarded to a client and read back from its headers are the entries that are
neither reserved nor binary, are texts and fit into header names: each under its own key, as often
as before, and in the same order. The prefix is taken off as it was put on, whatever the key. -/
theorem outgoing_forward {metadata : Metadata} (h : metadata.WellFormed) :
    outgoing (forward .empty metadata) =
      (metadata.grouped.filter fun e => comesBack e.1 e.2) ∧
    (∀ key, Headers.getAll ⟨outgoing (forward .empty metadata)⟩ key =
      (metadata.getAll key).filter (comesBack key)) ∧
    ∀ key, keyOfHeader? (metadataPrefix ++ key) = some key := by
  have hback : outgoing (forward .empty metadata) =
      metadata.grouped.filter fun e => comesBack e.1 e.2 := by
    rw [outgoing_eq_flatMap, names_forward_empty h, List.flatMap_map, flatMap_filter,
      Headers.grouped, List.filter_flatMap]
    apply List.flatMap_congr
    intro key hmem
    rw [← carriedAs_eq_filter (h.ne_empty_of_mem_names hmem), keyOfHeader?_append]
    split
    · next hout => rw [getAll_forward_empty h hout]
    · rfl
  refine ⟨hback, ?_, keyOfHeader?_append⟩
  intro key
  rw [hback, Headers.getAll_filter, Headers.getAll_grouped]

/-- Repeated, binary, reserved and doubly prefixed keys, `authorization`, and a value of other
bytes than text. -/
def mixedMetadata : Metadata :=
  ⟨[("grpc-metadata-x", utf8 "1"), ("a", utf8 "2"), ("te", utf8 "3"), ("grpc-metadata-x", utf8 "4"),
    ("authorization", utf8 "5"), ("b-bin", utf8 "6"), ("a", utf8 "é"), ("a", utf8 "7\t8")]⟩

theorem outgoing_forward_mixed :
    mixedMetadata.WellFormed ∧
    outgoing (forward .empty mixedMetadata) =
      [("grpc-metadata-x", utf8 "1"), ("grpc-metadata-x", utf8 "4"), ("a", utf8 "2"),
        ("a", utf8 "7\t8"), ("authorization", utf8 "5")] := by
  have hformed : mixedMetadata.WellFormed := by decide +kernel
  refine ⟨hformed, ?_⟩
  rw [(outgoing_forward hformed).1]
  decide +kernel

/-! ## A key that is too long -/

/-- A key of one letter, so many times. -/
def repeatedKey (n : Nat) : String := String.ofList (List.replicate n 'k')

theorem utf8_repeatedKey (n : Nat) : utf8 (repeatedKey n) = List.replicate n 0x6B := by
  rw [repeatedKey, utf8_ofList]
  induction n with
  | zero => rfl
  | succ n ih =>
    rw [List.replicate_succ, List.flatMap_cons, ih]
    rfl

theorem isName_repeatedKey {n : Nat} (hpos : 0 < n) (hshort : n < words16) :
    isName (repeatedKey n) = true := by
  have hsome : n ≠ 0 := Nat.ne_of_gt hpos
  rw [isName, utf8_repeatedKey, List.length_replicate]
  simp [hsome, hshort, show isNameByte 0x6B = true by decide]

theorem lowerName_repeatedKey (n : Nat) : lowerName (repeatedKey n) = repeatedKey n := by
  apply String.toList_inj.mp
  rw [lowerName, String.toList_map, repeatedKey, String.toList_ofList, List.map_replicate]
  rfl

theorem isBinaryKey_repeatedKey (n : Nat) : isBinaryKey (repeatedKey n) = false := by
  rw [isBinaryKey, Bool.eq_false_iff, Ne, List.isSuffixOf_iff_suffix]
  intro hsuffix
  have hlast := hsuffix.subset (show 'n' ∈ "-bin".toList by decide)
  rw [repeatedKey, String.toList_ofList] at hlast
  exact absurd (List.eq_of_mem_replicate hlast) (by decide)

theorem not_reserved_repeatedKey {n : Nat} (hlong : 24 < n) :
    reservedKeys.contains (repeatedKey n) = false := by
  have hshort : ∀ key ∈ reservedKeys, key.toList.length ≤ 24 := by decide
  rw [Bool.eq_false_iff, Ne, List.contains_iff_mem]
  intro hmem
  have hlength := hshort _ hmem
  rw [repeatedKey, String.toList_ofList, List.length_replicate] at hlength
  omega

theorem wellFormed_repeatedKey {n : Nat} (hpos : 0 < n) (hshort : n < words16) {value : Bytes}
    (hvalue : isValue value = true) : Headers.WellFormed ⟨[(repeatedKey n, value)]⟩ where
  named := List.forall_mem_singleton.mpr ⟨isName_repeatedKey hpos hshort, lowerName_repeatedKey n⟩
  valued := List.forall_mem_singleton.mpr hvalue

/-- A key to which the prefix cannot be added is not forwarded. -/
theorem forward_repeatedKey {n : Nat} (hlong : words16 ≤ n + 14) (hshort : n < words16)
    {value : Bytes} (hvalue : isValue value = true) :
    forward .empty ⟨[(repeatedKey n, value)]⟩ = .empty := by
  have hwords : words16 = 65536 := rfl
  have hpos : 0 < n := by omega
  have hformed := wellFormed_repeatedKey hpos hshort hvalue
  have hkept : goesOut (repeatedKey n) = false := by
    have hlength : (utf8 (metadataPrefix ++ repeatedKey n)).length = 14 + n := by
      rw [utf8_append, utf8_repeatedKey, List.length_append, List.length_replicate]
      rfl
    rw [goesOut, hlength, decide_eq_false (by omega), Bool.and_false]
  have hnone : (forward .empty ⟨[(repeatedKey n, value)]⟩).entries = [] := by
    rw [entries_forward_empty hformed, List.filter_singleton, hkept]
    rfl
  exact congrArg Headers.mk hnone

/-- A key as long as a header name may be, neither reserved nor binary, with a text as its value,
does not come back: behind the prefix it is no header name. -/
theorem long_key_lost :
    Headers.WellFormed ⟨[(repeatedKey 65522, utf8 "v")]⟩ ∧
    reservedKeys.contains (repeatedKey 65522) = false ∧
    isBinaryKey (repeatedKey 65522) = false ∧ isVisible (utf8 "v") = true ∧
    outgoing (forward .empty ⟨[(repeatedKey 65522, utf8 "v")]⟩) = [] := by
  refine ⟨wellFormed_repeatedKey (by decide) (by decide) (by decide),
    not_reserved_repeatedKey (by decide), isBinaryKey_repeatedKey _, by decide, ?_⟩
  rw [forward_repeatedKey (by decide) (by decide) (by decide)]
  rfl

end RpcGateway.Rpc
