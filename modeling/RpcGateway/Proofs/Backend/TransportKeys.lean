import RpcGateway.Proofs.Backend.SentMetadata

/-!
Keys of the transport in the metadata that a request's headers give its call. Nothing holds them
back, so a call is free of them exactly if no header that is prefixed with one has a value to give.
Of those that are given, the server gets all that the call does not set for itself.
-/
namespace RpcGateway.Backend
open Http Rpc

/-- An entry of a call's metadata is under a key exactly if the headers have values for it. -/
theorem exists_mem_outgoing_iff {h : Headers} {key : String} :
    (∃ e ∈ outgoing h, e.1 = key) ↔ callValues h key ≠ [] := by
  rw [← getAll_outgoing]
  constructor
  · rintro ⟨e, hmem, rfl⟩
    exact List.ne_nil_of_mem (List.mem_filterMap.mpr ⟨e, hmem, if_pos rfl⟩)
  · intro hne
    obtain ⟨value, hvalue⟩ := List.exists_mem_of_ne_nil _ hne
    exact ⟨_, Headers.mem_entries_of_mem_getAll hvalue, rfl⟩

/-- No key of the transport is one that headers give under its own name. -/
theorem ne_authorizationKey_of_reserved {key : String} (hkey : key ∈ reservedKeys) :
    key ≠ authorizationKey := by
  rintro rfl
  exact absurd hkey (by decide)

theorem callValues_of_reserved (h : Headers) {key : String} (hkey : key ∈ reservedKeys) :
    callValues h key = if isBinaryKey key then [] else h.texts (metadataPrefix ++ key) := by
  have hsome : key.isEmpty = false := by
    have hall : ∀ key ∈ reservedKeys, key.isEmpty = false := by decide
    exact hall key hkey
  rw [callValues, if_neg (ne_authorizationKey_of_reserved hkey), isPlainKey, hsome, Bool.false_or]
  cases isBinaryKey key <;> rfl

/-! ## What a call sets for itself -/

/-- The values that a call sets under a key, if it sets it. -/
def setByCall (limit : Option Duration) (key : String) : Option (List Bytes) :=
  if key ∈ ownKeys then some []
  else if key = timeoutKey then limit.map fun d => [utf8 d.limitText]
  else none

theorem getAll_filter_ownKeys (metadata : Metadata) (key : String) :
    Headers.getAll ⟨metadata.entries.filter fun e => !ownKeys.contains e.1⟩ key =
      if key ∈ ownKeys then [] else metadata.getAll key := by
  rw [Headers.getAll_filter fun name _ => !ownKeys.contains name]
  split <;> simp_all

/-- What is sent under a key is what the call sets there, or else what it is given. -/
theorem getAll_sentMetadata (metadata : Metadata) (limit : Option Duration) (key : String) :
    (sentMetadata metadata limit).getAll key =
      (setByCall limit key).getD (metadata.getAll key) := by
  unfold setByCall
  cases limit with
  | none =>
    show Headers.getAll ⟨metadata.entries.filter _⟩ key = _
    rw [getAll_filter_ownKeys]
    split <;> simp
  | some d =>
    show Headers.getAll ⟨(metadata.insert timeoutKey (utf8 d.limitText)).entries.filter _⟩ key = _
    rw [getAll_filter_ownKeys, Headers.getAll_insert]
    by_cases htimeout : key = timeoutKey
    · subst htimeout
      rfl
    · rw [if_neg (Ne.symm htimeout), if_neg htimeout]
      split <;> rfl

/-! ## Keys of the transport -/

/-- The metadata that a request's headers give its call is free of keys of the transport exactly if
each header that is prefixed with such a key, binary ones aside, has no readable value. Of these
keys the server gets what the call sets for itself, and else the values of the prefixed header. -/
theorem transport_keys_absent_iff (h : Headers) :
    ((∀ e ∈ outgoing h, e.1 ∉ reservedKeys) ↔
      ∀ key ∈ reservedKeys, isBinaryKey key = false → h.texts (metadataPrefix ++ key) = []) ∧
    ∀ key ∈ reservedKeys, ∀ limit, (sentMetadata ⟨outgoing h⟩ limit).getAll key =
      (setByCall limit key).getD
        (if isBinaryKey key then [] else h.texts (metadataPrefix ++ key)) := by
  have hvalues : ∀ key ∈ reservedKeys, (callValues h key = [] ↔
      (isBinaryKey key = false → h.texts (metadataPrefix ++ key) = [])) := by
    intro key hkey
    rw [callValues_of_reserved h hkey]
    cases isBinaryKey key <;> simp
  constructor
  · constructor
    · intro hfree key hkey
      rw [← hvalues key hkey]
      by_contra hne
      obtain ⟨e, he, rfl⟩ := exists_mem_outgoing_iff.mpr hne
      exact hfree e he hkey
    · intro hnone e he hkey
      exact exists_mem_outgoing_iff.mp ⟨e, he, rfl⟩ ((hvalues e.1 hkey).mpr (hnone e.1 hkey))
  · intro key hkey limit
    rw [getAll_sentMetadata, getAll_outgoing, callValues_of_reserved h hkey]

/-- Headers that name an encoding, a time limit and a key that every call sets for itself. -/
def meddlingHeaders : Headers :=
  ⟨[("grpc-metadata-grpc-encoding", utf8 "gzip"), ("grpc-metadata-te", utf8 "trailers"),
    ("grpc-metadata-grpc-timeout", utf8 "1n")]⟩

/-- What is sent of them with a limit of two seconds. -/
def meddlingCall : Metadata := sentMetadata ⟨outgoing meddlingHeaders⟩ (some (.ofSeconds 2))

theorem transport_keys_absent_iff_meddling :
    "grpc-encoding" ∈ reservedKeys ∧ "te" ∈ reservedKeys ∧ "grpc-timeout" ∈ reservedKeys ∧
    (¬ ∀ e ∈ outgoing meddlingHeaders, e.1 ∉ reservedKeys) ∧
    meddlingCall.getAll "grpc-encoding" = [utf8 "gzip"] ∧ meddlingCall.getAll "te" = [] ∧
    meddlingCall.getAll "grpc-timeout" = [utf8 "2000000u"] := by
  have hencoding : "grpc-encoding" ∈ reservedKeys := by decide
  have hte : "te" ∈ reservedKeys := by decide
  have htimeout : "grpc-timeout" ∈ reservedKeys := by decide
  obtain ⟨hfree, hsent⟩ := transport_keys_absent_iff meddlingHeaders
  refine ⟨hencoding, hte, htimeout, ?_, ?_, ?_, ?_⟩
  · intro h
    exact absurd (hfree.mp h _ hencoding (by decide)) (by decide)
  · rw [meddlingCall, hsent _ hencoding]
    decide
  · rw [meddlingCall, hsent _ hte]
    decide
  · rw [meddlingCall, hsent _ htimeout]
    decide

/-- Headers of a client that names a time limit for the call itself. -/
def limitingHeaders : Headers :=
  ⟨[("content-type", utf8 "application/json"), ("grpc-metadata-grpc-timeout", utf8 "1n")]⟩

/-- A key of the transport goes into the metadata and on to the server. -/
theorem timeout_key_passed :
    limitingHeaders.Named ∧ "grpc-timeout" ∈ reservedKeys ∧
    outgoing limitingHeaders = [("grpc-timeout", utf8 "1n")] ∧
    (sentMetadata ⟨outgoing limitingHeaders⟩ none).getAll "grpc-timeout" = [utf8 "1n"] :=
  ⟨by decide +kernel, by decide, by decide +kernel, by decide +kernel⟩

end RpcGateway.Backend
