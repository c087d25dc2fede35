import RpcGateway.Proofs.Backend.Calls
import RpcGateway.Proofs.Rpc.CallMetadata

/-!
The metadata that a request's headers give its call. It can always be built, and no other headers
than the prefixed ones and `authorization` have a part in it. The order of different headers counts
for one key only: `authorization`, which has two of them.
-/
namespace RpcGateway.Backend
open Http Rpc Proto

/-! ## Headers that agree -/

/-- Headers that agree on all that can become metadata. -/
structure SameSources (h h' : Headers) : Prop where
  own : h.getAll authorizationKey = h'.getAll authorizationKey
  prefixed : ∀ key, h.getAll (metadataPrefix ++ key) = h'.getAll (metadataPrefix ++ key)

/-- If `authorization` has readable values in both ways, the same way stands first. -/
def SameLead (h h' : Headers) : Prop :=
  h.texts authorizationKey ≠ [] → h.texts (metadataPrefix ++ authorizationKey) ≠ [] →
    (h.Leads authorizationKey (metadataPrefix ++ authorizationKey) ↔
      h'.Leads authorizationKey (metadataPrefix ++ authorizationKey))

theorem callValues_authorization (h : Headers) :
    callValues h authorizationKey =
      if h.Leads authorizationKey (metadataPrefix ++ authorizationKey) then
        h.texts authorizationKey ++ h.texts (metadataPrefix ++ authorizationKey)
      else h.texts (metadataPrefix ++ authorizationKey) ++ h.texts authorizationKey := by
  rw [callValues, if_neg (by decide), if_pos rfl]

theorem perm_callValues_authorization (h : Headers) :
    (callValues h authorizationKey).Perm
      (h.texts authorizationKey ++ h.texts (metadataPrefix ++ authorizationKey)) := by
  rw [callValues_authorization]
  split
  · exact .refl _
  · exact List.perm_append_comm

/-- If `authorization` is given in one way only, its values are those of that way. -/
theorem callValues_authorization_of_one {h : Headers}
    (hone : h.texts authorizationKey = [] ∨
      h.texts (metadataPrefix ++ authorizationKey) = []) :
    callValues h authorizationKey =
      h.texts authorizationKey ++ h.texts (metadataPrefix ++ authorizationKey) := by
  rw [callValues_authorization]
  rcases hone with hone | hone <;> simp [hone]

namespace SameSources
variable {h h' : Headers} (hsame : SameSources h h')
include hsame

theorem texts_own : h.texts authorizationKey = h'.texts authorizationKey := by
  rw [Headers.texts, hsame.own, Headers.texts]

theorem texts_prefixed (key : String) :
    h.texts (metadataPrefix ++ key) = h'.texts (metadataPrefix ++ key) := by
  rw [Headers.texts, hsame.prefixed key, Headers.texts]

theorem callValues_of_ne {key : String} (hkey : key ≠ authorizationKey) :
    callValues h key = callValues h' key := by
  rw [callValues, if_neg hkey, hsame.texts_prefixed key, callValues, if_neg hkey]

theorem perm_callValues :
    (callValues h authorizationKey).Perm (callValues h' authorizationKey) := by
  have hperm := perm_callValues_authorization h
  rw [hsame.texts_own, hsame.texts_prefixed authorizationKey] at hperm
  exact hperm.trans (perm_callValues_authorization h').symm

theorem callValues_eq (hlead : SameLead h h') (key : String) :
    callValues h key = callValues h' key := by
  by_cases hkey : key = authorizationKey
  · subst hkey
    -- The order of the two headers counts only where both have values.
    by_cases hone : h.texts authorizationKey = [] ∨
      h.texts (metadataPrefix ++ authorizationKey) = []
    · have hone' : h'.texts authorizationKey = [] ∨
          h'.texts (metadataPrefix ++ authorizationKey) = [] := by
        rwa [← hsame.texts_own, ← hsame.texts_prefixed]
      rw [callValues_authorization_of_one hone, callValues_authorization_of_one hone',
        hsame.texts_own, hsame.texts_prefixed]
    · obtain ⟨hown, hprefixed⟩ := not_or.mp hone
      rw [callValues_authorization, callValues_authorization, ← hsame.texts_own,
        ← hsame.texts_prefixed]
      simp only [hlead hown hprefixed]
  · exact hsame.callValues_of_ne hkey

end SameSources

/-! ## The metadata of a call -/

theorem pathOf_eq_error {m : MethodType} {e : ClientError} (h : pathOf m = .error e) :
    e = .invalidPath m.path := by
  unfold pathOf at h
  split at h
  · cases h
  · cases h
    rfl

/-- Metadata that can be built is no reason for a call not to be sent. -/
theorem unary_eq_error {b : Backend} {pool : Pool} {m : MethodType} {payload : Proto.Message}
    {headers : List (String × Bytes)} {limit : Option Duration} {metadata : Metadata}
    {e : ClientError} (hbuilt : metadataOf headers = .ok metadata)
    (h : b.unary pool m payload headers limit = .error e) :
    (∃ cause, b.notReady = some cause ∧ e = .notReady cause) ∨ e = .invalidPath m.path := by
  unfold unary at h
  cases hready : b.notReady with
  | some cause =>
    rw [hready] at h
    cases h
    exact .inl ⟨cause, rfl, rfl⟩
  | none =>
    cases hpath : pathOf m with
    | error fault =>
      rw [hready, hpath] at h
      cases h
      exact .inr (pathOf_eq_error hpath)
    | ok path =>
      simp only [hready, hpath, hbuilt, bind, Except.bind, pure, Except.pure] at h
      split at h
      · cases h
      · split at h <;> cases h

/-- The metadata of a request's call can be built, so neither a key nor a value is ever the reason
why it is not sent. It has under each key the readable values of the prefixed header, and under
`authorization` also those of the header of that name; the header that stands first gives first. So
headers that agree on these give the same metadata, if they agree on which way `authorization` is
given first, and else up to the order of the values of that key. -/
theorem metadata_of_headers {h : Headers} (hnamed : h.Named) :
    ∃ metadata, metadataOf (outgoing h) = .ok metadata ∧
      (∀ (b : Backend) pool m payload limit e,
        b.unary pool m payload (outgoing h) limit = .error e →
        (∃ cause, b.notReady = some cause ∧ e = .notReady cause) ∨ e = .invalidPath m.path) ∧
      (∀ key, metadata.getAll key = callValues h key) ∧
      ∀ h' : Headers, h'.Named → SameSources h h' →
        ∃ metadata', metadataOf (outgoing h') = .ok metadata' ∧
          (∀ key, key ≠ authorizationKey → metadata.getAll key = metadata'.getAll key) ∧
          (metadata.getAll authorizationKey).Perm (metadata'.getAll authorizationKey) ∧
          (SameLead h h' → ∀ key, metadata.getAll key = metadata'.getAll key) := by
  have hbuilt := metadataOf_outgoing hnamed
  refine ⟨_, hbuilt, fun b pool m payload limit e => unary_eq_error hbuilt,
    getAll_outgoing h, ?_⟩
  intro h' hnamed' hsame
  refine ⟨_, metadataOf_outgoing hnamed', ?_, ?_, ?_⟩
  · intro key hkey
    rw [getAll_outgoing, getAll_outgoing, hsame.callValues_of_ne hkey]
  · rw [getAll_outgoing, getAll_outgoing]
    exact hsame.perm_callValues
  · intro hlead key
    rw [getAll_outgoing, getAll_outgoing, hsame.callValues_eq hlead]

/-- Both ways to give `authorization`, a header given three times and once not as text, one without
a key, one of binary values, and others that are not for the server. -/
def fullHeaders : Headers :=
  ⟨[("host", utf8 "h"), ("authorization", utf8 "own"), ("grpc-metadata-x", utf8 "1"),
    ("cookie", utf8 "c"), ("grpc-metadata-authorization", utf8 "other"),
    ("grpc-metadata-", utf8 "2"), ("grpc-metadata-b-bin", utf8 "AAE="),
    ("grpc-metadata-x", utf8 "3"), ("grpc-metadata-x", utf8 "é")]⟩

/-- The same headers with another host and no cookie. -/
def fewerHeaders : Headers :=
  ⟨[("authorization", utf8 "own"), ("grpc-metadata-x", utf8 "1"),
    ("grpc-metadata-authorization", utf8 "other"), ("host", utf8 "i"),
    ("grpc-metadata-", utf8 "2"), ("grpc-metadata-b-bin", utf8 "AAE="),
    ("grpc-metadata-x", utf8 "3"), ("grpc-metadata-x", utf8 "é")]⟩

theorem sameSources_fewerHeaders : SameSources fullHeaders fewerHeaders where
  own := rfl
  prefixed key := by
    have hhost : "host" ≠ metadataPrefix ++ key := ne_metadataKey (by decide) key
    have hcookie : "cookie" ≠ metadataPrefix ++ key := ne_metadataKey (by decide) key
    simp only [fullHeaders, fewerHeaders, Headers.getAll_cons, if_neg hhost, if_neg hcookie,
      List.nil_append]

theorem metadata_of_headers_full :
    fullHeaders.Named ∧ fewerHeaders.Named ∧ SameSources fullHeaders fewerHeaders ∧
    SameLead fullHeaders fewerHeaders ∧
    ∃ metadata metadata', metadataOf (outgoing fullHeaders) = .ok metadata ∧
      metadataOf (outgoing fewerHeaders) = .ok metadata' ∧
      metadata.getAll "x" = [utf8 "1", utf8 "3"] ∧
      metadata.getAll "authorization" = [utf8 "own", utf8 "other"] ∧
      metadata.getAll "b-bin" = [] ∧ metadata.getAll "" = [] ∧
      ∀ key, metadata.getAll key = metadata'.getAll key := by
  have hfull : fullHeaders.Named := by decide +kernel
  have hfewer : fewerHeaders.Named := by decide +kernel
  have hlead : SameLead fullHeaders fewerHeaders := by
    intro _ _
    decide +kernel
  obtain ⟨metadata, hbuilt, -, hvalues, hagree⟩ := metadata_of_headers hfull
  obtain ⟨metadata', hbuilt', -, -, hsame⟩ := hagree _ hfewer sameSources_fewerHeaders
  refine ⟨hfull, hfewer, sameSources_fewerHeaders, hlead, metadata, metadata', hbuilt, hbuilt',
    ?_, ?_, ?_, ?_, hsame hlead⟩
  · rw [hvalues]
    decide +kernel
  · rw [hvalues]
    decide +kernel
  · rw [hvalues]
    decide +kernel
  · rw [hvalues]
    decide +kernel

/-! ## The order of the two ways -/

def ownFirst : Headers :=
  ⟨[("authorization", utf8 "own"), ("grpc-metadata-authorization", utf8 "meta")]⟩

def ownLast : Headers :=
  ⟨[("grpc-metadata-authorization", utf8 "meta"), ("authorization", utf8 "own")]⟩

/-- Headers with the same values under every name still give `authorization` its values in different
orders. -/
theorem authorization_order_kept :
    ownFirst.Named ∧ ownLast.Named ∧ (∀ name, ownFirst.getAll name = ownLast.getAll name) ∧
    ∃ metadata metadata', metadataOf (outgoing ownFirst) = .ok metadata ∧
      metadataOf (outgoing ownLast) = .ok metadata' ∧
      metadata.getAll "authorization" = [utf8 "own", utf8 "meta"] ∧
      metadata'.getAll "authorization" = [utf8 "meta", utf8 "own"] ∧
      metadata.getAll "authorization" ≠ metadata'.getAll "authorization" := by
  have hfirst : ownFirst.Named := by decide +kernel
  have hlast : ownLast.Named := by decide +kernel
  have hsame : ∀ name, ownFirst.getAll name = ownLast.getAll name := by
    intro name
    by_cases hown : "authorization" = name
    · subst hown
      rfl
    · simp only [ownFirst, ownLast, Headers.getAll_cons, if_neg hown, List.nil_append]
  exact ⟨hfirst, hlast, hsame, _, _, metadataOf_outgoing hfirst, metadataOf_outgoing hlast,
    by decide +kernel, by decide +kernel, by decide +kernel⟩

end RpcGateway.Backend
