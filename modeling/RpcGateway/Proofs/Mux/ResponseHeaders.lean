import RpcGateway.Mux.Outcome
import RpcGateway.Proofs.Http.Grouping

/-!
The headers of an answer. A marshaled outcome is answered with the marshaler's content type, with
the message of a missing authentication, and with the outcome's metadata under prefixed keys. Since
no other header has the prefix, metadata has no influence on other headers, whatever its keys.
-/
namespace RpcGateway.Mux
open Http Rpc Number

/-! ## What an outcome says -/

/-- The metadata that comes with an outcome. -/
def Outcome.metadata : Outcome → Metadata
  | .ok output => output.metadata
  | .error failure => failure.status.metadata

/-- The envelope that reports an outcome. -/
def Outcome.envelope (request : Envelope) (pool : Option Proto.Pool) : Outcome → Envelope
  | .ok output => request.success output.result
  | .error failure => errorEnvelope request failure.status pool

/-- What a client is told that is not authenticated, if a header can tell it. -/
def Outcome.challenge? : Outcome → Option Bytes
  | .ok _ => none
  | .error failure =>
    if failure.status.code = .unauthenticated ∧ isValue (utf8 failure.status.message) = true then
      some (utf8 failure.status.message)
    else none

/-- The headers of an answer that are not metadata. -/
def Outcome.ownHeaders (outcome : Outcome) (m : Marshaler) : Headers :=
  ⟨(contentTypeHeader, contentTypeOf m) ::
    outcome.challenge?.toList.map fun value => (authenticateHeader, value)⟩

/-- The metadata that goes to the client, under prefixed keys. -/
def Outcome.forwarded (outcome : Outcome) : List (String × Bytes) :=
  (outcome.metadata.entries.filter fun e => !reservedKeys.contains e.1).map
    fun e => (metadataPrefix ++ e.1, e.2)

theorem errorHeaders_eq (failure : Failure) (m : Marshaler) :
    errorHeaders failure.status m = Outcome.ownHeaders (.error failure) m := by
  unfold errorHeaders Outcome.ownHeaders Outcome.challenge?
  dsimp only
  split <;> rfl

/-! ## The answer -/

section Answer
variable {request : Envelope} {outcome : Outcome} {m : Marshaler} {pool : Option Proto.Pool}

theorem headers_of_written {body : Bytes}
    (h : m.marshal (outcome.envelope request pool) = .ok body) :
    (respond request outcome m pool).headers =
      forward (outcome.ownHeaders m) outcome.metadata := by
  cases outcome with
  | ok output =>
    have hwritten : m.marshal (request.success output.result) = .ok body := h
    simp only [respond, hwritten]
    rfl
  | error failure =>
    have hwritten : m.marshal (errorEnvelope request failure.status pool) = .ok body := h
    simp only [respond, errorResponse, hwritten, errorHeaders_eq]
    rfl

theorem respond_of_refused_error {failure : Failure} {why : String}
    (h : m.marshal (Outcome.envelope request pool (.error failure)) = .error why) :
    respond request (.error failure) m pool = fallbackResponse request := by
  have hrefused : m.marshal (errorEnvelope request failure.status pool) = .error why := h
  simp only [respond, errorResponse, hrefused]

theorem respond_of_refused_result {output : Output} {why : String}
    (h : m.marshal (Outcome.envelope request pool (.ok output)) = .error why) :
    respond request (.ok output) m pool =
      respond request (.error (.of .internal why)) m pool := by
  have hrefused : m.marshal (request.success output.result) = .error why := h
  simp only [respond, hrefused]

/-- An outcome that the marshaler refuses is answered with a content type alone. -/
theorem entries_of_refused {why : String}
    (h : m.marshal (outcome.envelope request pool) = .error why) :
    (respond request outcome m pool).headers.entries = [(contentTypeHeader, contentTypeOf m)] ∨
      respond request outcome m pool = fallbackResponse request := by
  cases outcome with
  | error failure => exact .inr (respond_of_refused_error h)
  | ok output =>
    rw [respond_of_refused_result h]
    cases hinternal : m.marshal
      (Outcome.envelope request pool (.error (.of .internal why))) with
    | error why' => exact .inr (respond_of_refused_error hinternal)
    | ok body =>
      -- The internal error has neither metadata nor a challenge of its own.
      left
      rw [headers_of_written hinternal]
      rfl

end Answer

section Forwarded
variable {outcome : Outcome} (hformed : outcome.metadata.WellFormed)
  (hshort : ∀ e ∈ outcome.metadata.entries, (utf8 (metadataPrefix ++ e.1)).length < words16)
include hformed hshort

theorem isForwarded_eq_not_reserved {e : String × Bytes} (he : e ∈ outcome.metadata.entries) :
    isForwarded e.1 e.2 = !reservedKeys.contains e.1 := by
  rw [isForwarded_eq_goesOut hformed he, goesOut, decide_eq_true (hshort e he), Bool.and_true]

theorem entries_forward_outcome (h : Headers) :
    (forward h outcome.metadata).entries = h.entries ++ outcome.forwarded := by
  rw [entries_forward, Outcome.forwarded,
    List.filter_congr fun e he => isForwarded_eq_not_reserved hformed hshort he]

theorem filter_isForwarded (key : String) :
    (outcome.metadata.getAll key).filter (isForwarded key) =
      if reservedKeys.contains key then [] else outcome.metadata.getAll key := by
  have hsame : ∀ value ∈ outcome.metadata.getAll key,
      isForwarded key value = !reservedKeys.contains key := fun value hvalue =>
    isForwarded_eq_not_reserved hformed hshort (Headers.mem_entries_of_mem_getAll hvalue)
  rw [List.filter_congr hsame]
  cases reservedKeys.contains key <;> simp

end Forwarded

theorem getAll_ownHeaders (outcome : Outcome) (m : Marshaler) (name : String) :
    (outcome.ownHeaders m).getAll name =
      if name = contentTypeHeader then [contentTypeOf m]
      else if name = authenticateHeader then outcome.challenge?.toList
      else [] := by
  rw [Outcome.ownHeaders, Headers.getAll_cons, Headers.getAll_map_same]
  by_cases htype : name = contentTypeHeader
  · subst htype
    rw [if_pos rfl, if_neg (by decide), if_pos rfl, List.append_nil]
  · rw [if_neg (Ne.symm htype), if_neg htype, List.nil_append]
    by_cases hauth : name = authenticateHeader
    · rw [if_pos hauth.symm, if_pos hauth]
    · rw [if_neg (Ne.symm hauth), if_neg hauth]

theorem getAll_ownHeaders_prefixed (outcome : Outcome) (m : Marshaler) (key : String) :
    (outcome.ownHeaders m).getAll (metadataPrefix ++ key) = [] := by
  rw [getAll_ownHeaders, if_neg (Ne.symm (ne_metadataKey (by decide) key)),
    if_neg (Ne.symm (ne_metadataKey (by decide) key))]

/-- Headers that show an outcome: its own, and each entry of its metadata whose key is not reserved,
under the prefixed key. Metadata is found under prefixed keys only, where there is nothing else, and
all other names have the values that they have without it. -/
structure Outcome.ShownBy (outcome : Outcome) (m : Marshaler) (headers : Headers) : Prop where
  entries : headers.entries = (outcome.ownHeaders m).entries ++ outcome.forwarded
  prefixed : ∀ key, headers.getAll (metadataPrefix ++ key) =
    if reservedKeys.contains key then [] else outcome.metadata.getAll key
  others : ∀ name, ¬ metadataPrefix.toList.isPrefixOf name.toList →
    headers.getAll name =
      if name = contentTypeHeader then [contentTypeOf m]
      else if name = authenticateHeader then outcome.challenge?.toList
      else []

/-- The headers of an answer show the outcome, if the marshaler writes its envelope. If it refuses,
the content type is the only header; a refused error has the fixed answer, which is JSON. -/
theorem headers_respond (request : Envelope) (outcome : Outcome) (m : Marshaler)
    (pool : Option Proto.Pool) (hformed : outcome.metadata.WellFormed)
    (hshort : ∀ e ∈ outcome.metadata.entries, (utf8 (metadataPrefix ++ e.1)).length < words16) :
    (∀ body, m.marshal (outcome.envelope request pool) = .ok body →
      outcome.ShownBy m (respond request outcome m pool).headers) ∧
    (∀ why, m.marshal (outcome.envelope request pool) = .error why →
      (respond request outcome m pool).headers.entries = [(contentTypeHeader, contentTypeOf m)] ∨
        respond request outcome m pool = fallbackResponse request) ∧
    (∀ failure why, outcome = .error failure →
      m.marshal (outcome.envelope request pool) = .error why →
      respond request outcome m pool = fallbackResponse request) ∧
    (fallbackResponse request).headers.entries = [(contentTypeHeader, utf8 jsonContentType)] := by
  refine ⟨?written, fun _ => entries_of_refused, ?error, rfl⟩
  case written =>
    intro body hwritten
    rw [headers_of_written hwritten]
    refine ⟨entries_forward_outcome hformed hshort _, ?_, ?_⟩
    · intro key
      rw [getAll_forward, getAll_ownHeaders_prefixed, List.nil_append,
        filter_isForwarded hformed hshort]
    · intro name hname
      rw [getAll_forward_of_unprefixed hname, getAll_ownHeaders]
  case error =>
    rintro failure why rfl hrefused
    exact respond_of_refused_error hrefused

/-! ## Metadata under the names of other headers -/

/-- A failure whose metadata has the keys of the answer's own headers, and repeated, binary and
prefixed ones. -/
def shadowing : Failure where
  status := ⟨.unauthenticated, "log in", [],
    ⟨[("www-authenticate", utf8 "1"), ("content-type", utf8 "2"), ("a", utf8 "3"),
      ("b-bin", utf8 "AAE="), ("a", utf8 "4"), ("grpc-metadata-a", utf8 "5")]⟩⟩
  httpStatus := some 418

/-- A marshaler whose content type has a line break. -/
def brokenLine : Marshaler := { Marshaler.json with contentType := "text/\njson" }

/-- A marshaler that refuses everything. -/
def refusesAll : Marshaler := { Marshaler.json with marshal := fun _ => .error "no" }

theorem headers_respond_shadowing :
    shadowing.status.metadata.WellFormed ∧
    (∀ e ∈ shadowing.status.metadata.entries, (utf8 (metadataPrefix ++ e.1)).length < words16) ∧
    (respond {} (.error shadowing) brokenLine none).headers.entries =
      [("content-type", utf8 "application/json"), ("www-authenticate", utf8 "log in"),
        ("grpc-metadata-www-authenticate", utf8 "1"), ("grpc-metadata-a", utf8 "3"),
        ("grpc-metadata-b-bin", utf8 "AAE="), ("grpc-metadata-a", utf8 "4"),
        ("grpc-metadata-grpc-metadata-a", utf8 "5")] ∧
    respond {} (.error shadowing) refusesAll none = fallbackResponse {} := by
  have hformed : shadowing.status.metadata.WellFormed := by decide +kernel
  have hshort : ∀ e ∈ shadowing.status.metadata.entries,
      (utf8 (metadataPrefix ++ e.1)).length < words16 := by decide +kernel
  refine ⟨hformed, hshort, ?_, ?_⟩
  · have hshown := (headers_respond {} (.error shadowing) brokenLine none hformed hshort).1 _ rfl
    rw [hshown.entries]
    decide +kernel
  · exact (headers_respond {} (.error shadowing) refusesAll none hformed hshort).2.2.1
      shadowing "no" rfl rfl

end RpcGateway.Mux
