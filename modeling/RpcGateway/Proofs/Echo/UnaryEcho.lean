import RpcGateway.Proofs.Backend.Calls
import RpcGateway.Proofs.Backend.TransportKeys
import RpcGateway.Proofs.Echo.Answers

/-!
Calls of the method that repeats its request. What the parameters set is written, read, read once
more as an answer, written and read again, and the result shows the text, the delay and the nested
message as they were. A request that is too long for the server to receive fails.
-/
namespace RpcGateway.Echo
open Http Rpc Proto Backend Number

/-- The method that repeats its request. -/
def unaryEcho : MethodType := methodType "UnaryEcho"

/-- The name that calls of it have. -/
def unaryEchoName : String := "EchoService.UnaryEcho"

theorem parse?_path_unaryEcho :
    Target.parse? (utf8 unaryEcho.path) = some ⟨utf8 "/echo.v1.EchoService/UnaryEcho", none⟩ := by
  decide

theorem methodOfPath?_unaryEcho :
    methodOfPath? pool (utf8 "/echo.v1.EchoService/UnaryEcho") = some unaryEcho := by
  decide

/-! ## The request -/

section Parameters
variable {params : Json} {message : Proto.Message}

theorem request_of_decodeParams (h : decodeParams pool unaryEcho params = .ok message) :
    message.type = requestType ∧ Request message.fields := by
  refine ⟨type_of_decodeParams h, ?_⟩
  unfold decodeParams at h
  split at h
  · cases h
    exact ⟨List.Pairwise.nil, List.forall_mem_nil _⟩
  · split at h
    · next m hm =>
      cases h
      obtain ⟨fs, hfs, rfl⟩ := Option.map_eq_some_iff.mp hm
      exact request_of_fieldsOfJson hfs
    · cases h

end Parameters

/-! ## The reply -/

/-- The headers that name a user, but no encoding and no status. -/
theorem get?_replyWith_headers (metadata : Metadata) (message : Bytes) (delay : Duration)
    {key : String} (hecho : key ≠ "x-echo") (huser : key ≠ userKey) :
    (replyWith metadata message delay).headers.get? key = none := by
  have hnone : (Headers.empty.insert "x-echo" (utf8 "true")).getAll key = [] := by
    rw [Headers.getAll_insert, if_neg (Ne.symm hecho)]
    rfl
  rw [Headers.get?_eq_head?, replyWith]
  dsimp only
  split
  · rw [Headers.getAll_insert, if_neg (Ne.symm huser), hnone]
    rfl
  · rw [hnone]
    rfl

theorem ofHeaders?_replyWith (metadata : Metadata) (message : Bytes) (delay : Duration) :
    Status.ofHeaders? (replyWith metadata message delay).headers = none := by
  have hcode : (replyWith metadata message delay).headers.get? Status.codeKey = none :=
    get?_replyWith_headers metadata message delay (by decide) (by decide)
  rw [Status.ofHeaders?, hcode]
  rfl

/-- A reply with one message succeeds with its JSON form. -/
theorem succeeds_replyWith {m : MethodType} {message : Bytes} {result : Json}
    (h : decodeReply pool m message = .ok result) (metadata : Metadata) (delay : Duration) :
    (replyWith metadata message delay).Succeeds pool m result
      ((replyWith metadata message delay).headers.overlay
        (replyWith metadata message delay).trailers) := by
  have htold := ofHeaders?_replyWith metadata message delay
  have hplain : encodingFault? (replyWith metadata message delay).headers = none := by
    rw [encodingFault?, get?_replyWith_headers metadata message delay (by decide) (by decide)]
  have hok : (replyWith metadata message delay).status.code = .ok := by
    rw [Reply.status, htold, Option.none_or]
    show ((Status.ofHeaders? (Headers.empty.insert Status.codeKey (digits 0))).getD _).code = .ok
    decide +kernel
  exact .intro ⟨hplain, fun hsome => by rw [htold] at hsome; cases hsome⟩ hok rfl h
    (List.forall_mem_nil _)

theorem lengthFault?_of_le {message : Bytes} (h : message.length ≤ maxMessageLength) :
    lengthFault? message = none := if_neg (Nat.not_lt.mpr h)

section Call
variable {fs : Fields} (h : Request fs)
  (hlength : (Message.toBytes pool ⟨requestType, fs⟩).length ≤ maxMessageLength)
include h hlength

theorem decodeReply_request :
    decodeReply pool unaryEcho (Message.toBytes pool ⟨requestType, fs⟩) = .ok (echoed fs) := by
  have hwords := Nat.lt_of_le_of_lt hlength (show maxMessageLength < words64 by decide)
  have hread : Message.ofBytes pool (pool.outputType unaryEcho)
      (Message.toBytes pool ⟨requestType, fs⟩) = .ok ⟨responseType, fs.flatMap answerImage⟩ :=
    ofBytes_answer h hwords
  rw [decodeReply, lengthFault?_of_le hlength, hread]
  dsimp only
  rw [toJson_answer h]

/-- The server repeats the bytes of a request that is not too long. -/
theorem call_server {metadata : Metadata} (hplain : encodingFault? metadata = none) :
    (server pool).call ⟨utf8 "/echo.v1.EchoService/UnaryEcho", metadata,
      Message.toBytes pool ⟨requestType, fs⟩⟩ =
        .ok (replyWith metadata (Message.toBytes pool ⟨requestType, fs⟩) .zero) := by
  have hwords := Nat.lt_of_le_of_lt hlength (show maxMessageLength < words64 by decide)
  have hread : Message.ofBytes pool (pool.inputType unaryEcho)
      (Message.toBytes pool ⟨requestType, fs⟩) = .ok ⟨requestType, fs.flatMap requestImage⟩ :=
    ofBytes_request h hwords
  have hagain : Message.ofBytes pool (pool.outputType unaryEcho)
      (Message.toBytes pool ⟨requestType, fs⟩) = .ok ⟨responseType, fs.flatMap answerImage⟩ :=
    ofBytes_answer h hwords
  have hanswer : answer pool unaryEcho metadata ⟨requestType, fs.flatMap requestImage⟩ =
      replyWith metadata (Message.toBytes pool ⟨requestType, fs⟩) .zero := by
    show echo pool unaryEcho metadata _ .zero = _
    rw [echo, toBytes_request h hwords, hagain]
    dsimp only
    rw [toBytes_answer h hwords]
  rw [server]
  dsimp only
  rw [methodOfPath?_unaryEcho]
  dsimp only
  rw [hplain, lengthFault?_of_le hlength, hread, Option.none_or]
  dsimp only
  rw [hanswer]

end Call

/-- The server refuses a message that is too long. -/
theorem call_server_of_long {metadata : Metadata} {message : Bytes}
    (hplain : encodingFault? metadata = none) (hlong : maxMessageLength < message.length) :
    (server pool).call ⟨utf8 "/echo.v1.EchoService/UnaryEcho", metadata, message⟩ =
      .ok (.ofStatus (messageTooLong message.length)) := by
  have hfault : lengthFault? message = some (messageTooLong message.length) := if_pos hlong
  rw [server]
  dsimp only
  rw [methodOfPath?_unaryEcho]
  dsimp only
  rw [hplain, hfault, Option.none_or]

/-- A call completes with the answer to its parameters. -/
theorem completes_unaryEcho {ctx : Mux.Context} {params : Json} {message : Proto.Message}
    (hparams : decodeParams pool unaryEcho params = .ok message)
    (hlength : (message.toBytes pool).length ≤ maxMessageLength)
    (hplain : encodingFault? (sentMetadata ⟨outgoing ctx.headers⟩ ctx.limit) = none) :
    ∃ metadata, Completes (server pool) pool unaryEcho ctx params (echoed message.fields)
      metadata := by
  obtain ⟨htype, hrequest⟩ := request_of_decodeParams hparams
  obtain ⟨type, fs⟩ := message
  subst htype
  have hasked : Asked (server pool) pool unaryEcho ctx params _ :=
    ⟨_, _, hparams, parse?_path_unaryEcho, call_server hrequest hlength hplain⟩
  have hsucceeds := succeeds_replyWith (decodeReply_request hrequest hlength)
    (sentMetadata ⟨outgoing ctx.headers⟩ ctx.limit) .zero
  exact ⟨_, .intro hasked (fun limit _ => Nat.zero_le limit.nanos) hsucceeds⟩

/-! ## Served calls -/

/-- What a call sets for itself names no encoding. -/
theorem encodingFault?_sentMetadata (metadata : Metadata) (limit : Option Duration) :
    encodingFault? (sentMetadata metadata limit) = encodingFault? metadata := by
  have hget : (sentMetadata metadata limit).get? encodingKey = metadata.get? encodingKey := by
    rw [Headers.get?_eq_head?, getAll_sentMetadata, Headers.get?_eq_head?]
    rfl
  rw [encodingFault?, encodingFault?, hget]

theorem route_unaryEcho :
    (routes pool (targetMethods (registryOf files))).get? unaryEchoName = some unaryEcho := by
  decide

/-- Neither the note nor the label make a difference. -/
theorem echoed_congr {fs gs : Fields} (h : ∀ n ∈ [1, 2, 3], Fields.get? fs n = Fields.get? gs n) :
    echoed fs = echoed gs := by
  simp only [List.forall_mem_cons, List.not_mem_nil, false_implies, forall_const, and_true] at h
  rw [echoed, echoed, textAt, textAt, wholeAt, wholeAt, nested?, nested?, h.1, h.2.1, h.2.2]

/-- Parameters that denote a request of at most 4 MiB are answered with its text and its delay, and
with the nested message exactly if it is set, by its text and its mood in full. Requests that
differ in nothing but the note and the label are answered alike. -/
theorem serve_unaryEcho {mux₀ mux : Mux} {n : Nat} {q : Http.Request} {e : Envelope}
    {message : Proto.Message} (hmarshaler : mux₀.options.marshaler = .json)
    (hregister : (server pool).registerAll pool mux₀ (registryOf files) = .ok (mux, n))
    (hnamed : q.headers.Named) (haccept : mux.accept q = .ok e) (hmethod : e.method = unaryEchoName)
    (hparams : decodeParams pool unaryEcho (.ofOption e.params) = .ok message)
    (hlength : (message.toBytes pool).length ≤ maxMessageLength)
    (hplain : encodingFault? ⟨outgoing q.headers⟩ = none) :
    (mux.serve q).status = 200 ∧ (mux.serve q).body = (e.success (echoed message.fields)).print ∧
    ∀ other : Fields, (∀ n ∈ [1, 2, 3], other.get? n = Fields.get? message.fields n) →
      echoed other = echoed message.fields := by
  obtain ⟨-, hmux, -⟩ := registerAll_eq_ok hregister
  have hhandler : mux.handlers.get? e.method =
      some ((server pool).proxyHandler pool unaryEcho) := by
    rw [hmux, hmethod]
    exact handler_of_route route_unaryEcho
  have hjson : mux.options.marshaler = .json := by
    rw [hmux]
    exact hmarshaler
  let ctx : Mux.Context := ⟨q.uri, q.headers, mux.limitOf q.headers⟩
  have hsent : encodingFault? (sentMetadata ⟨outgoing ctx.headers⟩ ctx.limit) = none := by
    rw [encodingFault?_sentMetadata]
    exact hplain
  obtain ⟨metadata, hcompletes⟩ := completes_unaryEcho hparams hlength hsent
  rw [hcompletes.serve link_files rfl hjson hnamed haccept hhandler]
  exact ⟨rfl, rfl, fun other hsame => echoed_congr hsame⟩

/-- A request that sets all fields but the delay. -/
def fullCall : Http.Request where
  method := "POST"
  uri := ⟨⟨[slash], none⟩⟩
  headers := ⟨[("content-type", utf8 "application/json"), ("grpc-metadata-x-user", utf8 "ann")]⟩
  body := .ofBytes (utf8 ("\x7b\"id\":1,\"method\":\"EchoService.UnaryEcho\",\"params\":" ++
    "\x7b\"message\":\"hi\",\"meta\":\x7b\"mood\":1\x7d,\"note\":\"n\",\"label\":\"\"\x7d\x7d"))

def fullEnvelope : Envelope where
  id := some (.int 1)
  method := unaryEchoName
  params := some (.obj [("label", .str ""), ("message", .str "hi"),
    ("meta", .obj [("mood", .int 1)]), ("note", .str "n")])

def fullRequest : Proto.Message where
  type := requestType
  fields := [(1, .text "hi"), (3, .message [(2, .int 1)]), (4, .text "n"),
    (5, .message [])]

def echoMux : Mux :=
  (server pool).withHandlers pool ⟨.empty, {}⟩ (targetMethods (registryOf files))

theorem serve_unaryEcho_full :
    (server pool).registerAll pool ⟨.empty, {}⟩ (registryOf files) = .ok (echoMux, 3) ∧
    echoMux.accept fullCall = .ok fullEnvelope ∧
    (echoMux.serve fullCall).status = 200 ∧
    (echoMux.serve fullCall).body = (fullEnvelope.success (.obj [("delayMs", .int 0),
      ("message", .str "hi"),
      ("meta", .obj [("mood", .str "MOOD_HAPPY"), ("traceId", .str "")])])).print := by
  have hregister : (server pool).registerAll pool ⟨.empty, {}⟩ (registryOf files) =
      .ok (echoMux, 3) := by rfl
  have haccept : echoMux.accept fullCall = .ok fullEnvelope := by rfl
  have hparams : decodeParams pool unaryEcho (.ofOption fullEnvelope.params) = .ok fullRequest := by
    rfl
  obtain ⟨hstatus, hbody, -⟩ := serve_unaryEcho rfl hregister (by decide +kernel) haccept rfl
    hparams (by decide +kernel) (by decide +kernel)
  exact ⟨hregister, haccept, hstatus, hbody⟩

/-! ## A note that is too long -/

/-- A text of so many letters. -/
def letters (n : Nat) : String := String.ofList (List.replicate n 'a')

theorem length_utf8_letters (n : Nat) : (utf8 (letters n)).length = n := by
  rw [letters, utf8_ofList]
  induction n with
  | zero => rfl
  | succ n ih =>
    rw [List.replicate_succ, List.flatMap_cons, List.length_append, ih]
    exact Nat.add_comm 1 n

/-- Parameters that set nothing but the note. -/
def noteParams (n : Nat) : Json := .obj [("note", .str (letters n))]

/-- The request with nothing but the note. -/
def noteRequest (n : Nat) : Proto.Message := ⟨requestType, [(4, .text (letters n))]⟩

theorem decodeParams_noteParams (n : Nat) :
    decodeParams pool unaryEcho (noteParams n) = .ok (noteRequest n) := rfl

theorem length_noteRequest (n : Nat) :
    ((noteRequest n).toBytes pool).length =
      (writeKey 4 .delimited).length + ((varint n).length + n) := by
  rw [noteRequest, Message.toBytes, writeFields_note, List.length_append, delimited,
    List.length_append, length_utf8_letters]

theorem length_longest_note : ((noteRequest maxMessageLength).toBytes pool).length = 4194309 := by
  have hkey : (writeKey 4 .delimited).length = 1 := by decide +kernel
  have hvarint : (varint maxMessageLength).length = 4 := by decide +kernel
  rw [length_noteRequest, hkey, hvarint, maxMessageLength]

/-- What the server says to a message of this length. -/
theorem fails_messageTooLong (m : MethodType) :
    (Reply.ofStatus (messageTooLong 4194309)).Fails pool m (messageTooLong 4194309) := by
  have hstatus : (Reply.ofStatus (messageTooLong 4194309)).status = messageTooLong 4194309 := by
    decide +kernel
  have hfails : (Reply.ofStatus (messageTooLong 4194309)).Fails pool m
      (Reply.ofStatus (messageTooLong 4194309)).status :=
    .atOnce (by decide +kernel) (by decide +kernel) (by rw [hstatus]; decide)
  rwa [hstatus] at hfails

/-- A call with a message of this length stops. -/
theorem stops_of_length {ctx : Mux.Context} {params : Json} {message : Proto.Message}
    (hparams : decodeParams pool unaryEcho params = .ok message)
    (hlength : (message.toBytes pool).length = 4194309)
    (hplain : encodingFault? (sentMetadata ⟨outgoing ctx.headers⟩ ctx.limit) = none) :
    Stops (server pool) pool unaryEcho ctx params (messageTooLong 4194309) := by
  have hcall := call_server_of_long hplain (show maxMessageLength < (message.toBytes pool).length by
    rw [hlength]; decide)
  rw [hlength] at hcall
  have hasked : Asked (server pool) pool unaryEcho ctx params _ :=
    ⟨_, _, hparams, parse?_path_unaryEcho, hcall⟩
  exact .reply hasked (fun limit _ => Nat.zero_le limit.nanos) (fails_messageTooLong unaryEcho)

/-- A note of 4 MiB makes a request that is longer still, and so the call fails. -/
theorem long_note_refused :
    decodeParams pool unaryEcho (noteParams maxMessageLength) =
      .ok (noteRequest maxMessageLength) ∧
    ((server pool).proxyHandler pool unaryEcho ⟨⟨⟨[slash], none⟩⟩, .empty, none⟩
      (noteParams maxMessageLength)).within none = .error ⟨messageTooLong 4194309, none⟩ :=
  ⟨decodeParams_noteParams maxMessageLength,
    (stops_of_length (decodeParams_noteParams maxMessageLength) length_longest_note
      (by decide)).within link_files rfl (by decide)⟩

end RpcGateway.Echo
