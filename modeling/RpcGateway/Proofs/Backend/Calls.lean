import RpcGateway.Proofs.Backend.Replies
import RpcGateway.Proofs.Backend.Routes
import RpcGateway.Proofs.Mux.ResponseHeaders

/-!
How a forwarded call ends. It completes if the parameters denote a request, the path can be sent and
the server replies in time with a result; otherwise the first stage that fails gives the status. The
answer to the client reports exactly that.
-/
namespace RpcGateway.Backend
open Http Rpc Proto

/-! ## The stages of a call -/

section Stages
variable (b : Backend) (pool : Pool) (m : MethodType) (ctx : Mux.Context) (params : Json)

/-- The server answers the call that a request makes: with the message that the parameters denote,
at the path of the method, and with the metadata and the time limit of the request. -/
structure Asked (answer : Except String Reply) : Prop where
  sent : ∃ payload target, decodeParams pool m params = .ok payload ∧
    Target.parse? (utf8 m.path) = some target ∧
    b.call ⟨target.path, sentMetadata ⟨outgoing ctx.headers⟩ ctx.limit, payload.toBytes pool⟩ =
      answer

/-- A call that ends with a result. -/
inductive Completes : Json → Metadata → Prop
  | intro {r : Reply} {result : Json} {metadata : Metadata}
      (asked : Asked b pool m ctx params (.ok r))
      (inTime : ∀ limit, ctx.limit = some limit → r.delay ≤ limit)
      (succeeds : r.Succeeds pool m result metadata) : Completes result metadata

/-- A call that ends with a failure: the parameters denote no request, the path cannot be sent, no
reply comes, it comes late, or it fails. -/
inductive Stops : Status → Prop
  | params (invalid : ∀ payload, decodeParams pool m params ≠ .ok payload) :
      Stops ⟨.invalidArgument, invalidParams, [], .empty⟩
  | path {payload : Proto.Message} (valid : decodeParams pool m params = .ok payload)
      (unsendable : Target.parse? (utf8 m.path) = none) :
      Stops ⟨.invalidArgument, (ClientError.invalidPath m.path).message, [], .empty⟩
  | unanswered {cause : String} (asked : Asked b pool m ctx params (.error cause)) :
      Stops ⟨.unknown, cause, [], .empty⟩
  | late {r : Reply} {limit : Duration} (asked : Asked b pool m ctx params (.ok r))
      (limited : ctx.limit = some limit) (passed : limit < r.delay) :
      Stops ⟨.deadlineExceeded, "context deadline exceeded", [], .empty⟩
  | reply {r : Reply} {s : Status} (asked : Asked b pool m ctx params (.ok r))
      (inTime : ∀ limit, ctx.limit = some limit → r.delay ≤ limit)
      (fails : r.Fails pool m s) : Stops s

end Stages

/-! ## What is sent -/

theorem metadataOf_of_sendable {es : List (String × Bytes)}
    (h : ∀ e ∈ es, isName e.1 ∧ lowerName e.1 = e.1 ∧ isBinaryKey e.1 = false ∧ isValue e.2) :
    metadataOf es = .ok ⟨es⟩ := by
  induction es with
  | nil => rfl
  | cons e es ih =>
    obtain ⟨⟨hname, hlower, hbinary, hvalue⟩, hrest⟩ := List.forall_mem_cons.mp h
    have hkey : isTextKey e.1 = true := by rw [isTextKey, hname, hlower, hbinary]; rfl
    simp only [metadataOf, hkey, hvalue, hlower, ih hrest]
    rfl

theorem metadataOf_outgoing {h : Headers} (hnamed : h.Named) :
    metadataOf (outgoing h) = .ok ⟨outgoing h⟩ :=
  metadataOf_of_sendable fun _ he => mem_outgoing hnamed he

theorem fullName_messageType {files : List Schema.FileDecl} {pool : Pool}
    (h : Pool.link files = .ok pool) (name : String) : (pool.messageType name).fullName = name := by
  obtain ⟨_, messages, _, _, htable, -⟩ := exists_linkSteps h
  unfold Pool.messageType
  rw [htable]
  cases ht : (Table.ofList MessageType.fullName messages).get? name with
  | none => rfl
  | some t => exact (Table.mem_of_ofList_get? ht).2

theorem type_of_decodeParams {pool : Pool} {m : MethodType} {params : Json}
    {payload : Proto.Message} (h : decodeParams pool m params = .ok payload) :
    payload.type = pool.inputType m := by
  unfold decodeParams at h
  split at h
  · cases h
    rfl
  · split at h
    · next message hmessage =>
      cases h
      obtain ⟨fields, -, rfl⟩ := Option.map_eq_some_iff.mp hmessage
      rfl
    · cases h

theorem decodeParams_eq_error {pool : Pool} {m : MethodType} {params : Json} {s : Status}
    (h : decodeParams pool m params = .error s) :
    s = ⟨.invalidArgument, invalidParams, [], .empty⟩ := by
  unfold decodeParams at h
  split at h
  · cases h
  · split at h
    · cases h
    · cases h
      rfl

/-! ## The handler -/

/-- The call that a handler reports for what the server says. -/
def callOf (pool : Pool) (m : MethodType) : Except String Reply → Mux.Call
  | .error cause => { outcome := .error ⟨⟨.unknown, cause, [], .empty⟩, none⟩ }
  | .ok r => { delay := r.delay, outcome := outcomeOf (resultOf pool m r) }

section Handler
variable {b : Backend} {pool : Pool} {m : MethodType} {ctx : Mux.Context} {params : Json}
  {files : List Schema.FileDecl}

theorem proxyHandler_of_error {s : Status} (h : decodeParams pool m params = .error s) :
    b.proxyHandler pool m ctx params = { outcome := .error ⟨s, none⟩ } := by
  rw [proxyHandler, h]

section Ready
variable (hlink : Pool.link files = .ok pool) (hready : b.notReady = none)
  (hnamed : ctx.headers.Named)

include hready in
theorem proxyHandler_of_unsendable {payload : Proto.Message}
    (h : decodeParams pool m params = .ok payload)
    (hpath : Target.parse? (utf8 m.path) = none) :
    b.proxyHandler pool m ctx params =
      { outcome := .error ⟨(ClientError.invalidPath m.path).status, none⟩ } := by
  rw [proxyHandler, h]
  simp only [unary, hready, pathOf, hpath]
  rfl

include hlink hready hnamed in
theorem proxyHandler_of_sendable {payload : Proto.Message} {target : Target}
    (h : decodeParams pool m params = .ok payload)
    (hpath : Target.parse? (utf8 m.path) = some target) :
    b.proxyHandler pool m ctx params =
      callOf pool m (b.call ⟨target.path, sentMetadata ⟨outgoing ctx.headers⟩ ctx.limit,
        payload.toBytes pool⟩) := by
  have htype : payload.type.fullName = m.input := by
    rw [type_of_decodeParams h, Pool.inputType, fullName_messageType hlink]
  rw [proxyHandler, h]
  simp only [unary, hready, pathOf, hpath, metadataOf_outgoing hnamed, encodeRequest, htype, if_true, bind,
    Except.bind]
  cases b.call ⟨target.path, sentMetadata ⟨outgoing ctx.headers⟩ ctx.limit,
    payload.toBytes pool⟩ <;> rfl

end Ready

/-! ## The deadline -/

/-- What takes no time is not late. -/
theorem within_of_zero (outcome : Mux.Outcome) (limit : Option Duration) :
    ({ outcome := outcome } : Mux.Call).within limit = outcome :=
  Mux.Call.within_of_le fun l _ => Nat.zero_le l.nanos

/-! ## How the call ends -/

section Ends
variable (hlink : Pool.link files = .ok pool) (hready : b.notReady = none)
  (hnamed : ctx.headers.Named)
include hlink hready hnamed

theorem proxyHandler_of_asked {answer : Except String Reply}
    (h : Asked b pool m ctx params answer) :
    b.proxyHandler pool m ctx params = callOf pool m answer := by
  obtain ⟨payload, target, hparams, hpath, hcall⟩ := h.sent
  rw [proxyHandler_of_sendable hlink hready hnamed hparams hpath, hcall]

theorem Completes.within {result : Json} {metadata : Metadata}
    (h : Completes b pool m ctx params result metadata) :
    (b.proxyHandler pool m ctx params).within ctx.limit = .ok ⟨result, metadata⟩ := by
  obtain ⟨hasked, hlimit, hr⟩ := h
  rw [proxyHandler_of_asked hlink hready hnamed hasked, callOf, Mux.Call.within_of_le hlimit,
    hr.resultOf]
  rfl

theorem Stops.within {s : Status} (h : Stops b pool m ctx params s) :
    (b.proxyHandler pool m ctx params).within ctx.limit = .error ⟨s, none⟩ := by
  cases h with
  | params hinvalid =>
    cases hparams : decodeParams pool m params with
    | ok payload => exact absurd hparams (hinvalid payload)
    | error s =>
      rw [proxyHandler_of_error hparams, within_of_zero, decodeParams_eq_error hparams]
  | path hparams hpath =>
    rw [proxyHandler_of_unsendable hready hparams hpath, within_of_zero]
    rfl
  | unanswered hasked =>
    rw [proxyHandler_of_asked hlink hready hnamed hasked, callOf, within_of_zero]
  | @late r limit hasked hlimit hpassed =>
    rw [proxyHandler_of_asked hlink hready hnamed hasked, callOf, hlimit]
    exact if_pos hpassed
  | reply hasked hlimit hr =>
    rw [proxyHandler_of_asked hlink hready hnamed hasked, callOf, Mux.Call.within_of_le hlimit,
      hr.resultOf]
    rfl

end Ends

end Handler

/-! ## The answer to the client -/

theorem respond_ok {o : Mux.Options} (hm : o.marshaler = .json) (e : Envelope) (result : Json)
    (metadata : Metadata) :
    Mux.respond e (.ok ⟨result, metadata⟩) o.marshaler o.pool =
      Mux.successResponse (e.success result).print metadata .json := by
  rw [hm]
  rfl

theorem respond_error {o : Mux.Options} (hm : o.marshaler = .json) (e : Envelope) (s : Status) :
    Mux.respond e (.error ⟨s, none⟩) o.marshaler o.pool =
      { status := s.code.httpStatus
        headers := forward (Mux.errorHeaders s .json) s.metadata
        body := (e.failure ⟨s.code.number, s.message, s.detailsJson o.pool⟩).print } := by
  rw [hm]
  rfl

/-! ## Routed calls -/

/-- A method with a route is handled by its proxy, whatever the table held before. -/
theorem handler_of_route {b : Backend} {pool : Pool} {mux : Mux} {ms : List Schema.Method}
    {name : String} {m : MethodType} (h : (routes pool ms).get? name = some m) :
    (b.withHandlers pool mux ms).handlers.get? name = some (b.proxyHandler pool m) := by
  have hmem : name ∈ ms.map Schema.Method.rpcName := by
    have hsome : ((routes pool ms).get? name).isSome := by rw [h]; rfl
    rcases Table.isSome_get?_fill.mp hsome with hmem | hempty
    · exact hmem
    · cases hempty
  have hfill : (b.withHandlers pool mux ms).handlers.get? name =
      ((routes pool ms).get? name).map (b.proxyHandler pool) := by
    rw [withHandlers, Table.get?_fill_of_mem .empty hmem]
    exact Table.get?_fill_map (b.proxyHandler pool) ms name
  rw [hfill, h, Option.map_some]

section Served
variable {files : List Schema.FileDecl} {pool : Pool} {b : Backend} {mux : Mux} {q : Http.Request}
  {e : Envelope} {m : MethodType} (hlink : Pool.link files = .ok pool) (hready : b.notReady = none)
  (hmarshaler : mux.options.marshaler = .json) (hnamed : q.headers.Named)
  (haccept : mux.accept q = .ok e)
  (hhandler : mux.handlers.get? e.method = some (b.proxyHandler pool m))

include haccept hhandler in
theorem serve_eq_respond :
    mux.serve q =
      Mux.respond e
        ((b.proxyHandler pool m ⟨q.uri, q.headers, mux.limitOf q.headers⟩
          (.ofOption e.params)).within (mux.limitOf q.headers))
        mux.options.marshaler mux.options.pool := by
  simp only [Mux.serve, haccept, Mux.dispatch, hhandler]

include hlink hready hmarshaler hnamed haccept hhandler

theorem Completes.serve {result : Json} {metadata : Metadata}
    (h : Completes b pool m ⟨q.uri, q.headers, mux.limitOf q.headers⟩ (.ofOption e.params) result
      metadata) :
    mux.serve q = Mux.successResponse (e.success result).print metadata .json := by
  rw [serve_eq_respond haccept hhandler, h.within hlink hready hnamed, respond_ok hmarshaler]

theorem Stops.serve {s : Status}
    (h : Stops b pool m ⟨q.uri, q.headers, mux.limitOf q.headers⟩ (.ofOption e.params) s) :
    mux.serve q =
      { status := s.code.httpStatus
        headers := forward (Mux.errorHeaders s .json) s.metadata
        body := (e.failure ⟨s.code.number, s.message, s.detailsJson mux.options.pool⟩).print } := by
  rw [serve_eq_respond haccept hhandler, h.within hlink hready hnamed, respond_error hmarshaler]

end Served

/-- A call of a method without parameters. -/
def callTo (method : String) : Http.Request where
  method := "POST"
  uri := ⟨⟨[slash], none⟩⟩
  headers := ⟨[("content-type", utf8 "application/json"), ("grpc-metadata-x-user", utf8 "ann")]⟩
  body := .ofBytes (utf8 ("\x7b\"id\":1,\"method\":\"" ++ method ++ "\"\x7d"))

def calling (method : String) : Envelope := { id := some (.int 1), method := method }

end RpcGateway.Backend
