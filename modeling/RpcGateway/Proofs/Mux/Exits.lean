import RpcGateway.Mux.Dispatch
import RpcGateway.Proofs.Http.Admission

/-!
The exits of an exchange in the order in which they are tried. Before a body is decoded to one
envelope the answer is a plain text; from then on it is an envelope that repeats the request's id
and method, whichever way the call ends and whatever the marshaler refuses to write.
-/
namespace RpcGateway
open Http Rpc

/-- Whatever the marshaler writes is the plain JSON text of the envelope. It may refuse to write. -/
def Marshaler.WritesJson (m : Marshaler) : Prop :=
  ∀ envelope body, m.marshal envelope = .ok body → body = envelope.print

theorem Marshaler.json_writesJson : Marshaler.json.WritesJson := by
  intro envelope body h
  cases h
  rfl

/-- The cap counts the bytes of a body, and is noticed before a read error. -/
theorem Http.Body.read_eq (limit : Nat) (body : Body) :
    body.read limit =
      if limit < body.bytes.length then .error (.tooLarge limit)
      else match body.fault with
        | some cause => .error (.broken cause)
        | none => .ok body.bytes := by
  unfold Body.read Body.bytes
  rw [collectWithin_eq]
  by_cases h : limit < body.chunks.flatten.length
  · rw [if_pos h, if_pos h]
  · rw [if_neg h, if_neg h]
    cases body.fault <;> rfl

namespace Mux

/-- The status and the envelope that report an outcome. What the marshaler refuses is reported as
an internal error with the reason, and a refused error as a fixed one. -/
inductive Reports (o : Options) (m : Envelope) : Outcome → Nat → Envelope → Prop
  | result {output : Output} {body : Bytes}
      (h : o.marshaler.marshal (m.success output.result) = .ok body) :
      Reports o m (.ok output) 200 (m.success output.result)
  | unwritten {output : Output} {why : String} {status : Nat} {reply : Envelope}
      (h : o.marshaler.marshal (m.success output.result) = .error why)
      (hr : Reports o m (.error (.of .internal why)) status reply) :
      Reports o m (.ok output) status reply
  | error {failure : Failure} {body : Bytes}
      (h : o.marshaler.marshal (errorEnvelope m failure.status o.pool) = .ok body) :
      Reports o m (.error failure)
        (failure.httpStatus.getD failure.status.code.httpStatus)
        (errorEnvelope m failure.status o.pool)
  | fallback {failure : Failure} {why : String}
      (h : o.marshaler.marshal (errorEnvelope m failure.status o.pool) = .error why) :
      Reports o m (.error failure) 500
        (m.failure ⟨Code.internal.number, "failed to marshal error message", none⟩)

/-- An envelope of the protocol's version that repeats the id and the method of a request, and has
either a result or an error. -/
structure Answers (m reply : Envelope) : Prop where
  version : reply.version = "2.0"
  id : reply.id = m.id
  method : reply.method = m.method
  params : reply.params = none
  oneOutcome : reply.result.isSome = !reply.error.isSome

theorem Answers.success (m : Envelope) (result : Json) : Answers m (m.success result) :=
  ⟨rfl, rfl, rfl, rfl, rfl⟩

theorem Answers.failure (m : Envelope) (e : RpcError) : Answers m (m.failure e) :=
  ⟨rfl, rfl, rfl, rfl, rfl⟩

theorem Reports.answers {o : Options} {m reply : Envelope} {outcome : Outcome} {status : Nat}
    (h : Reports o m outcome status reply) : Answers m reply := by
  induction h with
  | result _ => exact .success m _
  | unwritten _ _ ih => exact ih
  | error _ => exact .failure m _
  | fallback _ => exact .failure m _

/-- What an error is answered with, by what the marshaler makes of its envelope. -/
theorem errorResponse_eq (m : Envelope) (failure : Failure) (o : Options) :
    errorResponse m failure o.marshaler o.pool =
      match o.marshaler.marshal (errorEnvelope m failure.status o.pool) with
      | .error _ => fallbackResponse m
      | .ok body =>
        { status := failure.httpStatus.getD failure.status.code.httpStatus
          headers := forward (errorHeaders failure.status o.marshaler) failure.status.metadata
          body := body } := rfl

theorem reports_errorResponse {o : Options} (hm : o.marshaler.WritesJson) (m : Envelope)
    (failure : Failure) :
    ∃ status reply, Reports o m (.error failure) status reply ∧
      (errorResponse m failure o.marshaler o.pool).status = status ∧
      (errorResponse m failure o.marshaler o.pool).body = reply.print := by
  rw [errorResponse_eq]
  cases hw : o.marshaler.marshal (errorEnvelope m failure.status o.pool) with
  | error why => exact ⟨_, _, .fallback hw, rfl, rfl⟩
  | ok body => exact ⟨_, _, .error hw, rfl, hm _ _ hw⟩

theorem reports_respond {o : Options} (hm : o.marshaler.WritesJson) (m : Envelope)
    (outcome : Outcome) :
    ∃ status reply, Reports o m outcome status reply ∧
      (respond m outcome o.marshaler o.pool).status = status ∧
      (respond m outcome o.marshaler o.pool).body = reply.print := by
  cases outcome with
  | error failure => exact reports_errorResponse hm m failure
  | ok output =>
    simp only [respond]
    cases hw : o.marshaler.marshal (m.success output.result) with
    | ok body => exact ⟨_, _, .result hw, rfl, hm _ _ hw⟩
    | error why =>
      obtain ⟨status, reply, hr, hs, hb⟩ := reports_errorResponse hm m (.of .internal why)
      exact ⟨status, reply, .unwritten hw hr, hs, hb⟩

/-! ## The exits before an envelope -/

section Admitted
variable {mux : Mux} {q : Request}
  (ha : checkRequest q.method q.headers mux.options.maxBodyBytes = .ok ())
include ha

end Admitted

/-- A call of that method in two chunks. -/
def splitCall : Request where
  method := "POST"
  uri := ⟨⟨[slash], none⟩⟩
  headers := ⟨[("content-type", utf8 "application/json"), ("content-length", utf8 "23")]⟩
  body := ⟨[utf8 "\x7b\"id\":7,", utf8 "\"method\":\"A.B\"\x7d"], none⟩

def splitEnvelope : Envelope := { id := some (.int 7), method := "A.B" }

end Mux

end RpcGateway
