import RpcGateway.Backend.Client
import RpcGateway.Proofs.Collections

/-!
What the reply of a server amounts to. It is a result if it ends with the status of success and all
its messages can be read; otherwise the first thing that is wrong gives the status of the failure.
-/
namespace RpcGateway.Backend
open Http Rpc Proto

/-- The status of a reply: the headers tell, or else the trailers. -/
def Reply.status (r : Reply) : Status :=
  ((Status.ofHeaders? r.headers).or (Status.ofHeaders? r.trailers)).getD missingStatus

/-- The messages of a reply are read unless its headers tell of a failure. -/
structure Reply.Read (r : Reply) : Prop where
  plain : encodingFault? r.headers = none
  goesOn : (Status.ofHeaders? r.headers).isSome → r.status.code = .ok

/-- A message that is the response type's and has a JSON form. -/
def Decodes (pool : Pool) (m : MethodType) (b : Bytes) : Prop :=
  ∃ json, decodeReply pool m b = .ok json

/-- The result of a reply is its first message, with the metadata of headers and trailers. -/
inductive Reply.Succeeds (pool : Pool) (m : MethodType) (r : Reply) : Json → Metadata → Prop
  | intro {first : Bytes} {rest : List Bytes} {result : Json} (read : r.Read)
      (ok : r.status.code = .ok) (messages : r.messages = first :: rest)
      (decoded : decodeReply pool m first = .ok result)
      (others : ∀ b ∈ rest, Decodes pool m b) :
      Succeeds pool m r result (r.headers.overlay r.trailers)

/-- How a reply fails. Failures before the first message has come have the metadata of the headers.
-/
inductive Reply.Fails (pool : Pool) (m : MethodType) (r : Reply) : Status → Prop
  | compressed {s : Status} (refused : encodingFault? r.headers = some s) : Fails pool m r s
  | atOnce (plain : encodingFault? r.headers = none)
      (told : (Status.ofHeaders? r.headers).isSome) (failed : r.status.code ≠ .ok) :
      Fails pool m r r.status
  | undecodable {before after : List Bytes} {b : Bytes} {why : String} (read : r.Read)
      (messages : r.messages = before ++ b :: after) (others : ∀ b' ∈ before, Decodes pool m b')
      (fault : decodeReply pool m b = .error ⟨.internal, why, [], .empty⟩) :
      Fails pool m r ⟨.internal, why, [], if before = [] then r.headers else .empty⟩
  | tooLong {before after : List Bytes} {b : Bytes} (read : r.Read)
      (messages : r.messages = before ++ b :: after) (others : ∀ b' ∈ before, Decodes pool m b')
      (long : maxMessageLength < b.length) :
      Fails pool m r
        ((messageTooLong b.length).overlay (if before = [] then r.headers else .empty))
  | atEnd (read : r.Read) (untold : Status.ofHeaders? r.headers = none)
      (decoded : ∀ b ∈ r.messages, Decodes pool m b) (failed : r.status.code ≠ .ok) :
      Fails pool m r (if r.messages = [] then r.status.overlay r.headers else r.status)
  | empty (read : r.Read) (ok : r.status.code = .ok) (messages : r.messages = []) :
      Fails pool m r missingMessage

/-! ## Messages -/

theorem decodeReply_of_long (pool : Pool) (m : MethodType) {b : Bytes}
    (h : maxMessageLength < b.length) :
    decodeReply pool m b = .error (messageTooLong b.length) := by
  rw [decodeReply, lengthFault?, if_pos h]

theorem Reply.status_of_headers {r : Reply} {s : Status}
    (h : Status.ofHeaders? r.headers = some s) : r.status = s := by
  rw [Reply.status, h]
  rfl

theorem failure?_eq_none_iff {s : Status} : s.failure? = none ↔ s.code = .ok := by
  unfold Status.failure?
  split <;> simp_all

theorem failure?_of_ne {s : Status} (h : s.code ≠ .ok) : s.failure? = some s := if_neg h

/-- A reply with the status of success does not fail at its end. -/
theorem endingFailure?_of_ok {r : Reply} (h : r.status.code = .ok) : endingFailure? r = none := by
  unfold endingFailure?
  cases hs : Status.ofHeaders? r.headers with
  | some s => rfl
  | none =>
    rw [Reply.status, hs, Option.none_or] at h
    exact failure?_eq_none_iff.mpr h

theorem endingFailure?_of_untold {r : Reply} (hs : Status.ofHeaders? r.headers = none)
    (h : r.status.code ≠ .ok) : endingFailure? r = some r.status := by
  unfold endingFailure?
  rw [Reply.status, hs, Option.none_or] at h ⊢
  exact failure?_of_ne h

/-- What is read of a reply that goes on is its body. -/
theorem resultOf_of_read {pool : Pool} {m : MethodType} {r : Reply} (h : r.Read) :
    resultOf pool m r = resultOfBody pool m r := by
  unfold resultOf
  rw [h.plain, Option.none_or]
  cases hs : Status.ofHeaders? r.headers with
  | none => rfl
  | some s =>
    have hok : s.code = .ok := Reply.status_of_headers hs ▸ h.goesOn (by rw [hs]; rfl)
    rw [Option.bind_some, failure?_eq_none_iff.mpr hok]

/-! ## Results and failures -/

/-- The first message that cannot be read gives the failure, with the metadata of the headers if it
is the first of all. -/
theorem resultOfBody_of_fault {pool : Pool} {m : MethodType} {r : Reply}
    {before after : List Bytes} {b : Bytes} {s : Status}
    (hmessages : r.messages = before ++ b :: after) (hothers : ∀ b' ∈ before, Decodes pool m b')
    (hfault : decodeReply pool m b = .error s) :
    resultOfBody pool m r = .error (if before = [] then s.overlay r.headers else s) := by
  rw [resultOfBody, hmessages]
  cases before with
  | nil =>
    simp only [List.nil_append, hfault]
    rfl
  | cons first others =>
    obtain ⟨⟨result, hresult⟩, hothers⟩ := List.forall_mem_cons.mp hothers
    simp only [List.cons_append, hresult, mapM_eq_error_of_first hothers hfault]
    rfl

theorem Reply.Succeeds.resultOf {pool : Pool} {m : MethodType} {r : Reply} {result : Json}
    {metadata : Metadata} (h : r.Succeeds pool m result metadata) :
    resultOf pool m r = .ok (result, metadata) := by
  obtain @⟨first, rest, _, hread, hok, hmessages, hfirst, hrest⟩ := h
  obtain ⟨jsons, hjsons⟩ := exists_mapM_eq_ok hrest
  rw [resultOf_of_read hread, resultOfBody, hmessages]
  simp only [hfirst, hjsons, endingFailure?_of_ok hok]
  rfl

theorem Reply.Fails.resultOf {pool : Pool} {m : MethodType} {r : Reply} {s : Status}
    (h : r.Fails pool m s) : resultOf pool m r = .error s := by
  cases h with
  | compressed hrefused =>
    rw [Backend.resultOf, hrefused]
    rfl
  | atOnce hplain htold hfailed =>
    obtain ⟨s, hs⟩ := Option.isSome_iff_exists.mp htold
    rw [Backend.resultOf, hplain, hs, Option.none_or, Option.bind_some]
    rw [Reply.status_of_headers hs] at hfailed ⊢
    rw [failure?_of_ne hfailed]
  | @undecodable before after b why hread hmessages hothers hfault =>
    rw [resultOf_of_read hread, resultOfBody_of_fault hmessages hothers hfault]
    split <;> rfl
  | @tooLong before after b hread hmessages hothers hlong =>
    have hfault := decodeReply_of_long pool m hlong
    rw [resultOf_of_read hread, resultOfBody_of_fault hmessages hothers hfault]
    split <;> rfl
  | atEnd hread huntold hdecoded hfailed =>
    have hend := endingFailure?_of_untold huntold hfailed
    rw [resultOf_of_read hread, resultOfBody]
    cases hmessages : r.messages with
    | nil => simp only [hend, if_true]
    | cons first rest =>
      rw [hmessages] at hdecoded
      obtain ⟨⟨result, hresult⟩, hrest⟩ := List.forall_mem_cons.mp hdecoded
      obtain ⟨jsons, hjsons⟩ := exists_mapM_eq_ok hrest
      simp only [hresult, hjsons, hend]
      rfl
  | empty hread hok hmessages =>
    rw [resultOf_of_read hread, resultOfBody, hmessages]
    simp only [endingFailure?_of_ok hok]

end RpcGateway.Backend
