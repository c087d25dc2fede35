import RpcGateway.Proofs.Mux.Exits

/-!
Which requests are decoded. A request is either turned away before its method is looked up, for its
headers or its body, or it is one envelope; the routing table has no part in that.
-/
namespace RpcGateway
open Http Rpc

theorem Http.Body.read_eq_ok_iff {limit : Nat} {body : Body} {bytes : Bytes} :
    body.read limit = .ok bytes ↔
      body.bytes.length ≤ limit ∧ body.fault = none ∧ body.bytes = bytes := by
  rw [Body.read_eq]
  by_cases hl : limit < body.bytes.length
  · simp [hl, Nat.not_le.mpr hl]
  · rw [if_neg hl]
    cases body.fault <;> simp [Nat.not_lt.mp hl]

theorem Envelope.ofBody_eq_ok_iff {s : Bytes} {m : Envelope} :
    Envelope.ofBody s = .ok m ↔ Incoming.parse s = .ok (.single m) := by
  unfold Envelope.ofBody
  rcases Incoming.parse s with fault | ⟨m'⟩ | ⟨batch⟩ <;> simp

theorem Incoming.parse_eq_single_iff {s : Bytes} {m : Envelope} :
    Incoming.parse s = .ok (.single m) ↔ beginsArray s = false ∧ Envelope.parse s = .ok m := by
  unfold Incoming.parse
  cases hb : beginsArray s with
  | true => cases Json.entire (Envelope.readBatch s.length) s <;> simp [Except.map]
  | false => cases Envelope.parse s <;> simp [Except.map]

namespace Mux

/-- A request that is turned away: for its verb, a declared length above the cap, its content type,
or a body that is too long, breaks off, is no JSON envelope or is a batch. -/
inductive TurnedAway (cap : Nat) (q : Request) : Prop
  | verb (other : q.method ≠ "POST")
  | declared (exceeds : DeclaresOver q.headers cap)
  | media (other : hasJsonContent q.headers = false)
  | long (exceeds : cap < q.body.bytes.length)
  | broken (cause : String) (fault : q.body.fault = some cause)
  | unreadable (fault : Json.Fault) (parsed : Incoming.parse q.body.bytes = .error fault)
  | batch (envelopes : List Envelope)
      (parsed : Incoming.parse q.body.bytes = .ok (.batch envelopes))

/-- A request that passes all checks and whose body is one envelope. -/
structure Decodes (cap : Nat) (q : Request) (m : Envelope) : Prop where
  verb : q.method = "POST"
  declared : ¬ DeclaresOver q.headers cap
  media : hasJsonContent q.headers = true
  length : q.body.bytes.length ≤ cap
  unbroken : q.body.fault = none
  parsed : Incoming.parse q.body.bytes = .ok (.single m)

theorem turnedAway_or_decodes (cap : Nat) (q : Request) :
    TurnedAway cap q ∨ ∃ m, Decodes cap q m := by
  by_cases hv : q.method = "POST"
  · by_cases hd : DeclaresOver q.headers cap
    · exact .inl (.declared hd)
    cases hj : hasJsonContent q.headers with
    | false => exact .inl (.media hj)
    | true =>
      by_cases hl : cap < q.body.bytes.length
      · exact .inl (.long hl)
      cases hf : q.body.fault with
      | some cause => exact .inl (.broken cause hf)
      | none =>
        cases hp : Incoming.parse q.body.bytes with
        | error fault => exact .inl (.unreadable fault hp)
        | ok incoming =>
          cases incoming with
          | batch envelopes => exact .inl (.batch envelopes hp)
          | single m => exact .inr ⟨m, hv, hd, hj, Nat.not_lt.mp hl, hf, hp⟩
  · exact .inl (.verb hv)

theorem TurnedAway.not_decodes {cap : Nat} {q : Request} (h : TurnedAway cap q) (m : Envelope) :
    ¬ Decodes cap q m := by
  intro hd
  cases h with
  | verb hv => exact hv hd.verb
  | declared ho => exact hd.declared ho
  | media hj => exact Bool.false_ne_true (hj.symm.trans hd.media)
  | long hl => exact Nat.not_lt.mpr hd.length hl
  | broken cause hf => cases hf.symm.trans hd.unbroken
  | unreadable fault hp => cases hp.symm.trans hd.parsed
  | batch envelopes hp => cases hp.symm.trans hd.parsed

theorem accept_eq_ok_iff {mux : Mux} {q : Request} {m : Envelope} :
    mux.accept q = .ok m ↔ Decodes mux.options.maxBodyBytes q m := by
  have hdecodes : Decodes mux.options.maxBodyBytes q m ↔
      checkRequest q.method q.headers mux.options.maxBodyBytes = .ok () ∧
        q.body.read mux.options.maxBodyBytes = .ok q.body.bytes ∧
        Envelope.ofBody q.body.bytes = .ok m := by
    rw [checkRequest_eq_ok_iff, Body.read_eq_ok_iff, Envelope.ofBody_eq_ok_iff]
    constructor
    · rintro ⟨hv, hd, hj, hl, hf, hp⟩
      exact ⟨⟨hv, hd, hj⟩, ⟨hl, hf, rfl⟩, hp⟩
    · rintro ⟨⟨hv, hd, hj⟩, ⟨hl, hf, -⟩, hp⟩
      exact ⟨hv, hd, hj, hl, hf, hp⟩
  rw [hdecodes]
  unfold accept
  dsimp only
  cases checkRequest q.method q.headers mux.options.maxBodyBytes with
  | error e => simp
  | ok =>
    cases hr : q.body.read mux.options.maxBodyBytes with
    | error e => simp
    | ok bytes =>
      obtain ⟨-, -, rfl⟩ := Body.read_eq_ok_iff.mp hr
      cases hb : Envelope.ofBody q.body.bytes <;> simp [hb]

theorem serve_of_decodes {mux : Mux} {q : Request} {m : Envelope}
    (h : Decodes mux.options.maxBodyBytes q m) :
    mux.serve q =
      respond m (mux.dispatch q.uri q.headers m) mux.options.marshaler mux.options.pool := by
  rw [serve, accept_eq_ok_iff.mpr h]

theorem dispatch_of_routed {mux : Mux} {handler : Handler} (q : Request) {m : Envelope}
    (h : mux.handlers.get? m.method = some handler) :
    mux.dispatch q.uri q.headers m =
      (handler ⟨q.uri, q.headers, mux.limitOf q.headers⟩ (.ofOption m.params)).within
        (mux.limitOf q.headers) := by
  unfold dispatch
  rw [h]

end Mux

end RpcGateway
