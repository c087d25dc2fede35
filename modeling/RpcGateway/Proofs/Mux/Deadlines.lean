import RpcGateway.Proofs.Mux.Acceptance
import RpcGateway.Proofs.Rpc.TimeLimits

/-!
How long a call may take. The bound is the smaller of the configured limit and the one that the
first header of the request sends; a call that takes longer is answered as late, one that takes less
as if nothing bounded it. Delays and limits are compared exactly, and the clock is taken to reach
every bound.
-/
namespace RpcGateway
open Http Rpc

namespace Mux

/-! ## The bound of a call -/

/-- The limits of a call: the configured one, and the one that the first header of its name is. -/
inductive Limits (mux : Mux) (h : Headers) : Duration → Prop
  | configured {d : Duration} (set : mux.options.timeout = some d) : Limits mux h d
  | sent {value : Bytes} {d : Duration} (first : h.get? timeoutHeader = some value)
      (reads : IsLimit value d) : Limits mux h d

/-- The smallest limit of a call. -/
structure Bounds (mux : Mux) (h : Headers) (limit : Duration) : Prop where
  limits : Limits mux h limit
  least : ∀ d, Limits mux h d → limit ≤ d

theorem sentText_eq_some_iff {h : Headers} {text : String} :
    (h.text? timeoutHeader).bind ofUtf8? = some text ↔
      ∃ value, h.get? timeoutHeader = some value ∧ isVisible value = true ∧ utf8 text = value := by
  rw [Option.bind_eq_some_iff]
  constructor
  · rintro ⟨value, ht, hu⟩
    obtain ⟨hget, hvis⟩ := text?_eq_some_iff.mp ht
    exact ⟨value, hget, hvis, (eq_utf8_of_ofUtf8? hu).symm⟩
  · rintro ⟨value, hget, hvis, rfl⟩
    exact ⟨utf8 text, text?_eq_some_iff.mpr ⟨hget, hvis⟩, ofUtf8?_utf8 text⟩

/-- The text that a header sends is never cut inside of a character. -/
theorem exists_parseTimeout_of_sent {h : Headers} {text : String}
    (ht : (h.text? timeoutHeader).bind ofUtf8? = some text) :
    ∃ limit, parseTimeout text = .ok limit := by
  obtain ⟨value, -, hvis, rfl⟩ := sentText_eq_some_iff.mp ht
  exact exists_parseTimeout_of_isVisible hvis

theorem inboundLimit_eq_some_iff {h : Headers} {d : Duration} :
    inboundLimit h = some d ↔ ∃ value, h.get? timeoutHeader = some value ∧ IsLimit value d := by
  unfold inboundLimit
  constructor
  · intro hd
    split at hd
    · cases hd
    · next text htext =>
      obtain ⟨value, hget, -, rfl⟩ := sentText_eq_some_iff.mp htext
      obtain ⟨limit, hlimit⟩ := exists_parseTimeout_of_sent htext
      rw [hlimit] at hd
      change limit = some d at hd
      exact ⟨utf8 text, hget, parseTimeout_eq_ok_some_iff.mp (hd ▸ hlimit)⟩
  · rintro ⟨value, hget, hlimit⟩
    -- What is a limit is visible, so the header is never dropped before it is read.
    obtain ⟨text, rfl⟩ := exists_utf8_of_ascii (lt_of_isVisible hlimit.isVisible)
    rw [sentText_eq_some_iff.mpr ⟨utf8 text, hget, hlimit.isVisible, rfl⟩]
    show (parseTimeout text).toOption.join = some d
    rw [parseTimeout_eq_ok_some_iff.mpr hlimit]
    rfl

theorem limits_iff {mux : Mux} {h : Headers} {d : Duration} :
    Limits mux h d ↔ mux.options.timeout = some d ∨ inboundLimit h = some d := by
  rw [inboundLimit_eq_some_iff]
  constructor
  · rintro (hset | ⟨hfirst, hreads⟩)
    · exact .inl hset
    · exact .inr ⟨_, hfirst, hreads⟩
  · rintro (hset | ⟨value, hfirst, hreads⟩)
    · exact .configured hset
    · exact .sent hfirst hreads

theorem shorter_eq_some_iff {a b : Option Duration} {limit : Duration} :
    shorter a b = some limit ↔
      (a = some limit ∨ b = some limit) ∧ ∀ d, a = some d ∨ b = some d → limit ≤ d := by
  have hself : ∀ {d limit : Duration}, d = limit → limit ≤ d := by
    rintro d limit rfl
    exact Nat.le_refl d.nanos
  cases a with
  | none =>
    cases b with
    | none => simp [shorter]
    | some b => simpa [shorter] using hself
  | some a =>
    cases b with
    | none => simpa [shorter] using hself
    | some b => simp [shorter, or_imp, forall_and, Duration.min_eq_iff]

/-- What a handler is given as its limit is the bound of its call. -/
theorem limitOf_eq_some_iff {mux : Mux} {h : Headers} {limit : Duration} :
    mux.limitOf h = some limit ↔ Bounds mux h limit := by
  rw [limitOf, shorter_eq_some_iff]
  constructor
  · rintro ⟨his, hleast⟩
    exact ⟨limits_iff.mpr his, fun d hd => hleast d (limits_iff.mp hd)⟩
  · rintro ⟨his, hleast⟩
    exact ⟨limits_iff.mp his, fun d hd => hleast d (limits_iff.mpr hd)⟩

theorem shorter_eq_none_iff {a b : Option Duration} :
    shorter a b = none ↔ a = none ∧ b = none := by
  cases a <;> cases b <;> simp [shorter]

theorem exists_bounds_of_limits {mux : Mux} {h : Headers} {d : Duration} (hd : Limits mux h d) :
    ∃ limit, Bounds mux h limit ∧ limit ≤ d := by
  cases hlimit : mux.limitOf h with
  | some limit =>
    have hbounds := limitOf_eq_some_iff.mp hlimit
    exact ⟨limit, hbounds, hbounds.least d hd⟩
  | none =>
    obtain ⟨hset, hsent⟩ := shorter_eq_none_iff.mp hlimit
    rcases limits_iff.mp hd with hd | hd
    · cases hset.symm.trans hd
    · cases hsent.symm.trans hd

/-- A header that no text can be read from, or none of a limit, counts as absent. -/
theorem limitOf_of_unreadable {mux : Mux} {h : Headers}
    (hu : ∀ value, h.get? timeoutHeader = some value →
      isVisible value = false ∨ ∀ d, ¬ IsLimit value d) : mux.limitOf h = mux.options.timeout := by
  have hinbound : inboundLimit h = none := by
    rw [Option.eq_none_iff_forall_ne_some]
    intro d hd
    obtain ⟨value, hget, hlimit⟩ := inboundLimit_eq_some_iff.mp hd
    rcases hu value hget with hvis | hno
    · exact Bool.false_ne_true (hvis.symm.trans hlimit.isVisible)
    · exact hno d hlimit
  rw [limitOf, hinbound]
  cases mux.options.timeout <;> rfl

/-! ## Without any limit -/

/-- The routing table without its configured limit. -/
def untimed (mux : Mux) : Mux := { mux with options := { mux.options with timeout := none } }

end Mux

/-- The request without the limits that it sends. -/
def Http.Request.untimed (q : Request) : Request :=
  { q with headers := q.headers.remove Mux.timeoutHeader }

namespace Mux

theorem checkRequest_remove (method : String) (h : Headers) (cap : Nat) :
    checkRequest method (h.remove timeoutHeader) cap = checkRequest method h cap := by
  have htext : ∀ name, name ≠ timeoutHeader →
      (h.remove timeoutHeader).text? name = h.text? name := by
    intro name hname
    unfold Headers.text?
    rw [Headers.get?_remove, if_neg (Ne.symm hname)]
  have hlength : declaredLength (h.remove timeoutHeader) = declaredLength h := by
    unfold declaredLength
    rw [htext _ (by decide)]
  have hcontent : hasJsonContent (h.remove timeoutHeader) = hasJsonContent h := by
    unfold hasJsonContent
    rw [htext _ (by decide)]
  unfold checkRequest
  rw [hlength, hcontent]

theorem accept_untimed (mux : Mux) (q : Request) : mux.untimed.accept q.untimed = mux.accept q := by
  unfold accept
  simp only [untimed, Http.Request.untimed, checkRequest_remove]

theorem limitOf_untimed (mux : Mux) (q : Request) :
    mux.untimed.limitOf q.untimed.headers = none := by
  apply limitOf_of_unreadable
  intro value hget
  rw [Http.Request.untimed, Headers.get?_remove, if_pos rfl] at hget
  cases hget

/-- What is not called takes no time. -/
theorem serve_untimed_of_uncalled {mux : Mux} {q : Request}
    (h : ∀ m, Decodes mux.options.maxBodyBytes q m → mux.handlers.get? m.method = none) :
    mux.serve q = mux.untimed.serve q.untimed := by
  unfold serve
  rw [accept_untimed]
  cases ha : mux.accept q with
  | error response => rfl
  | ok m =>
    have hnone := h m (accept_eq_ok_iff.mp ha)
    have huntimed : mux.untimed.handlers.get? m.method = none := hnone
    simp only [dispatch, hnone, huntimed]
    rfl

/-- Without any limit, a call is answered with its outcome, however long it takes. -/
theorem serve_untimed_of_finishes {mux : Mux} {q : Request} {m : Envelope} {handler : Handler}
    {t : Duration} {outcome : Outcome} (hm : Decodes mux.options.maxBodyBytes q m)
    (hr : mux.handlers.get? m.method = some handler)
    (hc : handler ⟨q.uri, q.untimed.headers, none⟩ (.ofOption m.params) = ⟨t, outcome⟩) :
    mux.untimed.serve q.untimed = respond m outcome mux.options.marshaler mux.options.pool := by
  have haccept : mux.untimed.accept q.untimed = .ok m := by
    rw [accept_untimed]
    exact accept_eq_ok_iff.mpr hm
  have hrouted : mux.untimed.handlers.get? m.method = some handler := hr
  rw [serve_of_decodes (accept_eq_ok_iff.mp haccept), dispatch_of_routed q.untimed hrouted,
    limitOf_untimed]
  exact congrArg (fun call : Call => respond m (call.within none) mux.options.marshaler
    mux.options.pool) hc

/-- The error envelope of a call that is late. -/
def lateEnvelope (m : Envelope) : Envelope := m.failure ⟨4, "context deadline exceeded", none⟩

/-! ## Late and in time -/

section Called
variable {mux : Mux} {q : Request} {m : Envelope} {handler : Handler} {t : Duration}
  {outcome : Outcome} (hm : Decodes mux.options.maxBodyBytes q m)
  (hr : mux.handlers.get? m.method = some handler)
  (hc : handler ⟨q.uri, q.headers, mux.limitOf q.headers⟩ (.ofOption m.params) = ⟨t, outcome⟩)
include hm hr hc

theorem serve_of_late {limit : Duration} (hb : Bounds mux q.headers limit) (hlt : limit < t) :
    mux.serve q = errorResponse m (.of .deadlineExceeded "context deadline exceeded")
      mux.options.marshaler mux.options.pool := by
  rw [serve_of_decodes hm, dispatch_of_routed q hr, hc, limitOf_eq_some_iff.mpr hb,
    Call.within_of_lt hlt]
  rfl

theorem serve_of_inTime (ht : ∀ limit, Bounds mux q.headers limit → t < limit) :
    mux.serve q = respond m outcome mux.options.marshaler mux.options.pool := by
  have hle : ∀ limit, mux.limitOf q.headers = some limit → t ≤ limit := fun limit hl =>
    Nat.le_of_lt (ht limit (limitOf_eq_some_iff.mp hl))
  rw [serve_of_decodes hm, dispatch_of_routed q hr, hc, Call.within_of_le hle]

end Called

theorem errorResponse_late_json (m : Envelope) (pool : Option Proto.Pool) :
    (errorResponse m (.of .deadlineExceeded "context deadline exceeded") .json pool).status = 504 ∧
      (errorResponse m (.of .deadlineExceeded "context deadline exceeded") .json pool).body =
        (lateEnvelope m).print :=
  ⟨rfl, rfl⟩

/-- Every header is read as a limit or counts as absent, and none makes the bound longer than the
configured limit. What is not called is answered as if there was no limit. A call whose bound passes
before its handler finishes is answered as late, and a call that finishes before its bound, or has
none, with the outcome of its handler: just as without any limit, if the handler then ends the
same. -/
theorem serve_within_bound (mux : Mux) (q : Request) :
    (∀ text, (q.headers.text? timeoutHeader).bind ofUtf8? = some text →
      ∃ limit, parseTimeout text = .ok limit) ∧
    ((∀ value, q.headers.get? timeoutHeader = some value →
      isVisible value = false ∨ ∀ d, ¬ IsLimit value d) →
        mux.limitOf q.headers = mux.options.timeout) ∧
    (∀ configured, mux.options.timeout = some configured →
      ∃ limit, Bounds mux q.headers limit ∧ limit ≤ configured) ∧
    ((∀ m, Decodes mux.options.maxBodyBytes q m → mux.handlers.get? m.method = none) →
      mux.serve q = mux.untimed.serve q.untimed) ∧
    ∀ m handler t outcome, Decodes mux.options.maxBodyBytes q m →
      mux.handlers.get? m.method = some handler →
      handler ⟨q.uri, q.headers, mux.limitOf q.headers⟩ (.ofOption m.params) = ⟨t, outcome⟩ →
        (∀ limit, Bounds mux q.headers limit → limit < t →
          mux.serve q = errorResponse m (.of .deadlineExceeded "context deadline exceeded")
            mux.options.marshaler mux.options.pool ∧
          (mux.options.marshaler = .json →
            (mux.serve q).status = 504 ∧ (mux.serve q).body = (lateEnvelope m).print)) ∧
        ((∀ limit, Bounds mux q.headers limit → t < limit) →
          mux.serve q = respond m outcome mux.options.marshaler mux.options.pool ∧
          (handler ⟨q.uri, q.untimed.headers, none⟩ (.ofOption m.params) = ⟨t, outcome⟩ →
            mux.serve q = mux.untimed.serve q.untimed)) := by
  refine ⟨fun text => exists_parseTimeout_of_sent, limitOf_of_unreadable, ?_,
    serve_untimed_of_uncalled, fun m handler t outcome hm hr hc => ⟨?_, ?_⟩⟩
  · intro configured hset
    exact exists_bounds_of_limits (.configured hset)
  · intro limit hb hlt
    have hlate := serve_of_late hm hr hc hb hlt
    refine ⟨hlate, fun hjson => ?_⟩
    rw [hlate, hjson]
    exact errorResponse_late_json m mux.options.pool
  · intro ht
    have hserved := serve_of_inTime hm hr hc ht
    refine ⟨hserved, fun hu => ?_⟩
    rw [hserved, serve_untimed_of_finishes hm hr hu]

/-! ## A configured limit and two that are sent -/

/-- A handler that takes some time for a result. -/
def taking (t : Duration) : Handler := fun _ _ => ⟨t, .ok { result := .bool true }⟩

/-- Two seconds for a method that takes some time. -/
def twoSeconds (t : Duration) : Mux :=
  ({ options := { timeout := some (.ofSeconds 2) } } : Mux).register "A.B" (taking t)

/-- The call with headers added that send limits, or what is none. -/
def sending (values : List Bytes) : Request :=
  { splitCall with headers := ⟨splitCall.headers.entries ++ values.map (timeoutHeader, ·)⟩ }

/-- The first header of two counts. The call is late after 1.6 seconds and in time after one. A
header that is not ASCII counts as absent. -/
theorem serve_within_bound_two_seconds :
    let q := sending [utf8 "1500m", utf8 "1m"]
    (q.headers.text? timeoutHeader).bind ofUtf8? = some "1500m" ∧
    (∃ limit, parseTimeout "1500m" = .ok limit) ∧
    isVisible (utf8 "5µ") = false ∧
    (twoSeconds .zero).limitOf (sending [utf8 "5µ"]).headers = some (.ofSeconds 2) ∧
    (∃ limit, Bounds (twoSeconds .zero) q.headers limit ∧ limit ≤ .ofSeconds 2) ∧
    (default : Mux).serve q = (default : Mux).untimed.serve q.untimed ∧
    Decodes defaultMaxBodyBytes q splitEnvelope ∧
    (∀ t, Bounds (twoSeconds t) q.headers (.ofMillis 1500)) ∧
    ((twoSeconds (.ofMillis 1600)).serve q).status = 504 ∧
    ((twoSeconds (.ofMillis 1600)).serve q).body = (lateEnvelope splitEnvelope).print ∧
    (twoSeconds (.ofSeconds 1)).serve q = (twoSeconds (.ofSeconds 1)).untimed.serve q.untimed := by
  intro q
  have htext : (q.headers.text? timeoutHeader).bind ofUtf8? = some "1500m" :=
    ofUtf8?_eq_some_iff.mpr rfl
  have hvis : isVisible (utf8 "5µ") = false := by decide
  have hm : Decodes defaultMaxBodyBytes q splitEnvelope :=
    accept_eq_ok_iff.mp (show (default : Mux).accept q = .ok splitEnvelope by rfl)
  have hb : ∀ t, Bounds (twoSeconds t) q.headers (.ofMillis 1500) := fun t =>
    limitOf_eq_some_iff.mp rfl
  have hunique : ∀ t limit, Bounds (twoSeconds t) q.headers limit → limit = .ofMillis 1500 := by
    intro t limit hl
    exact Option.some.inj ((limitOf_eq_some_iff.mpr hl).symm.trans (limitOf_eq_some_iff.mpr (hb t)))
  obtain ⟨hread, -, hconfigured, -, -⟩ := serve_within_bound (twoSeconds .zero) q
  have hlate := ((serve_within_bound (twoSeconds (.ofMillis 1600)) q).2.2.2.2 splitEnvelope _ _ _ hm
    rfl rfl).1 _ (hb _) (by decide)
  have hinTime := ((serve_within_bound (twoSeconds (.ofSeconds 1)) q).2.2.2.2 splitEnvelope _ _ _ hm
    rfl rfl).2
  refine ⟨htext, hread _ htext, hvis, ?_, hconfigured _ rfl, ?_, hm, hb, (hlate.2 rfl).1,
    (hlate.2 rfl).2, (hinTime ?_).2 rfl⟩
  · apply (serve_within_bound (twoSeconds .zero) (sending [utf8 "5µ"])).2.1
    intro value hfirst
    cases hfirst
    exact .inl hvis
  · exact (serve_within_bound default q).2.2.2.1 fun _ _ => rfl
  · intro limit hl
    rw [hunique _ limit hl]
    decide

end Mux

end RpcGateway
