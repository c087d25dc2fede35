import RpcGateway.Proofs.Envelope.Printed
import RpcGateway.Proofs.Mux.Acceptance

/-!
The id of a request in its response. It is compared as it stands in the two bodies, each the text of
an object, and as values that the reader of JSON gives: integers of 64 bits are exact, and other
numbers are those of double precision.
-/
namespace RpcGateway.Mux
open Http Json

theorem parse_of_accept {mux : Mux} {q : Request} {m : Envelope} (h : mux.accept q = .ok m) :
    beginsArray q.body.bytes = false ∧ Envelope.parse q.body.bytes = .ok m :=
  Incoming.parse_eq_single_iff.mp (accept_eq_ok_iff.mp h).parsed

/-- Whatever becomes of a decoded request, the answer is an envelope with its id. -/
theorem body_of_accept {mux : Mux} {q : Request} {m : Envelope}
    (hm : mux.options.marshaler.WritesJson) (h : mux.accept q = .ok m) :
    ∃ reply : Envelope, reply.id = m.id ∧ (mux.serve q).body = reply.print := by
  obtain ⟨status, reply, hr, -, hb⟩ :=
    reports_respond hm m (mux.dispatch q.uri q.headers m)
  refine ⟨reply, hr.answers.id, ?_⟩
  rw [serve, h]
  exact hb

/-- The answer to a request has the id of the request under its name, written as that value is
printed, whatever becomes of the call; only a `null` is left out. What the id of the answer is read
as is the id of the request exactly if that is not `null` and each number in it that is no integer
of 64 bits is read back from its own text. -/
theorem id_echoed_iff (mux : Mux) (q : Request) {m : Envelope} {v : Json}
    (hm : mux.options.marshaler.WritesJson) (ha : mux.accept q = .ok m)
    (hv : HasMember q.body.bytes "id" v) :
    (HasMember (mux.serve q).body "id" v ↔
      v ≠ .null ∧ ∀ x, v.Holds x → (Json.double x).ReadsBack) ∧
    ∃ ms, memberInputs (mux.serve q).body = .ok ms ∧
      (v = .null → ∀ s, ("id", s) ∉ ms) ∧
      (v ≠ .null → ∃ rest, ("id", v.print ++ rest) ∈ ms) := by
  obtain ⟨hsingle, hparse⟩ := parse_of_accept ha
  obtain ⟨hid, hc⟩ := Envelope.id_of_hasMember hsingle hparse hv
  obtain ⟨reply, hreply, hbody⟩ := body_of_accept hm ha
  obtain ⟨ms, hms, hfrom, hto⟩ := Envelope.memberInputs_print reply
  rw [hid] at hreply
  rw [hbody]
  by_cases hnull : v = .null
  · subst hnull
    have hnone : ∀ s, ("id", s) ∉ ms := by
      intro s hs
      obtain ⟨w, rest, hw, -⟩ := hfrom s hs
      rw [hreply] at hw
      cases hw
    refine ⟨⟨?_, fun h => absurd rfl h.1⟩, ms, hms, fun _ => hnone, fun h => absurd rfl h⟩
    rintro ⟨ms', s, rest, hms', hs, -⟩
    obtain rfl : ms' = ms := Except.ok.inj (hms'.symm.trans hms)
    exact absurd hs (hnone s)
  · have hsome : reply.id = some v := by
      rw [hreply]
      cases v with
      | null => exact absurd rfl hnull
      | _ => rfl
    refine ⟨?_, ms, hms, fun h => absurd h hnull, fun _ => hto v hsome⟩
    rw [Envelope.hasMember_print_iff hsome hc, hc.rereads.self]
    exact ⟨fun h => ⟨hnull, h⟩, fun h => h.2⟩

/-- Reading rounds a number more than once, so the text of what was read may be read as its
neighbour. -/
example : (parse (utf8 "90.869393181271791")).map print = .ok (utf8 "90.86939318127179") ∧
    (parse (utf8 "90.86939318127179")).map print = .ok (utf8 "90.8693931812718") := by
  decide +kernel

/-! ## Two calls of a method that nobody takes -/

/-- A call with this body. -/
def post (body : String) : Request where
  method := "POST"
  uri := ⟨⟨[slash], none⟩⟩
  headers := ⟨[("content-type", utf8 "application/json")]⟩
  body := ⟨[utf8 body], none⟩

/-- The text of a nested id with its members out of order, and what follows it. -/
def nestedTail : String :=
  " \x7b\"b\":[1.5,\"\\u00e9\\n\"],\"a\":18446744073709551615\x7d,\"method\":\"A.B\"\x7d"

/-- A call whose id has an escape in its name and stands behind two members of one other name, of
which the first has no value that could be read. -/
def nestedCall : Request := post ("\x7b\"x\":1e999,\"x\":[],\"\\u0069d\":" ++ nestedTail)

def nestedId : Json :=
  .obj [("a", .int 18446744073709551615), ("b", .arr [.double ⟨0x3FF8000000000000⟩, .str "é\n"])]

def nestedEnvelope : Envelope := { id := some nestedId, method := "A.B" }

theorem nestedCall_id : HasMember nestedCall.body.bytes "id" nestedId :=
  ⟨[("x", utf8 ("1e999,\"x\":[],\"\\u0069d\":" ++ nestedTail)),
      ("x", utf8 ("[],\"\\u0069d\":" ++ nestedTail)), ("id", utf8 nestedTail),
      ("method", utf8 "\"A.B\"\x7d")],
    utf8 nestedTail, utf8 ",\"method\":\"A.B\"\x7d", by decide, by simp, rfl⟩

theorem id_echoed_iff_nested :
    (default : Mux).options.marshaler.WritesJson ∧
    (default : Mux).accept nestedCall = .ok nestedEnvelope ∧
    HasMember nestedCall.body.bytes "id" nestedId ∧
    HasMember ((default : Mux).serve nestedCall).body "id" nestedId := by
  have hm : (default : Mux).options.marshaler.WritesJson := Marshaler.json_writesJson
  have ha : (default : Mux).accept nestedCall = .ok nestedEnvelope := rfl
  have hback : (Json.double ⟨0x3FF8000000000000⟩).ReadsBack := by
    have htext : print (.double ⟨0x3FF8000000000000⟩) = utf8 "1.5" := by decide +kernel
    rw [ReadsBack, htext]
    rfl
  refine ⟨hm, ha, nestedCall_id, (id_echoed_iff default nestedCall hm ha nestedCall_id).1.mpr ?_⟩
  refine ⟨Json.noConfusion, fun x hx => ?_⟩
  cases hx with
  | obj hm hx =>
    simp only [List.mem_cons, List.not_mem_nil, or_false] at hm
    rcases hm with rfl | rfl
    · cases hx
    · cases hx with
      | arr hv hx =>
        simp only [List.mem_cons, List.not_mem_nil, or_false] at hv
        rcases hv with rfl | rfl
        · cases hx
          exact hback
        · cases hx

/-- A call whose id is `null`. -/
def nullCall : Request := post "\x7b\"jsonrpc\":\"2.0\",\"id\":null,\"method\":\"A.B\"\x7d"

def nullEnvelope : Envelope := { version := "2.0", method := "A.B" }

/-- The answer to it has no id at all. -/
theorem null_id_dropped :
    (default : Mux).options.marshaler = .json ∧
    (default : Mux).accept nullCall = .ok nullEnvelope ∧
    HasMember nullCall.body.bytes "id" .null ∧
    ∀ v, ¬ HasMember ((default : Mux).serve nullCall).body "id" v := by
  have hid : HasMember nullCall.body.bytes "id" .null :=
    ⟨[("jsonrpc", utf8 "\"2.0\",\"id\":null,\"method\":\"A.B\"\x7d"),
        ("id", utf8 "null,\"method\":\"A.B\"\x7d"), ("method", utf8 "\"A.B\"\x7d")],
      utf8 "null,\"method\":\"A.B\"\x7d", utf8 ",\"method\":\"A.B\"\x7d", by decide +kernel, by simp,
      rfl⟩
  have hnames : (memberInputs ((default : Mux).serve nullCall).body).map (List.map Prod.fst) =
      .ok ["jsonrpc", "method", "error"] := by decide +kernel
  refine ⟨rfl, rfl, hid, ?_⟩
  rintro v ⟨ms, s, rest, hms, hs, -⟩
  rw [hms] at hnames
  have hname : "id" ∈ ms.map Prod.fst := List.mem_map_of_mem hs
  rw [Except.ok.inj hnames] at hname
  exact absurd hname (by decide)

end RpcGateway.Mux
