import RpcGateway.Proofs.Collections
import RpcGateway.Proofs.Mux.Acceptance

/-!
What a response depends on. A request that is turned away is answered the same by every routing
table; any other is answered by the handler of its own method alone, as that was registered last,
and by what the handler makes of this request.
-/
namespace RpcGateway.Mux
open Http Rpc

/-! ## Registrations -/

/-- A mux after some registrations, in their order. -/
def registered (mux : Mux) (entries : List (String × Handler)) : Mux :=
  entries.foldl (fun mux e => mux.register e.1 e.2) mux

/-- The last registration of a method is that of a handler. -/
def LastFor (method : String) (handler : Handler) (entries : List (String × Handler)) : Prop :=
  ∃ before after, entries = before ++ (method, handler) :: after ∧ ∀ e ∈ after, e.1 ≠ method

theorem registered_eq (mux : Mux) (entries : List (String × Handler)) :
    mux.registered entries =
      { mux with handlers := mux.handlers.fill Prod.fst Prod.snd entries } := by
  induction entries generalizing mux with
  | nil => rfl
  | cons e entries ih => exact ih (mux.register e.1 e.2)

theorem LastFor.get?_registered {method : String} {handler : Handler}
    {entries : List (String × Handler)} (h : LastFor method handler entries) (mux : Mux) :
    (mux.registered entries).handlers.get? method = some handler := by
  obtain ⟨before, after, rfl, hafter⟩ := h
  have hother : method ∉ after.map Prod.fst := by
    intro hm
    obtain ⟨e, he, rfl⟩ := List.mem_map.mp hm
    exact hafter e he rfl
  have hlast : LastUnder Prod.fst (before ++ (method, handler) :: after) method (method, handler) :=
    ⟨before, after, rfl, rfl, hother⟩
  rw [registered_eq]
  exact Table.get?_fill_of_lastUnder hlast

/-! ## Two muxes with the same options -/

/-- What the handler of a request is given for its parameters. -/
inductive Passes (m : Envelope) : Json → Prop
  | absent (none : m.params = none) : Passes m .null
  | present {v : Json} (some : m.params = some v) : Passes m v

theorem Passes.eq_ofOption {m : Envelope} {p : Json} (h : Passes m p) : p = .ofOption m.params := by
  cases h with
  | absent hn => rw [hn]; rfl
  | present hs => rw [hs]; rfl

section Same
variable {mux₁ mux₂ : Mux} (ho : mux₁.options = mux₂.options)
include ho

theorem accept_congr (q : Request) : mux₁.accept q = mux₂.accept q := by
  unfold accept
  rw [ho]

theorem serve_congr_of_turnedAway {q : Request}
    (h : TurnedAway mux₁.options.maxBodyBytes q) : mux₁.serve q = mux₂.serve q := by
  unfold serve
  rw [← accept_congr ho q]
  cases ha : mux₁.accept q with
  | error response => rfl
  | ok m => exact absurd (accept_eq_ok_iff.mp ha) (h.not_decodes m)

/-- A decoded request is answered the same if its call ends the same. -/
theorem serve_congr_of_dispatch {q : Request} {m : Envelope}
    (h : Decodes mux₁.options.maxBodyBytes q m)
    (hd : mux₁.dispatch q.uri q.headers m = mux₂.dispatch q.uri q.headers m) :
    mux₁.serve q = mux₂.serve q := by
  have h' : Decodes mux₂.options.maxBodyBytes q m := ho ▸ h
  rw [serve_of_decodes h, serve_of_decodes h', hd, ho]

theorem limitOf_congr (headers : Headers) : mux₁.limitOf headers = mux₂.limitOf headers := by
  unfold limitOf
  rw [ho]

theorem dispatch_congr_of_handler (q : Request) {m : Envelope}
    (h : mux₁.handlers.get? m.method = mux₂.handlers.get? m.method) :
    mux₁.dispatch q.uri q.headers m = mux₂.dispatch q.uri q.headers m := by
  unfold dispatch
  rw [h, limitOf_congr ho]

end Same

/-- Two muxes with the same options give a request that is turned away the same response. A request
that is decoded they give the same response if they have the same handler for its method, or none;
if the two handlers make the same of its own address, headers, time limit and parameters; and if the
last registration of its method is the same, whatever was registered before it or for other
methods. -/
theorem serve_isolated {mux₁ mux₂ : Mux} (ho : mux₁.options = mux₂.options) (q : Request) :
    (TurnedAway mux₁.options.maxBodyBytes q → mux₁.serve q = mux₂.serve q) ∧
    ∀ m, Decodes mux₁.options.maxBodyBytes q m →
      (mux₁.handlers.get? m.method = mux₂.handlers.get? m.method →
        mux₁.serve q = mux₂.serve q) ∧
      (∀ handler₁ handler₂ params, mux₁.handlers.get? m.method = some handler₁ →
        mux₂.handlers.get? m.method = some handler₂ → Passes m params →
        let ctx : Context := ⟨q.uri, q.headers, mux₁.limitOf q.headers⟩
        (handler₁ ctx params).within ctx.limit = (handler₂ ctx params).within ctx.limit →
          mux₁.serve q = mux₂.serve q) ∧
      ∀ handler entries₁ entries₂, LastFor m.method handler entries₁ →
        LastFor m.method handler entries₂ →
          (mux₁.registered entries₁).serve q = (mux₂.registered entries₂).serve q := by
  refine ⟨serve_congr_of_turnedAway ho, fun m hm => ⟨?_, ?_, ?_⟩⟩
  · intro h
    exact serve_congr_of_dispatch ho hm (dispatch_congr_of_handler ho q h)
  · intro handler₁ handler₂ params h₁ h₂ hp ctx hsame
    apply serve_congr_of_dispatch ho hm
    rw [dispatch_of_routed q h₁, dispatch_of_routed q h₂, ← limitOf_congr ho, ← hp.eq_ofOption]
    exact hsame
  · intro handler entries₁ entries₂ h₁ h₂
    have hoptions : (mux₁.registered entries₁).options = (mux₂.registered entries₂).options := by
      rw [registered_eq, registered_eq]
      exact ho
    have hdecodes : Decodes (mux₁.registered entries₁).options.maxBodyBytes q m := by
      rw [registered_eq]
      exact hm
    apply serve_congr_of_dispatch hoptions hdecodes
    apply dispatch_congr_of_handler hoptions
    rw [h₁.get?_registered, h₂.get?_registered]

/-! ## A method that is registered twice -/

/-- A handler that always ends the same. -/
def answering (outcome : Outcome) : Handler := fun _ _ => { outcome := outcome }

/-- A handler that returns its parameters. -/
def echoing : Handler := fun _ params => { outcome := .ok { result := params } }

/-- A registration of the method, another one in its place, and one of another method. -/
def twice : List (String × Handler) :=
  [("A.B", answering (.ok { result := .bool true })), ("A.B", echoing),
    ("C.D", answering (.ok { result := .int 1 }))]

def once : List (String × Handler) := [("A.B", echoing)]

/-- A request that is turned away, and one that only the last registration of its method counts for.
That one has no parameters, so a handler that always returns `null` does as well. -/
theorem serve_isolated_registered_twice :
    TurnedAway defaultMaxBodyBytes { splitCall with method := "GET" } ∧
    ((default : Mux).registered twice).serve { splitCall with method := "GET" } =
      ((default : Mux).registered once).serve { splitCall with method := "GET" } ∧
    Decodes defaultMaxBodyBytes splitCall splitEnvelope ∧
    LastFor splitEnvelope.method echoing twice ∧ LastFor splitEnvelope.method echoing once ∧
    ((default : Mux).registered twice).serve splitCall =
      ((default : Mux).registered once).serve splitCall ∧
    Passes splitEnvelope .null ∧
    ((default : Mux).registered twice).serve splitCall =
      ((default : Mux).register "A.B" (answering (.ok { result := .null }))).serve splitCall := by
  have haway : TurnedAway defaultMaxBodyBytes { splitCall with method := "GET" } :=
    .verb (by decide)
  have hdecodes : Decodes defaultMaxBodyBytes splitCall splitEnvelope :=
    accept_eq_ok_iff.mp (show (default : Mux).accept splitCall = .ok splitEnvelope by rfl)
  have htwice : LastFor splitEnvelope.method echoing twice := by
    refine ⟨[("A.B", answering (.ok { result := .bool true }))],
      [("C.D", answering (.ok { result := .int 1 }))], rfl, ?_⟩
    intro e he
    rw [List.mem_singleton.mp he]
    decide
  have honce : LastFor splitEnvelope.method echoing once := ⟨[], [], rfl, fun e he => by cases he⟩
  have hnull : Passes splitEnvelope .null := .absent rfl
  have hrouted : ((default : Mux).registered twice).handlers.get? splitEnvelope.method =
      some echoing := htwice.get?_registered default
  have honceOptions : ((default : Mux).registered twice).options =
      ((default : Mux).registered once).options := rfl
  have hnullOptions : ((default : Mux).registered twice).options =
      ((default : Mux).register "A.B" (answering (.ok { result := .null }))).options := rfl
  have hsame : (default : Mux).options = (default : Mux).options := rfl
  refine ⟨haway, ?_, hdecodes, htwice, honce, ?_, hnull, ?_⟩
  · exact (serve_isolated honceOptions _).1 haway
  · exact ((serve_isolated hsame splitCall).2 _ hdecodes).2.2 echoing twice once htwice honce
  · exact ((serve_isolated hnullOptions splitCall).2 _ hdecodes).2.1 echoing _ .null hrouted rfl
      hnull rfl

end RpcGateway.Mux
