import RpcGateway.Envelope.Reader
import RpcGateway.Proofs.Collections

/-!
The places of an envelope. Each member with a meaning has one, which it fills if it was empty; any
other member is skipped. That is all a member can do to what was read so far.
-/
namespace RpcGateway
open Json

/-! ## One member -/

section Members
variable {bound : Nat} {s rest : Bytes}

theorem exists_of_once {α σ : Type} {seen : Option α} {read : Bytes → Reading α} {store : α → σ}
    {state : σ} (h : once seen read store s = .ok (state, rest)) :
    seen = none ∧ ∃ u x, afterColon s = .ok u ∧ read u = .ok (x, rest) ∧ store x = state := by
  unfold once at h
  split at h
  · cases h
  split at h
  · cases h
  next u hu =>
  obtain ⟨⟨x, r⟩, hx, heq⟩ := exists_of_map_eq_ok h
  cases heq
  exact ⟨rfl, u, x, hu, hx, rfl⟩

theorem exists_of_skipMember {σ : Type} {state state' : σ}
    (h : skipMember bound state s = .ok (state', rest)) :
    state' = state ∧ ∃ u, afterColon s = .ok u ∧ skip bound u = .ok rest := by
  unfold skipMember at h
  split at h
  · cases h
  next u hu =>
  obtain ⟨r, hr, heq⟩ := exists_of_map_eq_ok h
  cases heq
  exact ⟨rfl, u, hu, hr⟩

end Members

/-! ## Places -/

namespace Envelope

/-- The members of an envelope that have a meaning. -/
inductive Place
  | version
  | id
  | method
  | params
  | result
  | error
  deriving DecidableEq

namespace Place

def name : Place → String
  | version => "jsonrpc"
  | id => "id"
  | method => "method"
  | params => "params"
  | result => "result"
  | error => "error"

theorem name_injective {p q : Place} (h : p.name = q.name) : p = q := by
  cases p <;> cases q <;> first | rfl | exact absurd h (by decide)

/-- What a member at the place is read as. -/
abbrev Content : Place → Type
  | version => String
  | id => Option Json
  | method => String
  | params => Option Json
  | result => Option Json
  | error => Option RpcError

def read (bound depth : Nat) : (p : Place) → Bytes → Reading p.Content
  | version => stringValue bound
  | id => optionalValue bound depth
  | method => stringValue bound
  | params => optionalValue bound depth
  | result => optionalValue bound depth
  | error => optional (RpcError.read bound depth)

/-- What is at the place where the member is missing. -/
def missing : (p : Place) → p.Content
  | version => ""
  | id => none
  | method => ""
  | params => none
  | result => none
  | error => none

end Place

def content (e : Envelope) : (p : Place) → p.Content
  | .version => e.version
  | .id => e.id
  | .method => e.method
  | .params => e.params
  | .result => e.result
  | .error => e.error

namespace Draft

def get (d : Draft) : (p : Place) → Option p.Content
  | .version => d.version
  | .id => d.id
  | .method => d.method
  | .params => d.params
  | .result => d.result
  | .error => d.error

def set (d : Draft) : (p : Place) → p.Content → Draft
  | .version, x => { d with version := some x }
  | .id, x => { d with id := some x }
  | .method, x => { d with method := some x }
  | .params, x => { d with params := some x }
  | .result, x => { d with result := some x }
  | .error, x => { d with error := some x }

variable {d d' : Draft} {p q : Place} {bound depth : Nat} {s rest : Bytes}

theorem content_finish (d : Draft) (p : Place) :
    d.finish.content p = (d.get p).getD p.missing := by
  have hjoin : ∀ {α : Type} (x : Option (Option α)), x.join = x.getD none := by
    rintro α (_ | x) <;> rfl
  cases p with
  | version => rfl
  | method => rfl
  | id => exact hjoin d.id
  | params => exact hjoin d.params
  | result => exact hjoin d.result
  | error => exact hjoin d.error

@[simp] theorem get_empty (p : Place) : ({} : Draft).get p = none := by
  cases p <;> rfl

@[simp] theorem get_set_self (d : Draft) (p : Place) (x : p.Content) :
    (d.set p x).get p = some x := by
  cases p <;> rfl

theorem get_set_ne (hpq : p ≠ q) (d : Draft) (x : p.Content) : (d.set p x).get q = d.get q := by
  cases p <;> cases q <;> first | rfl | exact absurd rfl hpq

theorem set_comm (hpq : p ≠ q) (d : Draft) (x : p.Content) (y : q.Content) :
    (d.set p x).set q y = (d.set q y).set p x := by
  cases p <;> cases q <;> first | rfl | exact absurd rfl hpq

theorem step_name (d : Draft) (p : Place) :
    Draft.step bound depth d p.name = once (d.get p) (p.read bound depth) (d.set p) := by
  funext s
  cases p <;> rfl

theorem step_other {k : String} (hk : ∀ p : Place, k ≠ p.name) (d : Draft) :
    Draft.step bound depth d k = skipMember bound d := by
  funext s
  have hversion : k ≠ "jsonrpc" := hk .version
  have hid : k ≠ "id" := hk .id
  have hmethod : k ≠ "method" := hk .method
  have hparams : k ≠ "params" := hk .params
  have hresult : k ≠ "result" := hk .result
  have herror : k ≠ "error" := hk .error
  simp only [Draft.step, hversion, hid, hmethod, hparams, hresult, herror, if_false]

/-- All that reading a member can do: it fills its place, which was empty, or it has none and is
skipped. -/
theorem step_cases {k : String} (h : Draft.step bound depth d k s = .ok (d', rest)) :
    (∃ p : Place, k = p.name ∧ d.get p = none ∧ ∃ u x, afterColon s = .ok u ∧
      p.read bound depth u = .ok (x, rest) ∧ d.set p x = d') ∨
    (∀ p : Place, k ≠ p.name) ∧ d' = d ∧ ∃ u, afterColon s = .ok u ∧ skip bound u = .ok rest := by
  by_cases hk : ∃ p : Place, k = p.name
  · obtain ⟨p, rfl⟩ := hk
    rw [step_name] at h
    exact .inl ⟨p, rfl, exists_of_once h⟩
  · have hother : ∀ p : Place, k ≠ p.name := fun p hp => hk ⟨p, hp⟩
    rw [step_other hother] at h
    exact .inr ⟨hother, exists_of_skipMember h⟩

end Draft

end Envelope

end RpcGateway
