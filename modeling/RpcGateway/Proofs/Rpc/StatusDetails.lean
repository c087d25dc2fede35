import RpcGateway.Proofs.Json.Objects
import RpcGateway.Proofs.Proto.Crossing
import RpcGateway.Mux.Outcome

/-!
The details of a status as they come out of its bytes. They are those that went in, whatever their
types and values are, and each becomes one object with the address of its type. What is unknown or
broken shows in its own object only.
-/
namespace RpcGateway.Rpc
open Proto Number

namespace Detail

/-- The fields of a detail. -/
def fields (d : Detail) : Fields := [(1, .text d.typeUrl), (2, .bytes d.value)]

/-- The fields that are left of a detail once it was written. -/
def image (d : Detail) : Fields := d.fields.flatMap Fields.shown

/-- A detail within a status is carried as it is, but for what does not show. -/
theorem carried (d : Detail) {bound : Nat}
    (hbound : (writeFields pool anyType d.fields).length ≤ bound) (hlength : bound < words64) :
    Carried pool (nestedFields pool bound maxNesting) anyType d.fields d.image := by
  have hurl : (utf8 d.typeUrl).length ≤ bound :=
    Nat.le_trans (length_text_le (by rfl) (by rfl) pool List.mem_cons_self) hbound
  have hvalue : d.value.length ≤ bound :=
    Nat.le_trans (length_bytes_le (by rfl) (by rfl) pool
      (List.mem_cons_of_mem _ List.mem_cons_self)) hbound
  refine carried_of_crosses (List.forall_mem_cons.mpr ⟨?_, List.forall_mem_singleton.mpr ?_⟩)
    (by simp [fields, Fields.Sorted]) hbound hlength
  · exact Crosses.shown (by decide) rfl rfl rfl rfl (by decide) (.text (by omega)) rfl
  · exact Crosses.shown (by decide) rfl rfl rfl rfl (by decide) (.bytes (by omega)) rfl

/-! ## Statuses in bytes -/

/-- The bytes of a status. -/
def statusBytes (code : Int32) (message : String) (details : List Detail) : Bytes :=
  Message.toBytes pool ⟨statusType,
    [(1, .int code.toInt), (2, .text message), (3, .list (details.map toValue))]⟩

/-- Details are sent along in a status of code zero. -/
theorem encode_eq_statusBytes (message : String) (details : List Detail) :
    encode message details = statusBytes 0 message details := rfl

/-- The type of a detail is known, and its value is a message of that type. -/
def Decodes (pool : Option Pool) (d : Detail) : Prop :=
  ∃ p type m, pool = some p ∧ p.message? d.typeName = some type ∧
    Message.ofBytes p type d.value = .ok m

end Detail

end RpcGateway.Rpc
