import RpcGateway.Proofs.Json.ReadTexts
import RpcGateway.Proofs.Number.Widening
import RpcGateway.Proofs.Proto.DistinctNames
import RpcGateway.Proofs.Proto.TypedReading
import RpcGateway.Proofs.Text.Base64

/-!
JSON forms of values that are no messages. Within a type they tell the values apart, except that all
that is not a number has one form, and so has every value of the null enum.
-/
namespace RpcGateway.Proto
open Number

/-! ## Texts -/

theorem utf8_asciiText {b : Bytes} (h : ∀ x ∈ b, x < 0x80) : utf8 (asciiText b) = b :=
  utf8_ofList_of_ascii h

theorem asciiText_inj {b c : Bytes} (hb : ∀ x ∈ b, x < 0x80) (hc : ∀ x ∈ c, x < 0x80)
    (h : asciiText b = asciiText c) : b = c := by
  rw [← utf8_asciiText hb, ← utf8_asciiText hc, h]

theorem ascii_printInt (i : Int) : ∀ x ∈ Json.printInt i, x < 0x80 := by
  have hdigits : ∀ x ∈ digits i.natAbs, x < 0x80 := fun x hx =>
    Json.lt_of_isDigit ((Json.isRun_digits i.natAbs).digits x hx)
  unfold Json.printInt
  split
  · exact List.forall_mem_cons.mpr ⟨by decide, hdigits⟩
  · exact hdigits

theorem digits_inj {m n : Nat} (h : digits m = digits n) : m = n := by
  rw [← ofDigits_digits m, ← ofDigits_digits n, h]

theorem digits_ne_minus_cons (m n : Nat) : digits m ≠ Json.minus :: digits n := by
  intro h
  have hdigit := (Json.isRun_digits m).digits Json.minus (h ▸ List.mem_cons_self)
  revert hdigit
  decide

theorem printInt_inj {i j : Int} (h : Json.printInt i = Json.printInt j) : i = j := by
  unfold Json.printInt at h
  split at h <;> split at h
  · have hnat := digits_inj (List.tail_eq_of_cons_eq h)
    omega
  · exact absurd h.symm (digits_ne_minus_cons _ _)
  · exact absurd h (digits_ne_minus_cons _ _)
  · have hnat := digits_inj h
    omega

theorem integerText_inj {i j : Int} (h : integerText i = integerText j) : i = j :=
  printInt_inj (asciiText_inj (ascii_printInt i) (ascii_printInt j) h)

/-! ## Numbers -/

/-- How an infinity is named. -/
def infinityText (negative : Bool) : String := if negative then "-Infinity" else "Infinity"

theorem infinityText_inj {a b : Bool} (h : infinityText a = infinityText b) : a = b := by
  revert h
  cases a <;> cases b <;> decide

theorem infinityText_ne_nan (a : Bool) : infinityText a ≠ "NaN" := by
  cases a <;> decide

theorem jsonOfDouble_cases (x : Double) :
    (x.isNan = true ∧ jsonOfDouble x = .str "NaN") ∨
    (x.magnitude = Format.double.infinity ∧ jsonOfDouble x = .str (infinityText x.isNegative)) ∨
    jsonOfDouble x = .double x := by
  unfold jsonOfDouble
  split
  · next h => exact .inl ⟨h, rfl⟩
  · split
    · next h => exact .inr (.inl ⟨beq_iff_eq.mp h, rfl⟩)
    · exact .inr (.inr rfl)

theorem jsonOfDouble_eq_iff {x y : Double} :
    jsonOfDouble x = jsonOfDouble y ↔ x = y ∨ (x.isNan ∧ y.isNan) := by
  constructor
  · intro h
    rcases jsonOfDouble_cases x with ⟨hx, hj⟩ | ⟨hx, hj⟩ | hj <;>
      rcases jsonOfDouble_cases y with ⟨hy, hj'⟩ | ⟨hy, hj'⟩ | hj' <;> rw [hj, hj'] at h
    · exact .inr ⟨hx, hy⟩
    · exact absurd (Json.str.inj h).symm (infinityText_ne_nan y.isNegative)
    · cases h
    · exact absurd (Json.str.inj h) (infinityText_ne_nan x.isNegative)
    · have hsign := infinityText_inj (Json.str.inj h)
      exact .inl (Double.eq_of_magnitude (hx.trans hy.symm) hsign)
    · cases h
    · cases h
    · cases h
    · exact .inl (Json.double.inj h)
  · rintro (rfl | ⟨hx, hy⟩)
    · rfl
    · rw [jsonOfDouble, if_pos hx, jsonOfDouble, if_pos hy]

/-! ## Plain values -/

/-- A floating-point value that is not a number. -/
def Value.isNan : Value → Bool
  | .single x => x.isNan
  | .double x => x.isNan
  | _ => false

/-- Values that are no messages and look alike. -/
def SamePlain (type : FieldType) (v w : Value) : Prop :=
  v = w ∨ type = .enum Standard.nullEnum ∨ (v.isNan ∧ w.isNan)

theorem EnumType.Distinct.name?_inj {t : EnumType} (h : t.Distinct) {i j : Int} {name : String}
    (hi : t.name? i = some name) (hj : t.name? j = some name) : i = j := by
  obtain ⟨a, ha, hname⟩ := Option.map_eq_some_iff.mp hi
  obtain ⟨b, hb, hname'⟩ := Option.map_eq_some_iff.mp hj
  have hsame : a = b := List.inj_on_of_nodup_map h (List.mem_of_find?_eq_some ha)
    (List.mem_of_find?_eq_some hb) (hname.trans hname'.symm)
  have hi := List.find?_some ha
  have hj := List.find?_some hb
  rw [beq_iff_eq] at hi hj
  rw [← hi, ← hj, hsame]

theorem Pool.Distinct.enumType {pool : Pool} (h : pool.Distinct) (name : String) :
    (pool.enumType name).Distinct := by
  unfold Pool.enumType
  cases hget : pool.enums.get? name with
  | none => exact List.nodup_nil
  | some e => exact h.enums name e hget

/-- The form of a value of an enum: its name, or else its number. -/
theorem enumForm_inj {t : EnumType} (h : t.Distinct) {i j : Int}
    (heq : (t.name? i).elim (Json.int i) .str = (t.name? j).elim (Json.int j) .str) : i = j := by
  cases hi : t.name? i <;> cases hj : t.name? j <;> rw [hi, hj] at heq
  · exact Json.int.inj heq
  · cases heq
  · cases heq
  · exact h.name?_inj hi (Json.str.inj heq ▸ hj)

/-- Forms that tell a value apart from all others. -/
theorem jsonOfPlain_eq_iff_of_inj {pool : Pool} {type : FieldType} {v w : Value}
    (hv : v.isNan = false)
    (hinj : jsonOfPlain pool type v = jsonOfPlain pool type w → v = w) :
    jsonOfPlain pool type v = jsonOfPlain pool type w ↔ v = w ∨ (v.isNan ∧ w.isNan) := by
  constructor
  · exact fun h => .inl (hinj h)
  · rintro (rfl | ⟨h, -⟩)
    · rfl
    · rw [hv] at h
      cases h

theorem jsonOfPlain_int_inj {pool : Pool} {s : Scalar} {i j : Int}
    (h : jsonOfPlain pool (.scalar s) (.int i) = jsonOfPlain pool (.scalar s) (.int j)) :
    i = j := by
  simp only [jsonOfPlain] at h
  split at h
  · exact integerText_inj (Json.str.inj h)
  · exact Json.int.inj h

theorem jsonOfPlain_scalar_eq_iff {pool : Pool} {s : Scalar} {v w : Value} (hv : HasScalar s v)
    (hw : HasScalar s w) :
    jsonOfPlain pool (.scalar s) v = jsonOfPlain pool (.scalar s) w ↔
      v = w ∨ (v.isNan ∧ w.isNan) := by
  cases hv with
  | bool b =>
    cases hw with
    | bool c => exact jsonOfPlain_eq_iff_of_inj rfl fun h => congrArg Value.bool (Json.bool.inj h)
    | whole h => cases h
  | single x =>
    cases hw with
    | single y =>
      rw [Value.single.injEq]
      refine jsonOfDouble_eq_iff.trans ?_
      simp only [Single.isNan_toDouble, Single.toDouble_eq_iff, or_assoc, or_self, Value.isNan]
    | whole h => cases h
  | double x =>
    cases hw with
    | double y =>
      rw [Value.double.injEq]
      exact jsonOfDouble_eq_iff
    | whole h => cases h
  | text t =>
    cases hw with
    | text u => exact jsonOfPlain_eq_iff_of_inj rfl fun h => congrArg Value.text (Json.str.inj h)
    | whole h => cases h
  | bytes b =>
    cases hw with
    | bytes c =>
      refine jsonOfPlain_eq_iff_of_inj rfl fun h => congrArg Value.bytes ?_
      exact Text.Base64.encode_injective (asciiText_inj (Text.Base64.ascii_encode b)
        (Text.Base64.ascii_encode c) (Json.str.inj h))
    | whole h => cases h
  | whole h i =>
    cases hw with
    | whole _ j =>
      exact jsonOfPlain_eq_iff_of_inj rfl fun h => congrArg Value.int (jsonOfPlain_int_inj h)
    | _ => cases h

/-- Two plain values of a type have one form exactly if they look alike. -/
theorem jsonOfPlain_eq_iff {pool : Pool} (hd : pool.Distinct) {type : FieldType} {v w : Value}
    (hv : HasPlain type v) (hw : HasPlain type w) :
    jsonOfPlain pool type v = jsonOfPlain pool type w ↔ SamePlain type v w := by
  cases hv with
  | @scalar s v hv =>
    cases hw with
    | scalar hw =>
      rw [jsonOfPlain_scalar_eq_iff hv hw, SamePlain]
      simp
  | enum name i =>
    cases hw with
    | enum _ j =>
      by_cases hnull : name = Standard.nullEnum
      · subst hnull
        exact iff_of_true rfl (.inr (.inl rfl))
      · have hform (i : Int) : jsonOfPlain pool (.enum name) (.int i) =
            ((pool.enumType name).name? i).elim (.int i) .str := if_neg hnull
        have hother : FieldType.enum name ≠ .enum Standard.nullEnum := fun h =>
          hnull (FieldType.enum.inj h)
        rw [SamePlain, or_iff_right hother]
        refine jsonOfPlain_eq_iff_of_inj rfl fun h => congrArg Value.int ?_
        rw [hform, hform] at h
        exact enumForm_inj (hd.enumType name) h

end RpcGateway.Proto
