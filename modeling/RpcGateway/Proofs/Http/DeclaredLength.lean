import RpcGateway.Proofs.Http.Admission
import RpcGateway.Proofs.Http.Metadata

/-!
A declared length that is nothing but digits. It is read as the number that the digits write, leading
zeros and all, as long as that is a word of 64 bits; a greater one counts as absent.
-/
namespace RpcGateway.Http
open Number

theorem isBlankByte_of_isDigit {b : UInt8} (h : isDigit b = true) : isBlankByte b = false := by
  unfold isDigit at h
  unfold isBlankByte
  grind

/-- There is nothing to cut off where no byte is a blank. -/
theorem trim_of_solid {value : Bytes} (h : ∀ b ∈ value, isBlankByte b = false) :
    trim value = value := by
  have hdrop : ∀ bs : Bytes, (∀ b ∈ bs, isBlankByte b = false) →
      bs.dropWhile isBlankByte = bs := by
    intro bs hbs
    cases bs with
    | nil => rfl
    | cons b bs => exact List.dropWhile_cons_of_neg (by simp [hbs b List.mem_cons_self])
  have hback : ∀ b ∈ value.reverse, isBlankByte b = false :=
    fun b hb => h b (List.mem_reverse.mp hb)
  rw [trim, hdrop value h, hdrop value.reverse hback, List.reverse_reverse]

section Digits
variable {value : Bytes} (hsome : value ≠ []) (hdigits : value.all isDigit = true)
include hsome hdigits

theorem natural?_of_digits : natural? value = some (ofDigits value) := by
  have hread : ofDigits? value = some (ofDigits value) := by
    have hempty : value.isEmpty = false := by rwa [List.isEmpty_eq_false_iff]
    rw [ofDigits?, hempty, hdigits]
    rfl
  unfold natural?
  split
  · next ds =>
    -- A plus sign is no digit.
    rw [List.all_cons, Bool.and_eq_true] at hdigits
    exact absurd hdigits.1 (by decide)
  · exact hread

variable {h : Headers} (hget : h.get? "content-length" = some value)
include hget

/-- Digits declare the number that they write, if it is a word of 64 bits. -/
theorem declares_iff_of_digits (n : Nat) : Declares h n ↔ n = ofDigits value ∧ n < words64 := by
  have hsolid : trim value = value :=
    trim_of_solid fun b hb => isBlankByte_of_isDigit (List.all_eq_true.mp hdigits b hb)
  have hread := natural?_of_digits hsome hdigits
  constructor
  · rintro ⟨value', hget', -, hnatural, hword⟩
    obtain rfl : value = value' := Option.some.inj (hget.symm.trans hget')
    rw [hsolid, hread] at hnatural
    exact ⟨(Option.some.inj hnatural).symm, hword⟩
  · rintro ⟨rfl, hword⟩
    exact ⟨value, hget, isVisible_of_digits hdigits, by rw [hsolid, hread], hword⟩

theorem declaresOver_iff_of_digits (cap : Nat) :
    DeclaresOver h cap ↔ ofDigits value < words64 ∧ cap < ofDigits value := by
  unfold DeclaresOver
  simp only [declares_iff_of_digits hsome hdigits hget]
  constructor
  · rintro ⟨n, ⟨rfl, hword⟩, hover⟩
    exact ⟨hword, hover⟩
  · rintro ⟨hword, hover⟩
    exact ⟨_, ⟨rfl, hword⟩, hover⟩

end Digits

/-- A POST request is refused for its declared length exactly if that exceeds the cap. -/
theorem checkRequest_tooLarge_iff {h : Headers} {cap : Nat} :
    (∃ length limit, checkRequest "POST" h cap = .error (.payloadTooLarge length limit)) ↔
      DeclaresOver h cap := by
  constructor
  · rintro ⟨length, limit, hc⟩
    by_contra hover
    cases hj : hasJsonContent h with
    | true => cases hc.symm.trans (checkRequest_admitted hover hj)
    | false => cases hc.symm.trans (checkRequest_other_media hover hj)
  · rintro ⟨n, hn, hover⟩
    exact ⟨n, cap, checkRequest_declared_over hn hover⟩

/-- A first length of digits that write a number above the cap is refused, whatever the content,
exactly if the number is a word of 64 bits. A greater one counts as absent, and the content type
alone decides. -/
theorem oversize_refused_iff {h : Headers} {value : Bytes} {cap : Nat}
    (hget : h.get? "content-length" = some value) (hsome : value ≠ [])
    (hdigits : value.all isDigit = true) (hover : cap < ofDigits value) :
    ((∃ length limit, checkRequest "POST" h cap = .error (.payloadTooLarge length limit)) ↔
      ofDigits value < words64) ∧
    (ofDigits value < words64 →
      checkRequest "POST" h cap = .error (.payloadTooLarge (ofDigits value) cap)) ∧
    (words64 ≤ ofDigits value →
      checkRequest "POST" h cap =
        if hasJsonContent h then .ok () else .error .unsupportedMediaType) := by
  have hdeclares := declares_iff_of_digits hsome hdigits hget
  have hexceeds := declaresOver_iff_of_digits hsome hdigits hget cap
  refine ⟨?_, ?_, ?_⟩
  · rw [checkRequest_tooLarge_iff, hexceeds]
    exact and_iff_left hover
  · intro hword
    exact checkRequest_declared_over ((hdeclares _).mpr ⟨rfl, hword⟩) hover
  · intro hlong
    have hnone : ¬ DeclaresOver h cap := fun h => Nat.not_lt.mpr hlong (hexceeds.mp h).1
    cases hj : hasJsonContent h with
    | true => exact checkRequest_admitted hnone hj
    | false => exact checkRequest_other_media hnone hj

/-- Thirty digits, most of them zeros, of a length just above the cap. -/
theorem oversize_refused_iff_leading_zeros :
    let value := utf8 "000000000000000000000005242881"
    let h : Headers := ⟨[("content-type", utf8 "text/plain"), ("content-length", value)]⟩
    h.get? "content-length" = some value ∧ value ≠ [] ∧ value.all isDigit = true ∧
    5242880 < ofDigits value ∧
    checkRequest "POST" h 5242880 = .error (.payloadTooLarge 5242881 5242880) := by
  intro value h
  have hget : h.get? "content-length" = some value := rfl
  have hsome : value ≠ [] := by decide
  have hdigits : value.all isDigit = true := by decide
  have hnumber : ofDigits value = 5242881 := by decide
  have hover : 5242880 < ofDigits value := by rw [hnumber]; decide
  have hrefused := (oversize_refused_iff hget hsome hdigits hover).2.1
  rw [hnumber] at hrefused
  exact ⟨hget, hsome, hdigits, hover, hrefused (by decide)⟩

/-- The least number that is no word of 64 bits is above every cap, and yet admitted. -/
theorem oversize_admitted :
    let value := utf8 "18446744073709551616"
    let h : Headers := ⟨[("content-type", utf8 "application/json"), ("content-length", value)]⟩
    h.get? "content-length" = some value ∧ value ≠ [] ∧ value.all isDigit = true ∧
    5242880 < ofDigits value ∧ checkRequest "POST" h 5242880 = .ok () ∧
    ¬ ∃ length limit, checkRequest "POST" h 5242880 = .error (.payloadTooLarge length limit) := by
  intro value h
  have hadmitted : checkRequest "POST" h 5242880 = .ok () := by decide
  refine ⟨rfl, by decide, by decide, by decide, hadmitted, ?_⟩
  rintro ⟨length, limit, hc⟩
  cases hc.symm.trans hadmitted

end RpcGateway.Http
