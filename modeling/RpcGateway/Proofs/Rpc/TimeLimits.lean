import Mathlib.Data.List.Induction
import RpcGateway.Proofs.Http.Metadata
import RpcGateway.Proofs.Text.Utf8
import RpcGateway.Rpc.Duration

/-!
Time limits in headers. A value is a time limit exactly if it is one to eight digits and a unit,
and then the limit is that many of the unit. A text that a header gives can always be cut before its
last byte; other texts can unless they end with a character of more than one byte.
-/
namespace RpcGateway
open Http

theorem Http.lt_of_isVisible {value : Bytes} (h : isVisible value = true) :
    ∀ b ∈ value, b < 0x80 := by
  intro b hb
  have hv := List.all_eq_true.mp h b hb
  grind

namespace Rpc

/-- A value of one to eight digits and a unit reads as that many units. -/
inductive IsLimit : Bytes → Duration → Prop
  | intro {amount : Bytes} {size : Nat} {unit : String} (some : amount ≠ [])
      (few : amount.length ≤ 8) (digits : amount.all isDigit = true)
      (known : (size, unit) ∈ Duration.units) :
      IsLimit (amount ++ utf8 unit) ⟨ofDigits amount * size⟩

/-! ## Units -/

theorem ofUnit?_of_mem {e : Nat × String} (h : e ∈ Duration.units) (n : Nat) :
    ∃ u, utf8 e.2 = [u] ∧ Duration.ofUnit? n u = some ⟨n * e.1⟩ := by
  have hminute : n * 60 * 1000000000 = n * 60000000000 := Nat.mul_assoc n 60 1000000000
  have hhour : n * 3600 * 1000000000 = n * 3600000000000 := Nat.mul_assoc n 3600 1000000000
  revert e
  rw [Duration.units]
  simp only [List.forall_mem_cons]
  refine ⟨⟨ascii 'n', rfl, ?_⟩, ⟨ascii 'u', rfl, rfl⟩, ⟨ascii 'm', rfl, rfl⟩,
    ⟨ascii 'S', rfl, rfl⟩, ⟨ascii 'M', rfl, ?_⟩, ⟨ascii 'H', rfl, ?_⟩, by simp⟩
  · exact congrArg (fun k => some (Duration.mk k)) (Nat.mul_one n).symm
  · exact congrArg (fun k => some (Duration.mk k)) hminute
  · exact congrArg (fun k => some (Duration.mk k)) hhour

theorem exists_unit_of_ofUnit? {n : Nat} {u : UInt8} {d : Duration}
    (h : Duration.ofUnit? n u = some d) : ∃ e ∈ Duration.units, utf8 e.2 = [u] := by
  have hletter : u = ascii 'H' ∨ u = ascii 'M' ∨ u = ascii 'S' ∨ u = ascii 'm' ∨ u = ascii 'u' ∨
      u = ascii 'n' := by
    unfold Duration.ofUnit? at h
    grind
  rcases hletter with rfl | rfl | rfl | rfl | rfl | rfl <;> decide

theorem ofUnit?_eq_some_iff {n : Nat} {u : UInt8} {d : Duration} :
    Duration.ofUnit? n u = some d ↔ ∃ e ∈ Duration.units, utf8 e.2 = [u] ∧ d = ⟨n * e.1⟩ := by
  constructor
  · intro h
    obtain ⟨e, he, hu⟩ := exists_unit_of_ofUnit? h
    obtain ⟨u', hu', hd⟩ := ofUnit?_of_mem he n
    cases hu.symm.trans hu'
    exact ⟨e, he, hu, Option.some.inj (h.symm.trans hd)⟩
  · rintro ⟨e, he, hu, rfl⟩
    obtain ⟨u', hu', hd⟩ := ofUnit?_of_mem he n
    cases hu.symm.trans hu'
    exact hd

/-- The letter of a unit, and so all of a limit, is visible. -/
theorem isVisible_of_mem_units {e : Nat × String} (h : e ∈ Duration.units) :
    isVisible (utf8 e.2) = true := by
  have hall : ∀ e ∈ Duration.units, isVisible (utf8 e.2) = true := by decide
  exact hall e h

theorem IsLimit.isVisible {value : Bytes} {d : Duration} (h : IsLimit value d) :
    isVisible value = true := by
  obtain ⟨-, -, hdigits, hknown⟩ := h
  rw [Http.isVisible, List.all_append, Bool.and_eq_true]
  exact ⟨isVisible_of_digits hdigits, isVisible_of_mem_units hknown⟩

/-! ## Reading a limit -/

theorem parseTimeout_of_concat {text : String} {amount : Bytes} {u : UInt8}
    (h : utf8 text = amount ++ [u]) :
    parseTimeout text =
      if amount = [] ∨ 8 < amount.length then .ok none
      else if 0x80 ≤ u then .error .cut
      else if amount.all isDigit then .ok (Duration.ofUnit? (ofDigits amount) u) else .ok none := by
  have hlength : (amount ++ [u]).length < 2 ∨ 9 < (amount ++ [u]).length ↔
      amount = [] ∨ 8 < amount.length := by
    rw [← List.length_eq_zero_iff, List.length_append, List.length_singleton]
    omega
  unfold parseTimeout
  simp only [h, hlength, List.getLast?_append, List.dropLast_concat]
  rfl

theorem parseTimeout_of_nil {text : String} (h : utf8 text = []) :
    parseTimeout text = .ok none := by
  unfold parseTimeout
  rw [h]
  rfl

theorem parseTimeout_eq_ok_some_iff {text : String} {d : Duration} :
    parseTimeout text = .ok (some d) ↔ IsLimit (utf8 text) d := by
  constructor
  · intro h
    rcases List.eq_nil_or_concat (utf8 text) with hnil | ⟨amount, u, hcut⟩
    · rw [parseTimeout_of_nil hnil] at h
      cases h
    · rw [List.concat_eq_append] at hcut
      rw [parseTimeout_of_concat hcut] at h
      split at h
      · cases h
      · next hlength =>
        obtain ⟨hsome, hfew⟩ := not_or.mp hlength
        split at h
        · cases h
        · split at h
          · next hdigits =>
            obtain ⟨⟨size, unit⟩, hknown, hu, rfl⟩ := ofUnit?_eq_some_iff.mp (Except.ok.inj h)
            rw [hcut, ← hu]
            exact .intro hsome (Nat.not_lt.mp hfew) hdigits hknown
          · cases h
  · generalize hvalue : utf8 text = value
    rintro ⟨hsome, hfew, hdigits, hknown⟩
    next amount size unit =>
    obtain ⟨u, hu, hd⟩ := ofUnit?_of_mem hknown (ofDigits amount)
    -- The unit is a byte of its own, so the cut before it is between two characters.
    have hlow : ¬ 0x80 ≤ u := by
      apply UInt8.not_le.mpr
      apply lt_of_isVisible (isVisible_of_mem_units hknown)
      rw [hu]
      exact List.mem_singleton_self u
    have hlength : ¬ (amount = [] ∨ 8 < amount.length) := not_or.mpr ⟨hsome, Nat.not_lt.mpr hfew⟩
    rw [hu] at hvalue
    rw [parseTimeout_of_concat hvalue, if_neg hlength, if_neg hlow, if_pos hdigits, hd]

theorem exists_parseTimeout_of_isVisible {text : String} (h : isVisible (utf8 text) = true) :
    ∃ limit, parseTimeout text = .ok limit := by
  rcases List.eq_nil_or_concat (utf8 text) with hnil | ⟨amount, u, hcut⟩
  · exact ⟨none, parseTimeout_of_nil hnil⟩
  · rw [List.concat_eq_append] at hcut
    have hlow : ¬ 0x80 ≤ u := by
      apply UInt8.not_le.mpr
      apply lt_of_isVisible h
      rw [hcut]
      exact List.mem_append_right amount (List.mem_singleton_self u)
    rw [parseTimeout_of_concat hcut, if_neg hlow]
    split
    · exact ⟨_, rfl⟩
    · split <;> exact ⟨_, rfl⟩

/-! ## Texts that cannot be cut -/

/-- A text that is neither too short nor too long for a limit and ends with a character of more than
one byte. -/
structure SplitsCharacter (text : String) : Prop where
  long : 2 ≤ (utf8 text).length
  short : (utf8 text).length ≤ 9
  last : ∃ c, text.toList.getLast? = some c ∧ 1 < c.utf8Size

theorem splitsCharacter_iff {text : String} {amount : Bytes} {u : UInt8}
    (h : utf8 text = amount ++ [u]) :
    SplitsCharacter text ↔ ¬ (amount = [] ∨ 8 < amount.length) ∧ 0x80 ≤ u := by
  have hne : text.toList ≠ [] := by
    intro hnil
    rw [Text.utf8_eq_flatMap, hnil] at h
    exact absurd h.symm (List.append_ne_nil_of_right_ne_nil _ (List.cons_ne_nil _ _))
  obtain ⟨c, hc⟩ := Option.isSome_iff_exists.mp (List.getLast?_isSome.mpr hne)
  obtain ⟨bs, b, hb, hwide⟩ := Text.last_utf8 hc
  obtain ⟨rfl, hu⟩ := List.append_inj' (hb.symm.trans h) rfl
  obtain rfl := List.singleton_inj.mp hu
  have hlength : (utf8 text).length = bs.length + 1 := by rw [hb, List.length_append]; rfl
  rw [← List.length_eq_zero_iff, hwide]
  constructor
  · rintro ⟨hlong, hshort, d, hd, hsize⟩
    cases hc.symm.trans hd
    exact ⟨by omega, hsize⟩
  · rintro ⟨hfew, hsize⟩
    exact ⟨by omega, by omega, c, hc, hsize⟩

theorem exists_parseTimeout_iff {text : String} :
    (∃ limit, parseTimeout text = .ok limit) ↔ ¬ SplitsCharacter text := by
  rcases List.eq_nil_or_concat (utf8 text) with hnil | ⟨amount, u, hcut⟩
  · refine iff_of_true ⟨none, parseTimeout_of_nil hnil⟩ ?_
    rintro ⟨hlong, -, -⟩
    rw [hnil] at hlong
    exact absurd hlong (by decide)
  · rw [List.concat_eq_append] at hcut
    rw [splitsCharacter_iff hcut, parseTimeout_of_concat hcut]
    split
    · next hlength => exact iff_of_true ⟨none, rfl⟩ fun h => h.1 hlength
    · next hlength =>
      split
      · next hwide => exact iff_of_false (fun ⟨_, h⟩ => nomatch h) fun h => h ⟨hlength, hwide⟩
      · next hlow =>
        refine iff_of_true ?_ fun h => hlow h.2
        split <;> exact ⟨_, rfl⟩

theorem ofDigits_lt {ds : Bytes} (h : ∀ d ∈ ds, isDigit d = true) :
    ofDigits ds < Number.tenTo ds.length := by
  induction ds using List.reverseRecOn with
  | nil => decide
  | append_singleton ds d ih =>
    have hds := ih fun e he => h e (List.mem_append_left _ he)
    have hd := h d (List.mem_append_right _ (List.mem_singleton_self d))
    simp only [isDigit, Bool.and_eq_true, decide_eq_true_eq, UInt8.le_iff_toNat_le] at hd
    have hdigit : digitValue d ≤ 9 := by
      have hhigh : d.toNat ≤ 57 := hd.2
      rw [digitValue]
      omega
    rw [ofDigits_append_singleton, List.length_append, List.length_singleton, Number.tenTo_succ]
    omega

/-- The amount of a limit, as hours in seconds, is a word of 64 bits. -/
theorem IsLimit.amount_lt {value : Bytes} {d : Duration} (h : IsLimit value d) :
    ofDigits value.dropLast * 60 * 60 < Number.words64 := by
  obtain ⟨-, hfew, hdigits, hknown⟩ := h
  next amount size unit =>
  obtain ⟨u, hu, -⟩ := ofUnit?_of_mem hknown 0
  have hbound : Number.tenTo amount.length ≤ Number.tenTo 8 :=
    Nat.pow_le_pow_right (by decide) hfew
  have height : Number.tenTo 8 = 100000000 := rfl
  have hlt := ofDigits_lt (List.all_eq_true.mp hdigits)
  have hamount : (amount ++ utf8 unit).dropLast = amount := by
    change utf8 unit = [u] at hu
    rw [hu, List.dropLast_concat]
  have hwords : Number.words64 = 18446744073709551616 := rfl
  rw [hamount]
  omega

/-- Reading a time limit ends for every text but those of two to nine bytes that end with a
character of more than one byte. It gives a limit exactly for one to eight digits and a unit, namely
so many of the unit, and its arithmetic stays within 64 bits. -/
theorem parseTimeout_returns_iff (text : String) :
    ((∃ limit, parseTimeout text = .ok limit) ↔ ¬ SplitsCharacter text) ∧
    (∀ d, parseTimeout text = .ok (some d) ↔ IsLimit (utf8 text) d) ∧
    ∀ d, parseTimeout text = .ok (some d) →
      ofDigits (utf8 text).dropLast * 60 * 60 < Number.words64 :=
  ⟨exists_parseTimeout_iff, fun _ => parseTimeout_eq_ok_some_iff,
    fun _ h => (parseTimeout_eq_ok_some_iff.mp h).amount_lt⟩

theorem parseTimeout_returns_iff_hours :
    parseTimeout "99999999H" = .ok (some (.ofSeconds 359999996400)) ∧
    (∃ limit, parseTimeout "99999999H" = .ok limit) ∧
    IsLimit (utf8 "99999999H") (.ofSeconds 359999996400) ∧
    ofDigits (utf8 "99999999H").dropLast * 60 * 60 < Number.words64 := by
  have hread : parseTimeout "99999999H" = .ok (some (.ofSeconds 359999996400)) := by decide
  have hlast : ¬ SplitsCharacter "99999999H" := by
    rintro ⟨-, -, c, hc, hwide⟩
    obtain rfl : 'H' = c := Option.some.inj hc
    exact absurd hwide (by decide)
  obtain ⟨hends, hlimit, hword⟩ := parseTimeout_returns_iff "99999999H"
  exact ⟨hread, hends.mpr hlast, (hlimit _).mp hread, hword _ hread⟩

/-- The last byte of a digit and an accented letter is the second one of the letter. -/
theorem cut_inside_letter :
    SplitsCharacter "1é" ∧ parseTimeout "1é" = .error .cut ∧
      ¬ ∃ limit, parseTimeout "1é" = .ok limit := by
  have hcut : parseTimeout "1é" = .error .cut := by decide
  refine ⟨⟨by decide, by decide, 'é', rfl, by decide⟩, hcut, ?_⟩
  rintro ⟨limit, h⟩
  cases hcut.symm.trans h

end Rpc

end RpcGateway
