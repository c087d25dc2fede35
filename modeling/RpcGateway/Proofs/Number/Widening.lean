import Mathlib.Data.Nat.Log
import RpcGateway.Number.Binary

/-!
Single-precision numbers in double precision. Every number is there as it is, and so no two of them
become one, unless neither is a number.
-/
namespace RpcGateway.Number

/-! ## Exact quotients -/

theorem twoTo_add (a b : Nat) : twoTo (a + b) = twoTo a * twoTo b := Nat.pow_add 2 a b

namespace Format

theorem scaled_eq (num den : Nat) (q : Int) :
    scaled num den q = (num * twoTo (-q).toNat, den * twoTo q.toNat) := by
  unfold scaled
  split
  · rw [show (-q).toNat = 0 by omega, twoTo_zero, Nat.mul_one]
  · rw [show q.toNat = 0 by omega, twoTo_zero, Nat.mul_one]

theorem roundDiv_mul {d : Nat} (hd : 0 < d) (k : Nat) : roundDiv (k * d) d = k := by
  unfold roundDiv
  rw [Nat.mul_div_cancel k hd, Nat.mul_mod_left]
  exact if_pos (.inl hd)

theorem log2_mul_twoTo {m : Nat} (hm : m ≠ 0) (k : Nat) : (m * twoTo k).log2 = m.log2 + k := by
  have hpos := twoTo_pos k
  have hlow : twoTo m.log2 * twoTo k ≤ m * twoTo k :=
    Nat.mul_le_mul_right _ (Nat.log2_self_le hm)
  have hhigh : m * twoTo k < twoTo (m.log2 + 1) * twoTo k :=
    Nat.mul_lt_mul_of_pos_right Nat.lt_log2_self hpos
  rw [← twoTo_add] at hlow hhigh
  rw [Nat.log2_eq_iff (Nat.mul_ne_zero hm hpos.ne')]
  exact ⟨hlow, by rwa [Nat.add_right_comm] at hhigh⟩

/-- A whole number of few bits times a power of two has its own pattern. -/
theorem nearest_exact {m : Nat} {q : Int} (hm : m ≠ 0) (hbits : m.log2 ≤ 52)
    (hq : -1022 ≤ m.log2 + q) :
    double.nearest (m * twoTo q.toNat) (twoTo (-q).toNat) =
      min double.infinity ((m.log2 + q + 1023).toNat * twoTo 52 +
        (m * twoTo (52 - m.log2) - twoTo 52)) := by
  have hleading : double.leading = twoTo 52 := by decide
  have hmin : double.minExponent = -1074 := by decide
  have hprecision : double.precision = 53 := rfl
  have hnum : m * twoTo q.toNat ≠ 0 := Nat.mul_ne_zero hm (twoTo_pos _).ne'
  have hden : (twoTo (-q).toNat).log2 = (-q).toNat := Nat.log2_two_pow
  have hlog : ((m * twoTo q.toNat).log2 : Int) - (twoTo (-q).toNat).log2 - double.precision + 1 =
      m.log2 + q - 52 := by
    rw [log2_mul_twoTo hm, hden, hprecision]
    omega
  -- The quotient is cut behind its 53 bits, where nothing is left of it.
  generalize he : (m.log2 : Int) + q - 52 = e at hlog
  generalize hd : twoTo (-q).toNat * twoTo e.toNat = d
  have hdpos : 0 < d := hd ▸ Nat.mul_pos (twoTo_pos _) (twoTo_pos _)
  have hscaled : scaled (m * twoTo q.toNat) (twoTo (-q).toNat) e =
      (m * twoTo (52 - m.log2) * d, d) := by
    rw [scaled_eq, ← hd]
    refine Prod.ext ?_ rfl
    simp only [Nat.mul_assoc, ← twoTo_add]
    congr 2
    omega
  have hlow : twoTo 52 ≤ m * twoTo (52 - m.log2) := by
    rw [← Nat.add_sub_cancel' hbits, twoTo_add, Nat.add_sub_cancel_left]
    exact Nat.mul_le_mul_right _ (Nat.log2_self_le hm)
  have hmax : max (-1074 : Int) e = e := by omega
  unfold nearest
  rw [if_neg hnum]
  simp only [hlog, hscaled, hleading, hmin, if_pos (Nat.mul_le_mul_right d hlow), hmax,
    roundDiv_mul hdpos]
  rw [pattern, hleading, hmin, if_neg (Nat.not_lt.mpr hlow)]
  congr 3
  omega

/-- Significand and exponent of a single-precision number that is not zero: either the leading place
of the significand is the last that it may have, or the exponent is the least that there is. -/
structure SingleParts (magnitude m : Nat) (q : Int) : Prop where
  pos : m ≠ 0
  cases : (m.log2 ≤ 22 ∧ q = -149 ∧ m = magnitude) ∨
    (m.log2 = 23 ∧ -149 ≤ q ∧ q ≤ 104 ∧
      (magnitude : Int) = (q + 149) * 8388608 + m)

theorem singleParts {magnitude : Nat} (hpos : magnitude ≠ 0)
    (hfinite : magnitude < single.infinity) :
    SingleParts magnitude (single.parts magnitude).1 (single.parts magnitude).2 := by
  have hleading : single.leading = 8388608 := by decide
  have hmin : single.minExponent = -149 := by decide
  have hinfinity : single.infinity = 255 * 8388608 := by decide
  rw [hinfinity] at hfinite
  unfold parts
  rw [hleading, hmin]
  dsimp only
  split
  · next he =>
    have hmod : magnitude % 8388608 = magnitude := by omega
    refine ⟨by dsimp only; omega, .inl ⟨?_, rfl, hmod⟩⟩
    dsimp only
    rw [hmod]
    exact Nat.le_of_lt_succ ((Nat.log2_lt hpos).mpr (by omega))
  · next he =>
    refine ⟨by dsimp only; omega, .inr ⟨?_, ?_, ?_, ?_⟩⟩
    · rw [Nat.log2_eq_iff (by dsimp only; omega)]
      dsimp only
      omega
    · dsimp only
      omega
    · dsimp only
      omega
    · dsimp only
      omega

/-- The pattern of the same number in double precision: its biased exponent, and the significand
without its leading bit. -/
structure Widened (m : Nat) (q : Int) (k fraction : Nat) : Prop where
  nearest : double.nearest (m * twoTo q.toNat) (twoTo (-q).toNat) = k * twoTo 52 + fraction
  exponent : (k : Int) = m.log2 + q + 1023
  fraction_lt : fraction < twoTo 52
  significand : m * twoTo (52 - m.log2) = twoTo 52 + fraction

theorem SingleParts.widened {magnitude m : Nat} {q : Int} (h : SingleParts magnitude m q) :
    ∃ k fraction, Widened m q k fraction ∧ 0 < k ∧ k < 2047 := by
  have hbits : m.log2 ≤ 52 := by
    rcases h.cases with ⟨hl, -, -⟩ | ⟨hl, -, -, -⟩ <;> omega
  have hexponent : -149 ≤ m.log2 + q ∧ m.log2 + q ≤ 127 := by
    rcases h.cases with ⟨hl, hq, -⟩ | ⟨hl, hq, hq', -⟩ <;> omega
  have hlow : twoTo 52 ≤ m * twoTo (52 - m.log2) := by
    rw [← Nat.add_sub_cancel' hbits, twoTo_add, Nat.add_sub_cancel_left]
    exact Nat.mul_le_mul_right _ (Nat.log2_self_le h.pos)
  have hhigh : m * twoTo (52 - m.log2) < 2 * twoTo 52 := by
    have hlt : m * twoTo (52 - m.log2) < twoTo (m.log2 + 1) * twoTo (52 - m.log2) :=
      Nat.mul_lt_mul_of_pos_right Nat.lt_log2_self (twoTo_pos _)
    rwa [← twoTo_add, show m.log2 + 1 + (52 - m.log2) = 1 + 52 by omega, twoTo_add] at hlt
  have hinfinity : double.infinity = 2047 * twoTo 52 := by decide
  have hsmall : (m.log2 + q + 1023).toNat * twoTo 52 ≤ 2046 * twoTo 52 :=
    Nat.mul_le_mul_right _ (by omega)
  refine ⟨(m.log2 + q + 1023).toNat, m * twoTo (52 - m.log2) - twoTo 52, ⟨?_, by omega, by omega,
    by omega⟩, by omega, by omega⟩
  rw [nearest_exact h.pos hbits (by omega), hinfinity]
  omega

theorem SingleParts.unique {magnitude magnitude' m m' : Nat} {q q' : Int}
    (h : SingleParts magnitude m q) (h' : SingleParts magnitude' m' q')
    (hsame : double.nearest (m * twoTo q.toNat) (twoTo (-q).toNat) =
      double.nearest (m' * twoTo q'.toNat) (twoTo (-q').toNat)) : magnitude = magnitude' := by
  obtain ⟨k, fraction, hw, -, -⟩ := h.widened
  obtain ⟨k', fraction', hw', -, -⟩ := h'.widened
  rw [hw.nearest, hw'.nearest] at hsame
  have htwo : twoTo 52 = 4503599627370496 := by decide
  have hlt := hw.fraction_lt
  have hlt' := hw'.fraction_lt
  have hexponent := hw.exponent
  have hexponent' := hw'.exponent
  rw [htwo] at hsame hlt hlt'
  have hsignificand : m * twoTo (52 - m.log2) = m' * twoTo (52 - m'.log2) := by
    rw [hw.significand, hw'.significand]
    omega
  have hsum : (m.log2 : Int) + q = m'.log2 + q' := by omega
  -- The exponent tells whether the leading place is fixed, and so in either case what it is.
  have hlog : m.log2 = m'.log2 := by
    rcases h.cases with ⟨hl, hq, -⟩ | ⟨hl, hq, -, -⟩ <;>
      rcases h'.cases with ⟨hl', hq', -⟩ | ⟨hl', hq', -, -⟩ <;> omega
  have hm : m = m' := by
    rw [← hlog] at hsignificand
    exact Nat.eq_of_mul_eq_mul_right (twoTo_pos _) hsignificand
  rcases h.cases with ⟨hl, hq, hmagnitude⟩ | ⟨hl, hq, -, hmagnitude⟩ <;>
    rcases h'.cases with ⟨hl', hq', hmagnitude'⟩ | ⟨hl', hq', -, hmagnitude'⟩ <;> omega

end Format

/-! ## Signs and patterns -/

theorem half32_eq : half32 = 2147483648 := rfl

theorem half64_eq : half64 = 9223372036854775808 := rfl

namespace Double

theorem toNat_ofMagnitude {magnitude : Nat} (h : magnitude < half64) (negative : Bool) :
    (ofMagnitude negative magnitude).bits.toNat = (if negative then half64 else 0) + magnitude := by
  show (Nat.toUInt64 _).toNat = _
  rw [Nat.toUInt64, UInt64.toNat_ofNat_of_lt']
  rw [half64_eq] at h ⊢
  show _ < 18446744073709551616
  split <;> omega

theorem magnitude_ofMagnitude {magnitude : Nat} (h : magnitude < half64) (negative : Bool) :
    (ofMagnitude negative magnitude).magnitude = magnitude := by
  rw [Double.magnitude, toNat_ofMagnitude h]
  rw [half64_eq] at h ⊢
  split <;> omega

theorem isNegative_ofMagnitude {magnitude : Nat} (h : magnitude < half64) (negative : Bool) :
    (ofMagnitude negative magnitude).isNegative = negative := by
  rw [Double.isNegative, toNat_ofMagnitude h]
  cases negative
  · simpa using h
  · simp

theorem eq_of_magnitude {x y : Double} (hmagnitude : x.magnitude = y.magnitude)
    (hsign : x.isNegative = y.isNegative) : x = y := by
  have hx := x.bits.toNat_lt
  have hy := y.bits.toNat_lt
  simp only [magnitude, isNegative, decide_eq_decide, half64_eq] at hmagnitude hsign
  have hbits : x.bits = y.bits := UInt64.toNat_inj.mp (by omega)
  obtain ⟨bits⟩ := x
  exact congrArg Double.mk hbits

end Double

namespace Single

/-- Larger patterns than that of infinity are not numbers. -/
def isNan (x : Single) : Bool := Format.single.infinity < x.magnitude

theorem eq_of_magnitude {x y : Single} (hmagnitude : x.magnitude = y.magnitude)
    (hsign : x.isNegative = y.isNegative) : x = y := by
  have hx := x.bits.toNat_lt
  have hy := y.bits.toNat_lt
  simp only [magnitude, isNegative, decide_eq_decide, half32_eq] at hmagnitude hsign
  have hbits : x.bits = y.bits := UInt32.toNat_inj.mp (by omega)
  obtain ⟨bits⟩ := x
  exact congrArg Single.mk hbits

/-- The pattern in double precision of a number that is finite or infinite, sign aside. -/
def widened (x : Single) : Nat :=
  if x.magnitude = Format.single.infinity then Format.double.infinity
  else
    let (m, q) := Format.single.parts x.magnitude
    Format.double.nearest (m * twoTo q.toNat) (twoTo (-q).toNat)

theorem toDouble_of_nan {x : Single} (h : x.isNan) : x.toDouble = ⟨0x7FF8000000000000⟩ :=
  if_pos (of_decide_eq_true h)

theorem toDouble_of_number {x : Single} (h : x.isNan = false) :
    x.toDouble = Double.ofMagnitude x.isNegative x.widened := by
  unfold toDouble widened
  rw [if_neg (of_decide_eq_false h)]
  split
  · rfl
  · dsimp only
    rw [Format.scaled_eq, Int.neg_neg, Nat.one_mul]

theorem widened_cases {x : Single} (h : x.isNan = false) :
    (x.magnitude = Format.single.infinity ∧ x.widened = Format.double.infinity) ∨
    (x.magnitude = 0 ∧ x.widened = 0) ∨
    ∃ m q, Format.SingleParts x.magnitude m q ∧
      x.widened = Format.double.nearest (m * twoTo q.toNat) (twoTo (-q).toNat) := by
  have hle : x.magnitude ≤ Format.single.infinity := Nat.not_lt.mp (of_decide_eq_false h)
  unfold widened
  by_cases hinfinite : x.magnitude = Format.single.infinity
  · exact .inl ⟨hinfinite, if_pos hinfinite⟩
  rw [if_neg hinfinite]
  by_cases hzero : x.magnitude = 0
  · refine .inr (.inl ⟨hzero, ?_⟩)
    rw [hzero]
    rfl
  · have hfinite := Nat.lt_of_le_of_ne hle hinfinite
    exact .inr (.inr ⟨_, _, Format.singleParts hzero hfinite, rfl⟩)

theorem infinity_eq : Format.double.infinity = 2047 * twoTo 52 := by decide

/-- A number that is not zero lies between the patterns of zero and infinity. -/
theorem widened_of_parts {x : Single} {m : Nat} {q : Int} (h : Format.SingleParts x.magnitude m q)
    (hw : x.widened = Format.double.nearest (m * twoTo q.toNat) (twoTo (-q).toNat)) :
    0 < x.widened ∧ x.widened < Format.double.infinity := by
  obtain ⟨k, fraction, hwidened, hk, hk'⟩ := h.widened
  have hlow : 1 * twoTo 52 ≤ k * twoTo 52 := Nat.mul_le_mul_right _ hk
  have hhigh : k * twoTo 52 ≤ 2046 * twoTo 52 := Nat.mul_le_mul_right _ (by omega)
  have hlt := hwidened.fraction_lt
  have hpos := twoTo_pos 52
  rw [hw, hwidened.nearest, infinity_eq]
  omega

theorem widened_le {x : Single} (h : x.isNan = false) : x.widened ≤ Format.double.infinity := by
  rcases widened_cases h with ⟨-, hw⟩ | ⟨-, hw⟩ | ⟨m, q, hparts, hw⟩
  · exact hw.le
  · exact hw ▸ Nat.zero_le _
  · exact (widened_of_parts hparts hw).2.le

/-- Numbers that differ have patterns that differ. -/
theorem magnitude_eq_of_widened_eq {x y : Single} (hx : x.isNan = false) (hy : y.isNan = false)
    (h : x.widened = y.widened) : x.magnitude = y.magnitude := by
  have hpos : 0 < Format.double.infinity := by decide
  rcases widened_cases hx with ⟨hm, hw⟩ | ⟨hm, hw⟩ | ⟨m, q, hparts, hw⟩ <;>
    rcases widened_cases hy with ⟨hm', hw'⟩ | ⟨hm', hw'⟩ | ⟨m', q', hparts', hw'⟩
  · rw [hm, hm']
  · omega
  · have := widened_of_parts hparts' hw'
    omega
  · omega
  · rw [hm, hm']
  · have := widened_of_parts hparts' hw'
    omega
  · have := widened_of_parts hparts hw
    omega
  · have := widened_of_parts hparts hw
    omega
  · exact hparts.unique hparts' (hw.symm.trans (h.trans hw'))

theorem widened_lt {x : Single} (h : x.isNan = false) : x.widened < half64 :=
  Nat.lt_of_le_of_lt (widened_le h) (by decide)

@[simp] theorem isNan_toDouble (x : Single) : x.toDouble.isNan = x.isNan := by
  cases h : x.isNan with
  | true =>
    rw [toDouble_of_nan h]
    decide
  | false =>
    rw [toDouble_of_number h, Double.isNan, Double.magnitude_ofMagnitude (widened_lt h)]
    exact decide_eq_false (Nat.not_lt.mpr (widened_le h))

theorem eq_of_toDouble_eq {x y : Single} (hx : x.isNan = false) (hy : y.isNan = false)
    (h : x.toDouble = y.toDouble) : x = y := by
  rw [toDouble_of_number hx, toDouble_of_number hy] at h
  have hmagnitude := congrArg Double.magnitude h
  have hsign := congrArg Double.isNegative h
  rw [Double.magnitude_ofMagnitude (widened_lt hx),
    Double.magnitude_ofMagnitude (widened_lt hy)] at hmagnitude
  rw [Double.isNegative_ofMagnitude (widened_lt hx),
    Double.isNegative_ofMagnitude (widened_lt hy)] at hsign
  exact eq_of_magnitude (magnitude_eq_of_widened_eq hx hy hmagnitude) hsign

/-- Single-precision numbers are the same in double precision exactly if they are the same, or
neither is a number. -/
theorem toDouble_eq_iff {x y : Single} :
    x.toDouble = y.toDouble ↔ x = y ∨ (x.isNan ∧ y.isNan) := by
  constructor
  · intro h
    have hsame : x.isNan = y.isNan := by rw [← isNan_toDouble x, h, isNan_toDouble]
    cases hx : x.isNan with
    | true => exact .inr ⟨rfl, hsame ▸ hx⟩
    | false => exact .inl (eq_of_toDouble_eq hx (hsame ▸ hx) h)
  · rintro (rfl | ⟨hx, hy⟩)
    · rfl
    · rw [toDouble_of_nan hx, toDouble_of_nan hy]

end Single

end RpcGateway.Number
