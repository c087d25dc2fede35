import Mathlib.Algebra.Order.Ring.Nat
import RpcGateway.Number.Shortest

/-!
The search for the shortest decimal ends with a hit. Its last grid is finer than a quarter of the
number's last place, so the multiple below the number is inside the interval; and no interval
reaches down to zero.
-/
namespace RpcGateway.Number

/-! ## Powers of ten against powers of two -/

/-- Ten is less than the power of two with exponent `196 / 59`. -/
theorem tenTo_le_twoTo {k p : Nat} (h : 196 * k ≤ 59 * p) : tenTo k ≤ twoTo p := by
  have hbase : tenTo 59 ≤ twoTo 196 := by decide
  refine (Nat.pow_le_pow_iff_left (n := 59) (by decide)).mp ?_
  calc tenTo k ^ 59 = tenTo 59 ^ k := Nat.pow_right_comm 10 k 59
    _ ≤ twoTo 196 ^ k := Nat.pow_le_pow_left hbase k
    _ = twoTo (196 * k) := (Nat.pow_mul 2 196 k).symm
    _ ≤ twoTo (59 * p) := Nat.pow_le_pow_right (by decide) h
    _ = twoTo p ^ 59 := by rw [Nat.mul_comm]; exact Nat.pow_mul 2 p 59

/-- Ten is more than the power of two with exponent `93 / 28`. -/
theorem twoTo_le_tenTo {k p : Nat} (h : 28 * p ≤ 93 * k) : twoTo p ≤ tenTo k := by
  have hbase : twoTo 93 ≤ tenTo 28 := by decide
  refine (Nat.pow_le_pow_iff_left (n := 28) (by decide)).mp ?_
  calc twoTo p ^ 28 = twoTo (28 * p) := by rw [Nat.mul_comm]; exact (Nat.pow_mul 2 p 28).symm
    _ ≤ twoTo (93 * k) := Nat.pow_le_pow_right (by decide) h
    _ = twoTo 93 ^ k := Nat.pow_mul 2 93 k
    _ ≤ tenTo 28 ^ k := Nat.pow_le_pow_left hbase k
    _ = tenTo k ^ 28 := (Nat.pow_right_comm 10 k 28).symm

/-- On the last grid of the search a step is at most a quarter of the last place. -/
theorem grid_le_quarter {k q : Int} (h : 100000 * (k + 21) ≤ 30103 * (q + 53)) (hq : -1074 ≤ q)
    (hq' : q ≤ 971) :
    tenTo k.toNat * twoTo (2 - q).toNat ≤ twoTo (q - 2).toNat * tenTo (-k).toNat := by
  rcases Int.le_total 0 k with hk | hk
  · have hdown : (-k).toNat = 0 := by omega
    have hq2 : (2 - q).toNat = 0 := by omega
    rw [hdown, hq2, twoTo_zero, tenTo_zero, Nat.mul_one, Nat.mul_one]
    exact tenTo_le_twoTo (by omega)
  · have hup : k.toNat = 0 := by omega
    rw [hup, tenTo_zero, Nat.one_mul]
    calc twoTo (2 - q).toNat ≤ tenTo (-k).toNat := twoTo_le_tenTo (by omega)
      _ ≤ twoTo (q - 2).toNat * tenTo (-k).toNat := Nat.le_mul_of_pos_left _ (twoTo_pos _)

namespace Rounding
variable {r : Rounding} {k : Int} {n : Nat}

/-- An interval around a positive number, wide enough for the multiple of `10 ^ k` below it. -/
structure Reaches (r : Rounding) (k : Int) : Prop where
  value_lt : r.value < r.high
  step_le : tenTo k.toNat * r.divisor ≤ (r.value - r.low) * tenTo (-k).toNat

/-- The multiple of the grid's step that is below the number or equal to it. -/
def multiple (r : Rounding) (k : Int) : Nat :=
  r.value * tenTo (-k).toNat / (tenTo k.toNat * r.divisor)

theorem holds_multiple (h : r.Reaches k) (hd : 0 < r.divisor) :
    r.holds (tenTo k.toNat) (tenTo (-k).toNat) (r.multiple k) = true := by
  have hgrid := tenTo_pos (-k).toNat
  have hstep := Nat.mul_pos (tenTo_pos k.toNat) hd
  have hle := Nat.div_mul_le_self (r.value * tenTo (-k).toNat) (tenTo k.toNat * r.divisor)
  have hlt := Nat.lt_div_mul_add (a := r.value * tenTo (-k).toNat) hstep
  have hhigh := Nat.mul_lt_mul_of_pos_right h.value_lt hgrid
  have hreach := h.step_le
  rw [Nat.sub_mul] at hreach
  change r.multiple k * (tenTo k.toNat * r.divisor) ≤ _ at hle
  change _ < r.multiple k * (tenTo k.toNat * r.divisor) + _ at hlt
  rw [← Nat.mul_assoc] at hle hlt
  have hlow : r.low * tenTo (-k).toNat < r.multiple k * tenTo k.toNat * r.divisor := by omega
  have hup : r.multiple k * tenTo k.toNat * r.divisor < r.high * tenTo (-k).toNat := by omega
  simp only [holds]
  split
  · simp [Nat.le_of_lt hlow, Nat.le_of_lt hup]
  · simp [hlow, hup]

theorem onGrid_isSome (h : r.Reaches k) (hd : 0 < r.divisor) : (r.onGrid k).isSome := by
  have hheld := holds_multiple h hd
  unfold multiple at hheld
  unfold onGrid
  simp only [hheld]
  split <;> simp_all

theorem holds_of_onGrid (h : r.onGrid k = some n) :
    r.holds (tenTo k.toNat) (tenTo (-k).toNat) n = true := by
  unfold onGrid at h
  dsimp only at h
  split at h
  · next hn hn' =>
    cases h
    split
    · exact hn
    · exact hn'
  · next hn hn' =>
    cases h
    exact hn
  · next hn hn' =>
    cases h
    exact hn'
  · cases h

/-- No interval reaches down to zero. -/
theorem pos_of_onGrid (hl : 0 < r.low) (h : r.onGrid k = some n) : 0 < n := by
  rcases Nat.eq_zero_or_pos n with rfl | hn
  · have hheld := holds_of_onGrid h
    have hpos : 0 < r.low * tenTo (-k).toNat := Nat.mul_pos hl (tenTo_pos _)
    have hne : r.low * tenTo (-k).toNat ≠ 0 := Nat.pos_iff_ne_zero.mp hpos
    simp only [holds, Nat.zero_mul] at hheld
    split at hheld
    · simp [hne] at hheld
    · simp at hheld
  · exact hn

theorem exists_onGrid_search {fuel : Nat} {start : Int}
    (h : ∃ j < fuel, (r.onGrid (start - j)).isSome) :
    ∃ k, r.onGrid k = some (r.search fuel start).1 := by
  induction fuel generalizing start with
  | zero =>
    obtain ⟨j, hj, -⟩ := h
    omega
  | succ fuel ih =>
    cases hk : r.onGrid start with
    | some n => exact ⟨start, by simp [search, hk]⟩
    | none =>
      obtain ⟨j, hj, hs⟩ := h
      obtain ⟨j, rfl⟩ : ∃ i, j = i + 1 := by
        refine ⟨j - 1, ?_⟩
        rcases Nat.eq_zero_or_pos j with rfl | hpos
        · simp [hk] at hs
        · omega
      have hshift : start - ((j + 1 : Nat) : Int) = start - 1 - j := by omega
      rw [hshift] at hs
      simpa only [search, hk] using ih ⟨j, by omega, hs⟩

end Rounding

/-- The interval around a positive number of double precision reaches the last grid. -/
theorem reaches_ofParts {m : Nat} {q k : Int} (hm : 0 < m) (hq : -1074 ≤ q) (hq' : q ≤ 971)
    (hk : 100000 * (k + 21) ≤ 30103 * (q + 53)) :
    0 < (Rounding.ofParts .double m q).low ∧ 0 < (Rounding.ofParts .double m q).divisor ∧
      (Rounding.ofParts .double m q).Reaches k := by
  have hgrid := grid_le_quarter hk hq hq'
  have hparts : Format.scaled 1 1 (2 - q) = (twoTo (q - 2).toNat, twoTo (2 - q).toNat) := by
    unfold Format.scaled
    split
    · have hz : (q - 2).toNat = 0 := by omega
      simp [hz]
    · have hz : (2 - q).toNat = 0 := by omega
      have hneg : -(2 - q) = q - 2 := by omega
      simp [hz, hneg]
  have hunit := twoTo_pos (q - 2).toNat
  simp only [Rounding.ofParts, hparts]
  generalize hb :
    (if m = Format.leading .double ∧ Format.minExponent .double < q then 1 else 2) = below
  have hbelow : 1 ≤ below ∧ below ≤ 2 := by
    rw [← hb]
    split <;> omega
  generalize twoTo (q - 2).toNat = unit at hgrid hunit
  have hwidth : 4 * m * unit - (4 * m - below) * unit = below * unit := by
    rw [← Nat.sub_mul]
    congr 1
    omega
  refine ⟨Nat.mul_pos (by omega) hunit, twoTo_pos _, ?_, ?_⟩
  · exact Nat.mul_lt_mul_of_pos_right (by omega) hunit
  · rw [hwidth]
    calc tenTo k.toNat * twoTo (2 - q).toNat ≤ unit * tenTo (-k).toNat := hgrid
      _ ≤ below * unit * tenTo (-k).toNat :=
        Nat.mul_le_mul_right _ (Nat.le_mul_of_pos_left unit hbelow.1)

/-- A finite positive number of double precision has digits. -/
theorem shortest_pos {m : Nat} {q : Int} (hm : 0 < m) (hm' : m < twoTo 53) (hq : -1074 ≤ q)
    (hq' : q ≤ 971) : 0 < (shortest .double m q).1 := by
  have hlog : m.log2 < 53 := (Nat.log2_lt (by omega)).mpr hm'
  have hdiv := Int.mul_ediv_self_le (x := (m.log2 + q + 1) * 30103) (k := 100000) (by decide)
  have hk : 100000 * (((m.log2 + q + 1) * 30103 / 100000 + 2 - ((23 : Nat) : Int)) + 21) ≤
      30103 * (q + 53) := by
    omega
  obtain ⟨hl, hd, hr⟩ := reaches_ofParts hm hq hq' hk
  have hlast : ∃ j < 24, ((Rounding.ofParts .double m q).onGrid
      ((m.log2 + q + 1) * 30103 / 100000 + 2 - (j : Nat))).isSome :=
    ⟨23, by decide, Rounding.onGrid_isSome hr hd⟩
  obtain ⟨k, hfound⟩ := Rounding.exists_onGrid_search hlast
  exact Rounding.pos_of_onGrid hl hfound

theorem Double.parts_bounds {x : Double} (hf : x.isFinite) (hz : x.isZero = false) :
    0 < x.parts.1 ∧ x.parts.1 < twoTo 53 ∧ -1074 ≤ x.parts.2 ∧ x.parts.2 ≤ 971 := by
  have hleading : Format.leading .double = 4503599627370496 := by decide
  have hinfinity : Format.infinity .double = 2047 * 4503599627370496 := by decide
  have hmin : Format.minExponent .double = -1074 := by decide
  have htwo : twoTo 53 = 9007199254740992 := by decide
  have hfinite : x.magnitude < 2047 * 4503599627370496 := by
    rw [← hinfinity]
    simpa [isFinite] using hf
  have hpos : x.magnitude ≠ 0 := by simpa [isZero] using hz
  simp only [parts, Format.parts, hleading, hmin, htwo]
  generalize x.magnitude = magnitude at hfinite hpos
  split
  · dsimp only
    omega
  · dsimp only
    omega

/-- The digits of a finite number that is not zero do not begin with a zero. -/
theorem Double.shortest_pos {x : Double} (hf : x.isFinite) (hz : x.isZero = false) :
    0 < (shortest .double x.parts.1 x.parts.2).1 := by
  obtain ⟨hm, hm', hq, hq'⟩ := parts_bounds hf hz
  exact Number.shortest_pos hm hm' hq hq'

end RpcGateway.Number
