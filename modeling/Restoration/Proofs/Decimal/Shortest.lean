import Mathlib.Algebra.Order.Field.Power
import Mathlib.Data.Nat.Cast.Order.Field
import Mathlib.Data.Rat.Cast.Order
import Mathlib.Tactic.Linarith
import Mathlib.Tactic.NormNum
import Mathlib.Tactic.Positivity
import Mathlib.Tactic.Ring
import Restoration.Decimal.Shortest

/-!
# The size of shortest decimals

The search for a shortest decimal stops at a point of the interval, so that the decimal is less than
a unit of the last binary place above the fraction:

    value of shortest (m · 2 ^ e)  ≤  (m + 1/2) · 2 ^ e
-/

namespace Restoration.Decimal

variable {tie : Tie} {i : Interval} {d m n : ℕ} {k e : ℤ}

theorem pow_toNat {b : ℚ} (hb : b ≠ 0) (k : ℤ) : b ^ k.toNat = b ^ k * b ^ (-k).toNat := by
  rw [← zpow_natCast, ← zpow_natCast, ← zpow_add₀ hb]
  congr 1
  omega

/-- `digits · 10 ^ exponent`. -/
def Point.value (p : Point) : ℚ := p.digits * 10 ^ p.exponent

namespace Point

theorem value_trimZeros (p : Point) (fuel : ℕ) : (p.trimZeros fuel).value = p.value := by
  induction fuel generalizing p with
  | zero => rfl
  | succ fuel ih =>
    rw [trimZeros]
    split
    · rename_i hzero
      have hten : (p.digits : ℚ) = 10 * (p.digits / 10 : ℕ) := by
        exact_mod_cast (Nat.mul_div_cancel' (Nat.dvd_of_mod_eq_zero hzero.2)).symm
      rw [ih, value, value, hten, zpow_add₀ (by norm_num), zpow_one]
      ring
    · rfl

theorem digits_trimZeros_ne_zero {p : Point} (h : p.digits ≠ 0) (fuel : ℕ) :
    (p.trimZeros fuel).digits ≠ 0 := by
  induction fuel generalizing p with
  | zero => exact h
  | succ fuel ih =>
    rw [trimZeros]
    split
    · rename_i hzero
      refine ih ?_
      dsimp only
      omega
    · exact h

end Point

namespace Interval

theorem holds_bounds (h : i.holds d k = true) :
    i.low * (i.scaleNum * 10 ^ (-k).toNat) ≤ d * 10 ^ k.toNat * i.scaleDen ∧
      d * 10 ^ k.toNat * i.scaleDen ≤ i.high * (i.scaleNum * 10 ^ (-k).toNat) := by
  simp only [holds, Nat.pow_eq] at h
  split at h <;> simp only [Bool.and_eq_true, decide_eq_true_eq] at h
  · exact h
  · exact ⟨h.1.le, h.2.le⟩

theorem holds_of_onGrid? (h : i.onGrid? tie k = some d) : i.holds d k = true := by
  simp only [onGrid?] at h
  split at h
  · split at h
    · cases h
      assumption
    · split at h
      · cases h
        assumption
      · cases tie with
        | up =>
          cases h
          assumption
        | toEven =>
          simp only [Option.some.injEq] at h
          split at h <;> cases h <;> assumption
  · cases h
    assumption
  · cases h
    assumption
  · cases h

/-- The search stops at a point of the interval, or gives up. -/
theorem search_cases (tie : Tie) (i : Interval) (n fuel : ℕ) :
    i.holds (i.search tie n fuel).digits (i.search tie n fuel).exponent = true ∨
      i.search tie n fuel = ⟨i.value, 0⟩ := by
  induction fuel generalizing n with
  | zero => exact .inr rfl
  | succ fuel ih =>
    simp only [search]
    split
    · exact .inl (holds_of_onGrid? ‹_›)
    · exact ih (n + 1)

/-- The search with the magnitude worked out once for all grids. -/
def searchBelow (tie : Tie) (i : Interval) (top : ℤ) (n : ℕ) : ℕ → Point
  | 0 => ⟨i.value, 0⟩
  | fuel + 1 =>
    match i.onGrid? tie (top - n) with
    | some d => ⟨d, top - n⟩
    | none => searchBelow tie i top (n + 1) fuel

theorem search_eq (tie : Tie) (i : Interval) (n fuel : ℕ) :
    i.search tie n fuel = i.searchBelow tie i.magnitude n fuel := by
  induction fuel generalizing n with
  | zero => rfl
  | succ fuel ih =>
    simp only [search, searchBelow]
    cases i.onGrid? tie (i.magnitude - n) with
    | some d => rfl
    | none => exact ih (n + 1)

end Interval

theorem holds_of (h : (Interval.of m e).holds d k = true) (hm : m ≠ 0) :
    d ≠ 0 ∧ (d : ℚ) * 10 ^ k ≤ (m + 1 / 2) * 2 ^ e := by
  obtain ⟨hlow, hhigh⟩ := Interval.holds_bounds h
  have hten : (0 : ℚ) < 10 ^ (-k).toNat := by positivity
  have htwo : (0 : ℚ) < 2 ^ (2 - e).toNat := by positivity
  constructor
  · rintro rfl
    rw [Nat.zero_mul, Nat.zero_mul, Nat.le_zero] at hlow
    have hpos : 0 < (Interval.of m e).low := by
      simp only [Interval.of]
      split <;> omega
    have : 0 < (Interval.of m e).scaleNum * 10 ^ (-k).toNat := by
      simp only [Interval.of, Nat.pow_eq]
      positivity
    exact absurd hlow (Nat.mul_pos hpos this).ne'
  · have hcast : (d : ℚ) * 10 ^ k.toNat * 2 ^ (2 - e).toNat ≤
        (4 * m + 2) * (2 ^ (e - 2).toNat * 10 ^ (-k).toNat) := by
      have := Nat.cast_le (α := ℚ).2 hhigh
      simp only [Interval.of, Nat.pow_eq] at this
      exact_mod_cast this
    rw [pow_toNat (by norm_num : (10 : ℚ) ≠ 0), pow_toNat (by norm_num : (2 : ℚ) ≠ 0) (e - 2),
      neg_sub] at hcast
    have hscale : (2 : ℚ) ^ (e - 2) = 2 ^ e / 4 := by
      rw [zpow_sub₀ (by norm_num)]
      norm_num
    rw [hscale] at hcast
    have hfactor : (d : ℚ) * 10 ^ k * (10 ^ (-k).toNat * 2 ^ (2 - e).toNat) ≤
        (m + 1 / 2) * 2 ^ e * (10 ^ (-k).toNat * 2 ^ (2 - e).toNat) := by linarith
    exact le_of_mul_le_mul_right hfactor (mul_pos hten htwo)

/-- **A shortest decimal is hardly larger than the fraction**; a search that gave up has no more digits
than four times the mantissa. -/
theorem shortest_spec (tie : Tie) (e : ℤ) (hm : m ≠ 0) :
    (shortest tie m e).digits ≠ 0 ∧
      ((shortest tie m e).value ≤ (m + 1 / 2) * 2 ^ e ∨ (shortest tie m e).value = 4 * m) := by
  rw [shortest, if_neg hm, Point.value_trimZeros]
  rcases (Interval.of m e).search_cases tie 1 17 with h | h
  · obtain ⟨hdigits, hvalue⟩ := holds_of h hm
    exact ⟨Point.digits_trimZeros_ne_zero hdigits _, .inl hvalue⟩
  · rw [h]
    have hvalue : (Interval.of m e).value = 4 * m := rfl
    refine ⟨Point.digits_trimZeros_ne_zero (by dsimp only; omega) _, .inr ?_⟩
    rw [Point.value, hvalue, zpow_zero]
    push_cast
    ring

end Restoration.Decimal
