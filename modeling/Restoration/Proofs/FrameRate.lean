import Mathlib.Data.Nat.GCD.Basic
import Mathlib.Logic.Function.Iterate
import Mathlib.Order.Bounds.Basic
import Restoration.FrameRate

/-!
# Frame rates in lowest terms

Dividing keeps the common divisors of two numbers and makes the smaller one smaller, so it comes to an
end with the greatest of them. A rate divided by it is in lowest terms:

    EndsAfter rounds (n, 1000) g     for some number of rounds and g = commonDivisor n 1000
    numerator · 1000 = n · denominator,   numerator and denominator coprime,   denominator ∣ 1000
-/

namespace Restoration.FrameRate

/-! ## Division until nothing remains -/

/-- One round: the divisor is what is divided next, by the remainder. -/
def divide (p : Nat × Nat) : Nat × Nat := (p.2, p.1 % p.2)

/-- The division comes to its end with `g` and nothing else, after so many rounds and not before. -/
def EndsAfter (rounds : Nat) (p : Nat × Nat) (g : Nat) : Prop :=
  divide^[rounds] p = (g, 0) ∧ ∀ k < rounds, (divide^[k] p).2 ≠ 0

theorem endsAfter_zero (a : Nat) : EndsAfter 0 (a, 0) a := ⟨rfl, fun _ hk => absurd hk (Nat.not_lt_zero _)⟩

theorem EndsAfter.succ {rounds g : Nat} {p : Nat × Nat} (hp : p.2 ≠ 0)
    (h : EndsAfter rounds (divide p) g) : EndsAfter (rounds + 1) p g := by
  refine ⟨h.1, ?_⟩
  rintro (_ | k) hk
  · exact hp
  · exact h.2 k (Nat.lt_of_succ_lt_succ hk)

/-- One round keeps the common divisors. -/
theorem dvd_divide_iff {p : Nat × Nat} {d : Nat} :
    d ∣ (divide p).1 ∧ d ∣ (divide p).2 ↔ d ∣ p.1 ∧ d ∣ p.2 := by
  constructor
  · rintro ⟨hdivisor, hremainder⟩
    exact ⟨(Nat.dvd_mod_iff hdivisor).1 hremainder, hdivisor⟩
  · rintro ⟨hdivided, hdivisor⟩
    exact ⟨hdivisor, (Nat.dvd_mod_iff hdivisor).2 hdivided⟩

/-- The division ends, and with a number that all common divisors divide, and only they. -/
theorem exists_endsAfter (a b : Nat) : ∃ rounds g, EndsAfter rounds (a, b) g ∧
    commonDivisor a b = max g 1 ∧ ∀ d, d ∣ g ↔ d ∣ a ∧ d ∣ b := by
  induction a, b using commonDivisor.induct with
  | case1 a => exact ⟨0, a, endsAfter_zero a, by rw [commonDivisor, if_pos rfl], by simp⟩
  | case2 a b hb ih =>
    obtain ⟨rounds, g, hends, hdivisor, hall⟩ := ih
    refine ⟨rounds + 1, g, EndsAfter.succ hb hends, by rw [commonDivisor, if_neg hb, hdivisor], ?_⟩
    intro d
    rw [hall d]
    exact dvd_divide_iff (p := (a, b))

/-- Dividing by a number that is not zero leaves the greatest common divisor. -/
theorem endsAfter_commonDivisor {a b : Nat} (hb : b ≠ 0) :
    commonDivisor a b = Nat.gcd a b ∧ ∃ rounds, EndsAfter rounds (a, b) (commonDivisor a b) := by
  obtain ⟨rounds, g, hends, hdivisor, hall⟩ := exists_endsAfter a b
  have hgcd : g = Nat.gcd a b := by
    obtain ⟨hleft, hright⟩ := (hall g).1 (Nat.dvd_refl g)
    exact Nat.dvd_antisymm (Nat.dvd_gcd hleft hright)
      ((hall _).2 ⟨Nat.gcd_dvd_left a b, Nat.gcd_dvd_right a b⟩)
  have hpos : 1 ≤ g := hgcd ▸ Nat.gcd_pos_of_pos_right a (Nat.pos_of_ne_zero hb)
  rw [Nat.max_eq_left hpos] at hdivisor
  exact ⟨hdivisor.trans hgcd, rounds, hdivisor ▸ hends⟩

/-! ## Lowest terms -/

/-- The rate is so many thousandths, in lowest terms. -/
structure InLowestTerms (n : Nat) (r : FrameRate) : Prop where
  value : r.numerator * 1000 = n * r.denominator
  coprime : Nat.Coprime r.numerator r.denominator
  divides : r.denominator ∣ 1000
  positive : 1 ≤ r.denominator

theorem commonDivisor_thousand (n : Nat) : commonDivisor n 1000 = Nat.gcd n 1000 :=
  (endsAfter_commonDivisor (by decide)).1

theorem isGreatest_commonDivisor (n : Nat) :
    IsGreatest {d | d ∣ n ∧ d ∣ 1000} (commonDivisor n 1000) := by
  rw [commonDivisor_thousand]
  refine ⟨⟨Nat.gcd_dvd_left n 1000, Nat.gcd_dvd_right n 1000⟩, ?_⟩
  rintro d ⟨hn, hthousand⟩
  exact Nat.le_of_dvd (Nat.gcd_pos_of_pos_right n (by decide)) (Nat.dvd_gcd hn hthousand)

theorem inLowestTerms_ofThousandths (n : Nat) : InLowestTerms n (ofThousandths n) := by
  have hpos : 0 < Nat.gcd n 1000 := Nat.gcd_pos_of_pos_right n (by decide)
  obtain ⟨k, hk⟩ := Nat.gcd_dvd_left n 1000
  obtain ⟨m, hm⟩ := Nat.gcd_dvd_right n 1000
  have hnumerator : n / Nat.gcd n 1000 = k := Nat.div_eq_of_eq_mul_right hpos hk
  have hdenominator : 1000 / Nat.gcd n 1000 = m := Nat.div_eq_of_eq_mul_right hpos hm
  have hcoprime : Nat.Coprime (n / Nat.gcd n 1000) (1000 / Nat.gcd n 1000) :=
    Nat.coprime_div_gcd_div_gcd hpos
  rw [hnumerator, hdenominator] at hcoprime
  have hrate : ofThousandths n = ⟨k, m⟩ := by
    rw [ofThousandths, commonDivisor_thousand, hnumerator, hdenominator]
  rw [hrate]
  refine ⟨?_, hcoprime, ⟨Nat.gcd n 1000, by rw [Nat.mul_comm, ← hm]⟩, ?_⟩
  · calc k * 1000 = k * (Nat.gcd n 1000 * m) := by rw [← hm]
      _ = Nat.gcd n 1000 * k * m := by rw [← Nat.mul_assoc, Nat.mul_comm k]
      _ = n * m := by rw [← hk]
  · refine Nat.pos_of_ne_zero (n := m) ?_
    rintro rfl
    cases hm

/-- **A frame rate is a fraction in lowest terms.** The division of the thousandths by a thousand
comes to an end with the greatest common divisor, by which both are divided; no thousandths are none
in one second. All numbers of thousandths that a float can give are below `2 ^ 64`. -/
theorem rates_in_lowest_terms :
    (∀ n : Nat, (∃ rounds, EndsAfter rounds (n, 1000) (commonDivisor n 1000)) ∧
      IsGreatest {d | d ∣ n ∧ d ∣ 1000} (commonDivisor n 1000) ∧
      ofThousandths n = ⟨n / commonDivisor n 1000, 1000 / commonDivisor n 1000⟩ ∧
      InLowestTerms n (ofThousandths n)) ∧
    ofThousandths 0 = ⟨0, 1⟩ ∧
    ∀ rate : Float, ∃ n < Numeral.word, ofFloat rate = ofThousandths n := by
  refine ⟨fun n => ⟨(endsAfter_commonDivisor (by decide)).2, isGreatest_commonDivisor n, rfl,
    inLowestTerms_ofThousandths n⟩, ?_, fun rate => ?_⟩
  · rw [ofThousandths, commonDivisor_thousand]
    rfl
  · refine ⟨Decimal.roundWithin (Numeral.word - 1) (rate * 1000.0), ?_, rfl⟩
    exact Nat.lt_of_le_pred (by decide) (Decimal.roundWithin_le _ _)

/-- Films on tape run at 24000 frames in 1001 seconds, which is 2997 in 125 to the thousandth. -/
example : ofThousandths 23976 = ⟨2997, 125⟩ := by cbv

end Restoration.FrameRate
