import Restoration.Proofs.Decimal.Rounding
import Restoration.Proofs.Decimal.Shortest
import Restoration.Proofs.Json.Number

/-!
# Floats are read again

A number that is read as a float is a whole number times a power of ten. Only a product that is too
large is refused, and the decimals under which floats are filed are not too large:

    filed? x = some s   →   read s = ok (a float)
-/

namespace Restoration

open Decimal Numeral

namespace Numeral

variable {n : ℕ} {ds : List Char}

theorem digitValue_lt : ∀ {c : Char}, isDigit c = true → digitValue c < 10 := by
  intro c hc
  simp only [isDigit, Bool.and_eq_true, decide_eq_true_eq] at hc
  have h : c.toNat ≤ '9'.toNat := hc.2
  have h9 : '9'.toNat = 57 := rfl
  have h0 : '0'.toNat = 48 := rfl
  simp only [digitValue]
  omega

theorem digitValue_pos {c : Char} (hc : isDigit c = true) (hne : c ≠ '0') : 1 ≤ digitValue c := by
  simp only [isDigit, Bool.and_eq_true, decide_eq_true_eq] at hc
  have h : '0'.toNat ≤ c.toNat := hc.1
  have hne' : c.toNat ≠ '0'.toNat := fun h => hne (Char.toNat_inj.1 h)
  simp only [digitValue]
  omega

theorem length_digits {k : ℕ} (hlow : 10 ^ k ≤ n) (hhigh : n < 10 ^ (k + 1)) :
    (digits n).length = k + 1 := by
  induction k generalizing n with
  | zero => rw [digits_of_lt (by simpa using hhigh), List.length_singleton]
  | succ k ih =>
    rw [pow_succ] at hlow hhigh
    have hten : 1 ≤ 10 ^ k := Nat.one_le_pow _ _ (by norm_num)
    rw [digits_of_le (by omega), List.length_append, ih (by omega) (by omega), List.length_singleton]

theorem mul_pow_le_valueFrom (n : ℕ) (ds : List Char) : n * 10 ^ ds.length ≤ valueFrom n ds := by
  induction ds generalizing n with
  | nil => simp [valueFrom]
  | cons c ds ih =>
    have := ih (10 * n + digitValue c)
    rw [List.length_cons, pow_succ]
    rw [valueFrom, List.foldl_cons, ← valueFrom]
    calc n * (10 ^ ds.length * 10) = 10 * n * 10 ^ ds.length := by ring
      _ ≤ (10 * n + digitValue c) * 10 ^ ds.length := Nat.mul_le_mul_right _ (Nat.le_add_right _ _)
      _ ≤ _ := this

theorem valueFrom_lt (hds : ∀ c ∈ ds, isDigit c = true) (n : ℕ) :
    valueFrom n ds < (n + 1) * 10 ^ ds.length := by
  induction ds generalizing n with
  | nil => simp [valueFrom]
  | cons c ds ih =>
    have hc := digitValue_lt (hds c List.mem_cons_self)
    have := ih (fun d hd => hds d (List.mem_cons_of_mem c hd)) (10 * n + digitValue c)
    rw [valueFrom, List.foldl_cons, ← valueFrom]
    calc _ < (10 * n + digitValue c + 1) * 10 ^ ds.length := this
      _ ≤ (n + 1) * 10 * 10 ^ ds.length := Nat.mul_le_mul_right _ (by omega)
      _ = _ := by rw [List.length_cons, pow_succ]; ring

end Numeral

namespace Json.Number

variable {n : ℕ} {e : ℤ} {ds r : List Char} {negated : Bool}

/-! ## Scaling -/

/-- What is this large before it is rounded twice is not above the largest float. -/
def ceiling : ℚ := (2 ^ 53 - 7 / 2) * 2 ^ (971 : ℤ)

theorem ceiling_mul_le : ceiling * (1 + 1 / 2 ^ 53) * (1 + 1 / 2 ^ 53) ≤ largest := by
  rw [ceiling, largest, binary]
  have hpos : (0 : ℚ) < 2 ^ (971 : ℤ) := by positivity
  generalize (2 : ℚ) ^ (971 : ℤ) = unit at hpos
  push_cast
  nlinarith

theorem ceiling_lt : ceiling < ((10 ^ 309 : ℕ) : ℚ) := by
  have hle : ceiling ≤ largest := by
    rw [ceiling, largest, binary, mul_le_mul_iff_left₀ (by positivity)]
    norm_num
  refine hle.trans_lt ?_
  rw [largest_eq, Nat.cast_lt]
  decide +kernel

theorem exponent_lt_of_le_ceiling (hn : 1 ≤ n) (h : n * (10 : ℚ) ^ e ≤ ceiling) : e < 309 := by
  by_contra hlarge
  have hpow : ((10 ^ 309 : ℕ) : ℚ) ≤ 10 ^ e := by
    rw [Nat.cast_pow, ← zpow_natCast]
    exact zpow_le_zpow_right₀ (by norm_num) (by omega)
  have hone : (10 : ℚ) ^ e ≤ n * 10 ^ e :=
    le_mul_of_one_le_left (by positivity) (by exact_mod_cast hn)
  exact absurd (hpow.trans (hone.trans h)) (not_le.2 ceiling_lt)

/-- Scaling down never fails. -/
theorem exists_scale_neg (x : Float) (he : e < 0) (fuel : ℕ) : ∃ y, scale x e fuel = .ok y := by
  induction fuel generalizing x e with
  | zero => exact ⟨x, rfl⟩
  | succ fuel ih =>
    rw [scale]
    split
    · rw [if_neg (by omega)]
      exact ⟨_, rfl⟩
    · split
      · exact ⟨x, rfl⟩
      · rw [if_neg (by omega)]
        refine ih _ ?_
        have : largestPower = 308 := rfl
        omega

theorem exists_scale (hn : 1 ≤ n) (hword : n < word) (he : 0 ≤ e) (h : n * (10 : ℚ) ^ e ≤ ceiling) :
    ∃ y, scale n.toUInt64.toFloat e 8 = .ok y := by
  have hsmall := exponent_lt_of_le_ceiling hn h
  obtain ⟨k, rfl⟩ := Int.eq_ofNat_of_zero_le he
  have hpower : largestPower = 308 := rfl
  obtain ⟨v, hv, hvn⟩ := hasValue_natural hn hword
  obtain ⟨w, hw, hwk⟩ := hasValue_powerOfTen (k := k) (by omega)
  have hproduct : v * w ≤ largest := by
    rw [zpow_natCast] at h
    calc v * w ≤ n * (1 + 1 / 2 ^ 53) * (10 ^ k * (1 + 1 / 2 ^ 53)) :=
          mul_le_mul hvn hwk hw.nonneg (by positivity)
      _ = n * 10 ^ k * (1 + 1 / 2 ^ 53) * (1 + 1 / 2 ^ 53) := by ring
      _ ≤ ceiling * (1 + 1 / 2 ^ 53) * (1 + 1 / 2 ^ 53) := by gcongr
      _ ≤ largest := ceiling_mul_le
  rw [scale, if_pos (by omega), if_pos he]
  simp only [Int.natAbs_natCast, isInf_mul hv hw hproduct]
  exact ⟨_, rfl⟩

theorem exists_scaled_of_scale (h : ∃ y, scale n.toUInt64.toFloat e 8 = .ok y) :
    ∃ y, scaled negated n e = .ok (.float y) := by
  obtain ⟨y, hy⟩ := h
  exact ⟨_, by simp only [scaled, hy]; rfl⟩

theorem exists_scaled (hn : 1 ≤ n) (hword : n < word) (h : n * (10 : ℚ) ^ e ≤ ceiling) :
    ∃ y, scaled negated n e = .ok (.float y) := by
  refine exists_scaled_of_scale ?_
  rcases Int.lt_or_le e 0 with he | he
  · exact exists_scale_neg _ he 8
  · exact exists_scale hn hword he h

/-! ## Digits -/

/-- What is taken of some digits. -/
structure Takes (n : ℕ) (ds : List Char) (m : ℕ) (rest : List Char) : Prop where
  suffix : ∃ taken, ds = taken ++ rest
  word : m < word
  le : n ≤ m
  value : m * 10 ^ rest.length ≤ valueFrom n ds

theorem absorb_append (hds : ∀ c ∈ ds, isDigit c = true) (hr : ∀ c ∈ r.head?, isDigit c = false)
    (hn : n < word) : ∃ m rest, absorb n (ds ++ r) = (m, rest ++ r) ∧ Takes n ds m rest := by
  induction ds generalizing n with
  | nil =>
    refine ⟨n, [], ?_, ⟨⟨[], rfl⟩, hn, le_rfl, by simp [valueFrom]⟩⟩
    cases r with
    | nil => rfl
    | cons c r => simp [absorb, hr c rfl]
  | cons c ds ih =>
    have hc := hds c List.mem_cons_self
    rw [List.cons_append, absorb, hc, Bool.true_and]
    by_cases hfits : 10 * n + digitValue c < word
    · obtain ⟨m, rest, habsorb, htakes⟩ := ih (fun d hd => hds d (List.mem_cons_of_mem c hd)) hfits
      obtain ⟨taken, htaken⟩ := htakes.suffix
      have hle := htakes.le
      rw [if_pos (by simpa using hfits), habsorb]
      exact ⟨m, rest, rfl, ⟨c :: taken, by rw [htaken, List.cons_append]⟩, htakes.word, by omega,
        htakes.value⟩
    · rw [if_neg (by simpa using hfits)]
      exact ⟨n, c :: ds, rfl, ⟨[], rfl⟩, hn, le_rfl, mul_pow_le_valueFrom n (c :: ds)⟩

theorem scanDigits_digits (hds : ∀ c ∈ ds, isDigit c = true) (hr : ∀ c ∈ r.head?, isDigit c = false) :
    scanDigits (ds ++ r) = (ds, r) := by
  by_cases hnil : ds = []
  · rw [hnil, List.nil_append, scanDigits_stop hr]
  · exact scanDigits_append ⟨hnil, hds⟩ hr

/-! ## Layouts -/

theorem exists_readExponent (negated : Bool) {power : ℤ} (hn : 1 ≤ n) (hword : n < word)
    (hpower : power < exponentBound) (h : n * (10 : ℚ) ^ (e + power) ≤ ceiling) :
    ∃ y, readExponent negated n e ((exponentText power).drop 1) = .ok (.float y) := by
  have hscan := scanDigits_row (row_digits power.natAbs)
  have hne := digits_ne_nil power.natAbs
  by_cases hsign : power < 0
  · have htotal : e - power.natAbs = e + power := by omega
    simp only [exponentText, List.drop_one, List.tail_cons, hsign, if_true, readExponent, scanSign,
      hscan, List.isEmpty_iff, hne, if_false, valueFrom_digits, ne_eq, not_true, and_false, htotal]
    split
    · exact ⟨_, rfl⟩
    · exact exists_scaled hn hword h
  · have htotal : e + power.natAbs = e + power := by omega
    have hbound : ¬ exponentBound ≤ power.natAbs := by omega
    have hplus : ¬ ['+'] = ['-'] := by decide
    simp only [exponentText, List.drop_one, List.tail_cons, hsign, if_false, readExponent, scanSign,
      hscan, List.isEmpty_iff, hne, valueFrom_digits, hbound, hplus, htotal]
    exact exists_scaled hn hword h

/-- A number with digits behind the point is scaled down. -/
theorem exists_readPlaces {whole places : List Char} (hrow : Row whole) (hplaces : Row places)
    (hzero : ¬ (whole.head? = some '0' ∧ whole.length ≠ 1)) (hshort : whole.length ≤ 16) :
    ∃ y, readUnsigned negated (whole ++ '.' :: places) = .ok (.float y) := by
  have hvalue : valueFrom 0 whole < 10 ^ 16 := by
    have := valueFrom_lt hrow.digit 0
    calc valueFrom 0 whole < (0 + 1) * 10 ^ whole.length := this
      _ ≤ 10 ^ 16 := by
        rw [Nat.zero_add, Nat.one_mul]
        exact Nat.pow_le_pow_right (by norm_num) hshort
  have hword : 10 * 10 ^ 16 < word := by decide
  obtain ⟨c, ds, rfl⟩ := List.exists_cons_of_ne_nil hplaces.ne_nil
  have hc := hplaces.digit c List.mem_cons_self
  have hcvalue := digitValue_lt hc
  -- the first digit behind the point is always taken
  have hfits : 10 * valueFrom 0 whole + digitValue c < word := by omega
  obtain ⟨m, rest, habsorb, htakes⟩ := absorb_append (r := [])
    (fun d hd => hplaces.digit d (List.mem_cons_of_mem c hd)) (by simp) hfits
  obtain ⟨taken, rfl⟩ := htakes.suffix
  have hrest : scanDigits rest = (rest, []) := by
    simpa using scanDigits_digits (r := []) (fun d hd => hplaces.digit d (by simp [hd])) (by simp)
  have hfirst : absorb (valueFrom 0 whole) (c :: (taken ++ rest)) = (m, rest) := by
    rw [absorb, hc, Bool.true_and, if_pos (by simpa using hfits)]
    simpa using habsorb
  have hplaced : (c :: (taken ++ rest)).length - rest.length ≠ 0 := by
    rw [List.length_cons, List.length_append]
    omega
  rw [readUnsigned, scanDigits_append hrow (by simp; decide)]
  simp only [List.isEmpty_iff, hrow.ne_nil, if_false, if_neg hzero,
    absorb_row hrow.digit (m := 0) (by omega)]
  simp only [readFraction, hfirst, hrest, hplaced, false_and, if_false, finish]
  exact exists_scaled_of_scale (exists_scale_neg _ (by rw [List.length_nil]; omega) 8)

theorem exists_readPositional (p : Point) (hzero : p.digits = 0 → p.exponent = 0)
    (hshort : p.exponent + (digits p.digits).length ≤ 16) :
    ∃ y, readUnsigned negated (p.positional ".0").toList = .ok (.float y) := by
  obtain ⟨whole, places, h⟩ := exists_positional p
  have := h.short
  rw [h.text]
  exact exists_readPlaces h.row h.places (h.no_zero hzero) (by omega)

theorem value_le {p : Point} {m : ℕ} (h : m * 10 ^ r.length ≤ p.digits) :
    m * (10 : ℚ) ^ (p.exponent + r.length) ≤ p.value := by
  have hcast : (m : ℚ) * 10 ^ r.length ≤ p.digits := by exact_mod_cast h
  rw [zpow_add₀ (by norm_num), zpow_natCast, Point.value]
  calc (m : ℚ) * (10 ^ p.exponent * 10 ^ r.length) = m * 10 ^ r.length * 10 ^ p.exponent := by ring
    _ ≤ p.digits * 10 ^ p.exponent := by gcongr

/-! A scientific layout has one digit ahead of its exponent, or one ahead of a point. -/

section Scientific

variable {c : Char} {power : ℤ}

theorem absorb_singleton (hc : isDigit c = true) : absorb 0 [c] = (digitValue c, []) := by
  have hword : digitValue c < word := (digitValue_lt hc).trans (by decide)
  simp [absorb, hc, hword]

theorem row_singleton (hc : isDigit c = true) : Row [c] :=
  ⟨by simp, fun _ hd => List.mem_singleton.1 hd ▸ hc⟩

theorem exists_readSingle (hc : isDigit c = true) (hn : 1 ≤ digitValue c)
    (hpower : power < exponentBound) (h : digitValue c * (10 : ℚ) ^ power ≤ ceiling) :
    ∃ y, readUnsigned negated ([c] ++ exponentText power) = .ok (.float y) := by
  have hword : digitValue c < word := (digitValue_lt hc).trans (by decide)
  have hone : ¬ ([c].head? = some '0' ∧ [c].length ≠ 1) := by simp
  have hread := exists_readExponent negated (e := 0) hn hword hpower (by simpa using h)
  rw [readUnsigned, scanDigits_append (row_singleton hc) (by simp [exponentText]; decide)]
  simp only [List.isEmpty_iff, (row_singleton hc).ne_nil, if_false, if_neg hone, absorb_singleton hc]
  simpa [exponentText] using hread

theorem exists_readPoint (hc : isDigit c = true) (hn : 1 ≤ digitValue c) (hds : Row ds)
    (hpower : power < exponentBound)
    (h : ∀ m rest, Takes (digitValue c) ds m rest →
      m * (10 : ℚ) ^ (power - ds.length + rest.length) ≤ ceiling) :
    ∃ y, readUnsigned negated ([c] ++ ('.' :: ds ++ exponentText power)) = .ok (.float y) := by
  have hword : digitValue c < word := (digitValue_lt hc).trans (by decide)
  have hone : ¬ ([c].head? = some '0' ∧ [c].length ≠ 1) := by simp
  have hstop : ∀ d ∈ (exponentText power).head?, isDigit d = false := by simp [exponentText]; decide
  obtain ⟨m, rest, htaken, htakes⟩ := absorb_append hds.digit hstop hword
  have hm := h m rest htakes
  obtain ⟨taken, rfl⟩ := htakes.suffix
  have hrest := scanDigits_digits (fun d hd => hds.digit d (List.mem_append_right taken hd)) hstop
  have hplaced : (taken ++ rest ++ exponentText power).length - (rest ++ exponentText power).length =
      taken.length := by
    simp only [List.length_append]
    omega
  have hsome : ¬ (taken.length = 0 ∧ rest.isEmpty = true) := by simpa using hds.ne_nil
  have htotal : power - (taken ++ rest).length + rest.length = 0 - taken.length + power := by
    rw [List.length_append]
    omega
  rw [htotal] at hm
  have hread := exists_readExponent negated (hn.trans htakes.le) htakes.word hpower hm
  rw [readUnsigned, scanDigits_append (row_singleton hc) (by simp; decide)]
  simp only [List.isEmpty_iff, (row_singleton hc).ne_nil, if_false, if_neg hone, absorb_singleton hc]
  simp only [List.cons_append, readFraction, htaken, hrest, hplaced, if_neg hsome, List.length_nil,
    Nat.cast_zero]
  simpa [finish, exponentText] using hread

end Scientific

theorem exists_readScientific {p : Point} (hdigits : p.digits ≠ 0) (h : p.value ≤ ceiling) :
    ∃ y, readUnsigned negated p.scientific.toList = .ok (.float y) := by
  obtain ⟨c, ds, hds⟩ := List.exists_cons_of_ne_nil (digits_ne_nil p.digits)
  have hrow := hds ▸ row_digits p.digits
  have hc := hrow.digit c List.mem_cons_self
  have hn : 1 ≤ digitValue c := by
    have := head?_digits hdigits
    rw [hds] at this
    exact digitValue_pos hc (by simpa using this)
  have hall : valueFrom (digitValue c) ds = p.digits := by
    have := valueFrom_digits p.digits
    rw [hds, valueFrom, List.foldl_cons, ← valueFrom] at this
    simpa using this
  have hfirst := (value_le (hall ▸ mul_pow_le_valueFrom (digitValue c) ds)).trans h
  have hpower : p.exponent + ds.length < exponentBound :=
    (exponent_lt_of_le_ceiling hn hfirst).trans (by decide)
  rw [toList_scientific hds, fractionText]
  by_cases hplaces : ds = []
  · subst hplaces
    exact exists_readSingle hc hn hpower hfirst
  · have hdigit : Row ds := ⟨hplaces, fun d hd => hrow.digit d (List.mem_cons_of_mem c hd)⟩
    rw [if_neg (by simpa using hplaces)]
    refine exists_readPoint hc hn hdigit hpower fun m rest htakes => ?_
    rw [add_sub_cancel_right]
    exact (value_le (htakes.value.trans_eq hall)).trans h

/-- The largest floats, whose decimals are too large for the bound. -/
def largestPoint (j : Fin 3) : Point := ⟨17976931348623153 + 2 * j, 292⟩

theorem magnitude_eq {i : Interval} {k : ℕ} (h : i.scaleDen ≤ i.value * i.scaleNum)
    (hlow : 10 ^ k ≤ i.value * i.scaleNum / i.scaleDen)
    (hhigh : i.value * i.scaleNum / i.scaleDen < 10 ^ (k + 1)) : i.magnitude = k + 1 := by
  rw [Interval.magnitude, if_pos h, length_digits hlow hhigh, Nat.cast_succ]

theorem magnitude_largest (j : Fin 3) : (Interval.of (2 ^ 53 - 3 + j) 971).magnitude = (308 : ℕ) + 1 := by
  refine magnitude_eq ?_ ?_ ?_ <;> revert j <;> decide +kernel

theorem shortest_largest (j : Fin 3) : shortest .toEven (2 ^ 53 - 3 + j) 971 = largestPoint j := by
  have hsearch : ∀ j : Fin 3, ((Interval.of (2 ^ 53 - 3 + j) 971).searchBelow .toEven 309 1 17).trimZeros
      20 = largestPoint j := by
    decide +kernel
  rw [shortest, if_neg (by omega), Interval.search_eq, magnitude_largest]
  exact hsearch j

theorem exists_readLargest (negated : Bool) (j : Fin 3) : ∃ y,
    readUnsigned negated (largestPoint j).scientific.toList = .ok (.float y) := by
  have hread : ∀ j : Fin 3, ((readUnsigned negated (largestPoint j).scientific.toList).toOption.bind
      fun n => match n with
        | .float _ => some ()
        | _ => none).isSome = true := by
    cases negated <;> decide +kernel
  have := hread j
  cases h : readUnsigned negated (largestPoint j).scientific.toList with
  | error fault => simp [h, Except.toOption] at this
  | ok n =>
    cases n with
    | float y => exact ⟨y, rfl⟩
    | natural n => simp [h, Except.toOption] at this
    | negative n => simp [h, Except.toOption] at this

/-! ## Floats -/

theorem parts_bounds {x : Float} {negative : Bool} {m : ℕ} {e : ℤ}
    (h : parts x = .finite negative m e) : m < 2 ^ 53 ∧ e ≤ 971 := by
  simp only [parts, Nat.pow_eq] at h
  split at h
  · split at h <;> cases h
  · split at h <;> cases h <;> omega

/-- All but the largest floats have a decimal within the bound. -/
theorem value_shortest_le {m : ℕ} (hm : m ≠ 0) (hlong : m < 2 ^ 53) (he : e ≤ 971)
    (hsmall : ¬ (e = 971 ∧ 2 ^ 53 - 3 ≤ m)) : (shortest .toEven m e).value ≤ ceiling := by
  rcases (shortest_spec .toEven e hm).2 with h | h
  · refine h.trans ?_
    rcases Int.lt_or_eq_of_le he with hlt | rfl
    · have hpow : (2 : ℚ) ^ e ≤ 2 ^ (970 : ℤ) := zpow_le_zpow_right₀ (by norm_num) (by omega)
      have hmant : (m : ℚ) + 1 / 2 ≤ 2 ^ 53 := by
        have : (m : ℚ) + 1 ≤ 2 ^ 53 := by exact_mod_cast hlong
        linarith
      calc ((m : ℚ) + 1 / 2) * 2 ^ e ≤ 2 ^ 53 * 2 ^ (970 : ℤ) :=
            mul_le_mul hmant hpow (by positivity) (by positivity)
        _ ≤ (2 ^ 53 - 7 / 2) * (2 ^ (970 : ℤ) * 2) := by
          have hpos : (0 : ℚ) < 2 ^ (970 : ℤ) := by positivity
          generalize (2 : ℚ) ^ (970 : ℤ) = unit at hpos
          nlinarith
        _ = ceiling := by
          rw [ceiling, show (971 : ℤ) = 970 + 1 by norm_num, zpow_add₀ (by norm_num), zpow_one]
    · have hmant : (m : ℚ) + 1 / 2 ≤ 2 ^ 53 - 7 / 2 := by
        have : m + 4 ≤ 2 ^ 53 := by omega
        have hcast : (m : ℚ) + 4 ≤ 2 ^ 53 := by exact_mod_cast this
        linarith
      exact mul_le_mul_of_nonneg_right hmant (by positivity)
  · rw [h]
    have hpow : (2 : ℚ) ^ (10 : ℤ) ≤ 2 ^ (971 : ℤ) := zpow_le_zpow_right₀ (by norm_num) (by norm_num)
    have hmant : (m : ℚ) ≤ 2 ^ 53 := by exact_mod_cast hlong.le
    calc 4 * (m : ℚ) ≤ (2 ^ 53 - 7 / 2) * 2 ^ (10 : ℤ) := by norm_num; linarith
      _ ≤ ceiling := mul_le_mul_of_nonneg_left hpow (by norm_num)

theorem read_signed {negative : Bool} {body : String} (h : Magnitude body.toList) :
    read (signText negative ++ body).toList = readUnsigned negative body.toList := by
  cases negative with
  | true =>
    rw [String.toList_append]
    rfl
  | false =>
    obtain ⟨c, t, hbody, hc⟩ := h.head
    have htext : (signText false ++ body).toList = c :: t := by
      rw [String.toList_append, hbody]
      rfl
    rw [htext, hbody, read_digit hc]

/-- **Every float that is filed is read again** as a float, though perhaps not as the same one. -/
theorem read_filed {x : Float} {s : String} (h : filed? x = some s) :
    ∃ y, read s.toList = .ok (.float y) := by
  unfold filed? at h
  split at h
  · rename_i negative m e hparts
    obtain ⟨hlong, he⟩ := parts_bounds hparts
    cases h
    split
    · rename_i hlayout
      obtain ⟨whole, places, hp⟩ := exists_positional (shortest .toEven m e)
      rw [read_signed hp.magnitude]
      by_cases hm : m = 0
      · subst hm
        exact exists_readPositional _ (fun _ => rfl) (by simp [shortest, digits_of_lt])
      · have hdigits := (shortest_spec .toEven e hm).1
        exact exists_readPositional _ (fun h => absurd h hdigits) (by omega)
    · rename_i hlayout
      have hm : m ≠ 0 := fun h => hlayout (.inl h)
      rw [read_signed (magnitude_scientific _)]
      by_cases hlargest : e = 971 ∧ 2 ^ 53 - 3 ≤ m
      · obtain ⟨rfl, hle⟩ := hlargest
        obtain ⟨j, rfl⟩ : ∃ j : Fin 3, m = 2 ^ 53 - 3 + j :=
          ⟨⟨m - (2 ^ 53 - 3), by omega⟩, (Nat.add_sub_cancel' hle).symm⟩
        rw [shortest_largest]
        exact exists_readLargest negative j
      · have hvalue := value_shortest_le hm hlong he hlargest
        exact exists_readScientific (shortest_spec .toEven e hm).1 hvalue
  · cases h

end Json.Number

end Restoration
