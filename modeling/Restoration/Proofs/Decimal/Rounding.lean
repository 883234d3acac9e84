import Mathlib
import Restoration.Json.Number

/-!
# Rounding to floats

A mantissa that is too long is shifted to the right bit by bit, and what falls out decides whether it
is rounded up. The float so made is larger than the exact value by a part in `2 ^ 53` at most:

    value of round (m · 2 ^ e)  ≤  m · 2 ^ e · (1 + 2 ^ -53)

It is infinite only if the exact value is above the largest float.
-/

namespace Restoration.Decimal

open Float.Model Float.Model.UnpackedFloat

/-- `m · 2 ^ e`. -/
def binary (m : ℕ) (e : ℤ) : ℚ := m * 2 ^ e

/-- The largest float. -/
def largest : ℚ := binary (2 ^ 53 - 1) 971

theorem binary_add (m : ℕ) (e : ℤ) (k : ℕ) : binary m (e + k) = binary (m * 2 ^ k) e := by
  rw [binary, binary, zpow_add₀ (by norm_num), zpow_natCast]
  push_cast
  ring

/-! ## Shifting -/

variable {em : ExtendedMantissa} {x : ℚ}

/-- The mantissa is `x` without its fraction, and the round bit is set only for a fraction of one half
or more. -/
structure Brackets (em : ExtendedMantissa) (x : ℚ) : Prop where
  le : em.mantissa ≤ x
  lt : x < em.mantissa + 1
  half : em.roundBit = true → em.mantissa + 1 / 2 ≤ x

namespace Brackets

theorem exact (m : ℕ) : Brackets (.ofMantissaAndAccuracy m .exact) m :=
  ⟨le_rfl, lt_add_one _, fun h => nomatch h⟩

/-- The bit that falls out becomes the round bit. -/
theorem shiftRightOne (h : Brackets em x) : Brackets em.shiftRightOne (x / 2) := by
  have hsplit : ((em.mantissa % 2 : ℕ) : ℚ) + 2 * (em.mantissa / 2 : ℕ) = em.mantissa := by
    exact_mod_cast Nat.mod_add_div em.mantissa 2
  have hle := h.le
  have hlt := h.lt
  rcases Nat.mod_two_eq_zero_or_one em.mantissa with hbit | hbit <;> rw [hbit] at hsplit <;>
    push_cast at hsplit
  · refine ⟨?_, ?_, fun hround => ?_⟩
    · show ((em.mantissa / 2 : ℕ) : ℚ) ≤ x / 2
      linarith
    · show x / 2 < ((em.mantissa / 2 : ℕ) : ℚ) + 1
      linarith
    · simp [ExtendedMantissa.shiftRightOne, hbit] at hround
  · refine ⟨?_, ?_, fun _ => ?_⟩
    · show ((em.mantissa / 2 : ℕ) : ℚ) ≤ x / 2
      linarith
    · show x / 2 < ((em.mantissa / 2 : ℕ) : ℚ) + 1
      linarith
    · show ((em.mantissa / 2 : ℕ) : ℚ) + 1 / 2 ≤ x / 2
      linarith

theorem shiftRight (h : Brackets em x) (n : ℕ) : Brackets (em >>> n) (x / 2 ^ n) := by
  change Brackets (n.repeat ExtendedMantissa.shiftRightOne em) _
  induction n with
  | zero => simpa [Nat.repeat] using h
  | succ n ih =>
    rw [Nat.repeat, pow_succ, ← div_div]
    exact ih.shiftRightOne

/-- Only a fraction of one half or more is rounded up. -/
theorem rounded (h : Brackets em x) :
    em.mantissa ≤ em.roundedMantissa ∧ (em.roundedMantissa : ℚ) ≤ x + 1 / 2 := by
  obtain ⟨m, round, sticky⟩ := em
  have hle := h.le
  have hhalf := h.half
  cases round with
  | false => cases sticky <;> exact ⟨le_rfl, hle.trans (by linarith)⟩
  | true =>
    have hup := hhalf rfl
    have hodd : ((m % 2 : ℕ) : ℚ) ≤ 1 := by exact_mod_cast Nat.le_of_lt_succ (Nat.mod_lt m two_pos)
    cases sticky with
    | false =>
      refine ⟨Nat.le_add_right m _, ?_⟩
      show ((m + m % 2 : ℕ) : ℚ) ≤ x + 1 / 2
      push_cast
      dsimp only at hup
      linarith
    | true =>
      refine ⟨Nat.le_succ m, ?_⟩
      show ((m + 1 : ℕ) : ℚ) ≤ x + 1 / 2
      push_cast
      dsimp only at hup
      linarith

end Brackets

/-- A mantissa of at least fifty-three bits is shifted to that length. -/
theorem shift_exact {m : ℕ} {e : ℤ} {k : ℕ} (hk : m.log2 = 52 + k) (he : -1074 ≤ e) :
    shiftToTargetExponent .binary64 m e .exact =
      (ExtendedMantissa.ofMantissaAndAccuracy m .exact >>> k, e + k) := by
  have htarget : Format.binary64.targetExponent (totalExponent m e) = e + k := by
    simp only [Format.targetExponent, totalExponent, Format.mantissaBits, Format.minExponent, hk]
    norm_num
    omega
  simp only [shiftToTargetExponent, shiftToExponent, htarget, add_sub_cancel_left, Int.toNat_natCast]

/-! ## Rounding -/

/-- What rounding `m · 2 ^ e` leads to. -/
structure Rounds (m : ℕ) (e : ℤ) (m' : ℕ) (e' : ℤ) : Prop where
  normal : 2 ^ 52 ≤ m' ∧ m' < 2 ^ 53
  exponent : e ≤ e'
  le : binary m' e' ≤ binary m e * (1 + 1 / 2 ^ 53)
  bounded : binary m e ≤ largest → e' ≤ 971

/-- The first shift leaves `x` of the mantissa, which is rounded to `r` units of `2 ^ e`. -/
structure Shifted (x : ℚ) (r : ℕ) : Prop where
  low : (2 : ℚ) ^ 52 ≤ x
  high : x < 2 ^ 53
  floor : x < r + 1
  le : (r : ℚ) ≤ x + 1 / 2

namespace Shifted

variable {r : ℕ} {e : ℤ}

theorem normal (h : Shifted x r) : 2 ^ 52 ≤ r ∧ r ≤ 2 ^ 53 := by
  obtain ⟨hlow, hhigh, hfloor, hle⟩ := h
  constructor
  · have : (2 : ℚ) ^ 52 < r + 1 := hlow.trans_lt hfloor
    exact Nat.le_of_lt_succ (by exact_mod_cast this)
  · have : (r : ℚ) < 2 ^ 53 + 1 := by linarith
    exact Nat.le_of_lt_succ (by exact_mod_cast this)

theorem binary_le (h : Shifted x r) (e : ℤ) : binary r e ≤ x * 2 ^ e * (1 + 1 / 2 ^ 53) := by
  have hhalf : (r : ℚ) ≤ x * (1 + 1 / 2 ^ 53) := by linarith [h.le, h.low]
  calc binary r e ≤ x * (1 + 1 / 2 ^ 53) * 2 ^ e := mul_le_mul_of_nonneg_right hhalf (by positivity)
    _ = x * 2 ^ e * (1 + 1 / 2 ^ 53) := by ring

/-- Below the largest float, the rounded mantissa stays in range, and does not even grow too long
where there is no larger exponent. -/
theorem bounded (h : Shifted x r) (hx : x * 2 ^ e ≤ largest) :
    e ≤ 971 ∧ (e = 971 → r < 2 ^ 53) := by
  constructor
  · by_contra hlarge
    have hpow : (2 : ℚ) ^ (972 : ℤ) ≤ 2 ^ e := zpow_le_zpow_right₀ (by norm_num) (by omega)
    have hbig : (2 : ℚ) ^ 52 * 2 ^ (972 : ℤ) ≤ x * 2 ^ e :=
      mul_le_mul h.low hpow (by positivity) (by linarith [h.low])
    have hlargest : largest < 2 ^ 52 * 2 ^ (972 : ℤ) := by
      have hpos : (0 : ℚ) < 2 ^ (971 : ℤ) := by positivity
      rw [largest, binary, show (972 : ℤ) = 971 + 1 by norm_num, zpow_add₀ (by norm_num), zpow_one]
      generalize (2 : ℚ) ^ (971 : ℤ) = unit at hpos
      push_cast
      linarith
    linarith
  · rintro rfl
    rw [largest, binary, mul_le_mul_iff_left₀ (by positivity)] at hx
    have hr : (r : ℚ) < 2 ^ 53 := by
      have := h.le
      push_cast at hx
      linarith
    exact_mod_cast hr

end Shifted

/-- **Rounding adds a part in `2 ^ 53` at most**, and stays within the largest float. -/
theorem round_exact (s : Sign) {m : ℕ} {e : ℤ} (hm : 2 ^ 52 ≤ m) (he : -1074 ≤ e) :
    ∃ m' e' hpos, roundWithAccuracy .binary64 s m e .exact = .finite s m' e' hpos ∧
      Rounds m e m' e' := by
  have hm0 : m ≠ 0 := by
    rintro rfl
    simp at hm
  obtain ⟨k, hk⟩ : ∃ k, m.log2 = 52 + k :=
    ⟨m.log2 - 52, (Nat.add_sub_cancel' ((Nat.le_log2 hm0).2 hm)).symm⟩
  have hvalue : binary m e = m / 2 ^ k * 2 ^ (e + k) := by
    rw [binary, zpow_add₀ (by norm_num), zpow_natCast]
    field_simp
  have hbrackets := (Brackets.exact m).shiftRight k
  obtain ⟨hfloor, hle⟩ := hbrackets.rounded
  generalize hr : (ExtendedMantissa.ofMantissaAndAccuracy m .exact >>> k).roundedMantissa = r at *
  have hshifted : Shifted ((m : ℚ) / 2 ^ k) r := by
    refine ⟨?_, ?_, ?_, hle⟩
    · rw [le_div_iff₀ (by positivity), ← pow_add, ← hk]
      exact_mod_cast Nat.log2_self_le hm0
    · rw [div_lt_iff₀ (by positivity), ← pow_add, show 53 + k = m.log2 + 1 by omega]
      exact_mod_cast Nat.lt_log2_self
    · have hcast := Nat.cast_le (α := ℚ).2 hfloor
      linarith [hbrackets.lt]
  obtain ⟨hlow, hhigh⟩ := hshifted.normal
  have hup := hshifted.binary_le (e + k)
  have hr0 : r ≠ 0 := by omega
  rcases Nat.lt_or_eq_of_le hhigh with hlt | rfl
  · have hlog : r.log2 = 52 + 0 := (Nat.log2_eq_iff hr0).2 ⟨hlow, hlt⟩
    refine ⟨r, e + k, by omega, ?_, ⟨hlow, hlt⟩, by omega, hvalue ▸ hup, fun hbound => ?_⟩
    · simp only [roundWithAccuracy, shift_exact hk he, hr, shift_exact hlog (e := e + k) (by omega),
        Nat.cast_zero, add_zero]
      exact dif_neg hr0
    · exact (hshifted.bounded (hvalue ▸ hbound)).1
  · -- the rounded mantissa has grown by a bit, which is shifted out again
    have hlog : (2 ^ 53).log2 = 52 + 1 := Nat.log2_two_pow
    refine ⟨2 ^ 52, e + k + 1, by norm_num, ?_, by norm_num, by omega, ?_, fun hbound => ?_⟩
    · simp only [roundWithAccuracy, shift_exact hk he, hr, shift_exact hlog (e := e + k) (by omega),
        Nat.cast_one]
      rfl
    · rw [hvalue, show (1 : ℤ) = (1 : ℕ) by rfl, binary_add]
      exact hup
    · have := hshifted.bounded (hvalue ▸ hbound)
      omega

/-! ## Floats -/

theorem toNat_withLeadingBit {m : ℕ} (hm : 2 ^ 52 ≤ m ∧ m < 2 ^ 53) :
    (1#1 ++ BitVec.ofNat 52 m).toNat = m := by
  rw [BitVec.toNat_append, ← Nat.shiftLeft_add_eq_or_of_lt (BitVec.isLt _), BitVec.toNat_ofNat]
  simp only [BitVec.toNat_ofNat, Nat.shiftLeft_eq]
  omega

/-- A float of full length comes back from its bits. -/
theorem unpack_pack {s : Sign} {m : ℕ} {e : ℤ} (hpos : 0 < m) (hm : 2 ^ 52 ≤ m ∧ m < 2 ^ 53)
    (hlow : -1074 ≤ e) (hhigh : e ≤ 971) :
    (Float.Model.pack (.finite s m e hpos)).unpack = .finite s m e hpos := by
  have hlog : m.log2 = 52 := (Nat.log2_eq_iff (by omega)).2 hm
  obtain ⟨b, hb⟩ : ∃ b : ℕ, (b : ℤ) = e + 1075 := ⟨(e + 1075).toNat, by omega⟩
  have hbiased : e + ((1023 : ℕ) : ℤ) + ((52 : ℕ) : ℤ) = b := by omega
  have hexponent : (BitVec.ofNat 11 b).toNat = b := by
    rw [BitVec.toNat_ofNat, Nat.mod_eq_of_lt (by omega)]
  have hfull : BitVec.ofNat 11 b ≠ -1#_ := fun h => by
    have := congrArg BitVec.toNat h
    rw [hexponent] at this
    simp at this
    omega
  have hzero : BitVec.ofNat 11 b ≠ 0#_ := fun h => by
    have := congrArg BitVec.toNat h
    rw [hexponent] at this
    simp at this
    omega
  have hfits : ¬ 2 ^ 11 ≤ b + 1 := by omega
  have hbias : Format.exponentBias .binary64 = 1023 := by decide
  have hbits : Format.mantissaBits .binary64 = 53 := by decide
  simp only [Float.Model.unpack, Float.Model.pack, UnpackedFloat.pack, hbias, hbiased, Int.toNat_natCast,
    if_neg hfits, hlog, hbits, if_true]
  simp only [UnpackedFloat.unpack, unpackExponent_packComponents, unpackMantissa_packComponents,
    unpackSign_packComponents, if_neg hfull, if_neg hzero, toNat_withLeadingBit hm, hexponent, hbias]
  congr 1
  · cases s <;> rfl
  · omega

/-- A positive float of full length that is not too small, and its value. -/
inductive HasValue (x : Float) : ℚ → Prop
  | intro {m : ℕ} {e : ℤ} (hpos : 0 < m) (hunpack : x.toModel.unpack = .finite .positive m e hpos)
    (hm : 2 ^ 52 ≤ m) (he : -53 ≤ e) : HasValue x (binary m e)

theorem HasValue.nonneg {x : Float} {v : ℚ} (h : HasValue x v) : 0 ≤ v := by
  cases h
  rw [binary]
  positivity

theorem hasValue_of_round {f : UnpackedFloat} {m : ℕ} {e : ℤ}
    (hf : f = roundWithAccuracy .binary64 .positive m e .exact) (hm : 2 ^ 52 ≤ m) (he : -53 ≤ e)
    (hbound : binary m e ≤ largest) :
    ∃ v, HasValue (.ofModel (Float.Model.pack f)) v ∧ v ≤ binary m e * (1 + 1 / 2 ^ 53) := by
  obtain ⟨m', e', hpos, hround, hrounds⟩ := round_exact .positive hm (show -1074 ≤ e by omega)
  have he' := hrounds.exponent
  have hunpack := unpack_pack (s := .positive) hpos hrounds.normal (by omega) (hrounds.bounded hbound)
  rw [← hround, ← hf] at hunpack
  exact ⟨_, .intro hpos (hunpack.trans (hf.trans hround)) hrounds.normal.1 (by omega), hrounds.le⟩

theorem largest_eq : largest = ((2 ^ 53 - 1) * 2 ^ 971 : ℕ) := by
  rw [largest, show (971 : ℤ) = 0 + (971 : ℕ) by rfl, binary_add, binary, zpow_zero, mul_one]

theorem binary_shift (n a : ℕ) : binary (n <<< a) (-a) = n := by
  rw [Nat.shiftLeft_eq, ← binary_add, neg_add_cancel, binary, zpow_zero, mul_one]

/-- A whole number of fewer bits is shifted to full length first. -/
theorem hasValue_natural {n : ℕ} (hn : 1 ≤ n) (hword : n < Numeral.word) :
    ∃ v, HasValue n.toUInt64.toFloat v ∧ v ≤ n * (1 + 1 / 2 ^ 53) := by
  have hnat : n.toUInt64.toNat = n := Nat.mod_eq_of_lt hword
  have htarget : Format.binary64.targetExponent (totalExponent n 0) = (n.log2 : ℤ) - 52 := by
    simp only [Format.targetExponent, totalExponent, Format.mantissaBits, Format.minExponent]
    norm_num
    omega
  have hcompare : compare (n : ℤ) 0 = .gt := compare_gt_iff_gt.2 (by omega)
  generalize ha : (0 - ((n.log2 : ℤ) - 52)).toNat = a
  have hm : 2 ^ 52 ≤ n <<< a := by
    rw [Nat.shiftLeft_eq]
    calc 2 ^ 52 ≤ 2 ^ (n.log2 + a) := Nat.pow_le_pow_right two_pos (by omega)
      _ = 2 ^ n.log2 * 2 ^ a := Nat.pow_add ..
      _ ≤ n * 2 ^ a := Nat.mul_le_mul_right _ (Nat.log2_self_le (by omega))
  have hround : UnpackedFloat.ofUInt64 .binary64 n.toUInt64 =
      roundWithAccuracy .binary64 .positive (n <<< a) (-a) .exact := by
    simp only [UnpackedFloat.ofUInt64, UnpackedFloat.ofNat, UnpackedFloat.ofInt,
      UnpackedFloat.normalize, hnat, hcompare, UnpackedFloat.round, decreaseExponent,
      Int.toNat_natCast, htarget, ha]
    rw [zero_sub]
  have hbound : binary (n <<< a) (-a) ≤ largest := by
    rw [binary_shift, largest_eq, Nat.cast_le]
    exact (Nat.le_of_lt hword).trans (by decide +kernel)
  obtain ⟨v, hv, hle⟩ := hasValue_of_round hround hm (by omega) hbound
  rw [binary_shift] at hle
  exact ⟨v, hv, hle⟩

/-- Small powers of ten are looked up in a table, which agrees with how the others are made. -/
theorem powerOfTen_eq (k : ℕ) :
    Json.Number.powerOfTen k = .ofModel (Float.Model.ofScientific 1 k) := by
  by_cases hk : k < 23
  · have hsmall : ∀ k : Fin 23, Json.Number.powerOfTen k = .ofModel (Float.Model.ofScientific 1 k) := by
      decide +kernel
    exact hsmall ⟨k, hk⟩
  · rw [Json.Number.powerOfTen, Float.ofScientific, dif_neg (by omega)]
    rfl

theorem hasValue_powerOfTen {k : ℕ} (hk : k ≤ 308) :
    ∃ v, HasValue (Json.Number.powerOfTen k) v ∧ v ≤ 10 ^ k * (1 + 1 / 2 ^ 53) := by
  have hone : (1 : ℕ) <<< 53 * 10 ^ k = (10 ^ k) <<< 53 := by
    rw [Nat.shiftLeft_eq, Nat.shiftLeft_eq, one_mul, mul_comm]
  have hbits : Format.mantissaBits .binary64 = 53 := by decide
  have hround : UnpackedFloat.ofScientific .binary64 1 k =
      roundWithAccuracy .binary64 .positive ((10 ^ k) <<< 53) (-(53 : ℕ)) .exact := by
    rw [UnpackedFloat.ofScientific, dif_neg one_ne_zero, if_neg (by norm_num; omega),
      if_neg (by norm_num; omega), if_pos (by omega)]
    simp only [UnpackedFloat.mul, Int.toNat_natCast, hbits, hone, add_zero]
    rfl
  have hm : 2 ^ 52 ≤ (10 ^ k) <<< 53 := by
    rw [Nat.shiftLeft_eq]
    have : 1 ≤ 10 ^ k := Nat.one_le_pow _ _ (by norm_num)
    omega
  have hbound : binary ((10 ^ k) <<< 53) (-(53 : ℕ)) ≤ largest := by
    rw [binary_shift, largest_eq, Nat.cast_le]
    exact (Nat.pow_le_pow_right (by norm_num) hk).trans (by decide +kernel)
  obtain ⟨v, hv, hle⟩ := hasValue_of_round hround hm (by norm_num) hbound
  rw [binary_shift] at hle
  rw [powerOfTen_eq]
  exact ⟨v, hv, by exact_mod_cast hle⟩

/-- **A product is finite** if the exact product is not above the largest float. -/
theorem isInf_mul {x y : Float} {v w : ℚ} (hx : HasValue x v) (hy : HasValue y w)
    (h : v * w ≤ largest) : (x * y).isInf = false := by
  cases hx with
  | @intro m e hmpos hxunpack hm he =>
  cases hy with
  | @intro n g hnpos hyunpack hn hg =>
  have hexact : binary (m * n) (e + g) = binary m e * binary n g := by
    rw [binary, binary, binary, zpow_add₀ (by norm_num), Nat.cast_mul]
    ring
  have hfull : 2 ^ 52 ≤ m * n := hm.trans (Nat.le_mul_of_pos_right m hnpos)
  obtain ⟨m', e', hpos, hround, hrounds⟩ := round_exact .positive hfull (show -1074 ≤ e + g by omega)
  have he' := hrounds.exponent
  have hunpack := unpack_pack (s := .positive) hpos hrounds.normal (by omega)
    (hrounds.bounded (hexact ▸ h))
  show (Float.Model.pack (UnpackedFloat.mul .binary64 x.toModel.unpack y.toModel.unpack)).unpack.isInf =
    false
  rw [hxunpack, hyunpack, UnpackedFloat.mul, show Sign.positive * Sign.positive = Sign.positive from rfl,
    hround, hunpack]
  rfl

/-! ## Finite floats -/

theorem toNat_unpackExponent (b : BitVec 64) :
    (@unpackExponent .binary64 b).toNat = b.toNat / 2 ^ 52 % 2 ^ 11 := by
  simp only [unpackExponent, BitVec.toNat_cast, BitVec.extractLsb_toNat, Nat.shiftRight_eq_div_pow]

/-- A float is finite unless all bits of its exponent are set. -/
theorem isFinite_iff (x : Float) :
    x.isFinite = true ↔ x.toBits.toNat / 2 ^ 52 % 2 ^ 11 ≠ 2047 := by
  have hfull : @unpackExponent .binary64 x.toModel.toBits.toBitVec = -1#_ ↔
      x.toBits.toNat / 2 ^ 52 % 2 ^ 11 = 2047 := by
    rw [← BitVec.toNat_inj, toNat_unpackExponent]
    exact .rfl
  rw [Ne, ← hfull]
  show (UnpackedFloat.unpack .binary64 x.toModel.toBits.toBitVec).isFinite = true ↔ _
  simp only [UnpackedFloat.unpack]
  split
  · rename_i h
    split <;> exact iff_of_false Bool.false_ne_true (not_not.2 h)
  · rename_i h
    split
    · split <;> exact iff_of_true rfl h
    · exact iff_of_true rfl h

/-- Exactly the finite floats have a text in a job file. -/
theorem isSome_filed? (x : Float) : (filed? x).isSome = true ↔ x.isFinite = true := by
  have hparts : (∃ negative m e, parts x = .finite negative m e) ↔ x.isFinite = true := by
    rw [isFinite_iff]
    simp only [parts, Nat.pow_eq]
    split
    · rename_i h
      refine iff_of_false ?_ (not_not.2 h)
      split <;> simp
    · rename_i h
      split <;> exact iff_of_true ⟨_, _, _, rfl⟩ h
  rw [← hparts]
  unfold filed?
  split
  · exact iff_of_true rfl ⟨_, _, _, ‹_›⟩
  · rename_i h
    refine iff_of_false Bool.false_ne_true ?_
    rintro ⟨negative, m, e, hfinite⟩
    exact h negative m e hfinite

end Restoration.Decimal
