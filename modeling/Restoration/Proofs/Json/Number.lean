import Restoration.Json.Number

/-!
# Numbers come back

A number that can be read is found whole in front of whatever may follow a value, so that it is the
same number in a longer text. Natural numbers can be read if they fit in a word. A float has a text
unless it is infinite or no number at all; whether the text is read as this very float depends on
the float.

    read t = ok n   →   scan (t ++ r) = ok (t, r)
-/

namespace Restoration

namespace Numeral

/-- Digits, and at least one. -/
structure Row (ds : List Char) : Prop where
  ne_nil : ds ≠ []
  digit : ∀ c ∈ ds, isDigit c = true

theorem row_digits (n : Nat) : Row (digits n) := ⟨digits_ne_nil n, fun _ => isDigit_of_mem_digits⟩

theorem isDigit_zero : isDigit '0' = true := by decide

theorem digit_ne_zero : ∀ d : Fin 10, d.val ≠ 0 → digit d ≠ '0' := by decide

/-- A numeral has no zero ahead. -/
theorem head?_digits {n : Nat} (hn : n ≠ 0) : (digits n).head? ≠ some '0' := by
  induction n using digits.induct with
  | case1 n hlt =>
    simpa [digits_of_lt hlt] using digit_ne_zero ⟨n, hlt⟩ hn
  | case2 n hlt ih =>
    obtain ⟨c, ds, hds⟩ := List.exists_cons_of_ne_nil (digits_ne_nil (n / 10))
    have := ih (by omega)
    rw [digits_of_le (by omega)]
    rw [hds] at this ⊢
    exact this

theorem le_valueFrom (n : Nat) (ds : List Char) : n ≤ valueFrom n ds := by
  induction ds generalizing n with
  | nil => exact Nat.le_refl n
  | cons c ds ih =>
    have := ih (10 * n + digitValue c)
    rw [valueFrom, List.foldl_cons] at *
    omega

end Numeral

namespace Json.Number

open Numeral

variable {c : Char} {ds r t : List Char} {n : Number}

/-! ## Texts of numbers -/

/-- A point and digits, or nothing. -/
def IsFraction (t : List Char) : Prop := t = [] ∨ ∃ ds, Row ds ∧ t = '.' :: ds

/-- A letter, a sign and digits, or nothing. -/
def IsExponent (t : List Char) : Prop :=
  t = [] ∨ ∃ sign ds, (sign = '+' ∨ sign = '-') ∧ Row ds ∧ t = 'e' :: sign :: ds

/-- A number without a sign, perhaps with zeros ahead. -/
inductive Magnitude : List Char → Prop
  | intro {whole fraction exponent : List Char} (hwhole : Row whole) (hfraction : IsFraction fraction)
    (hexponent : IsExponent exponent) : Magnitude (whole ++ (fraction ++ exponent))

/-- A number, perhaps with zeros ahead. -/
inductive Spelled : List Char → Prop
  | positive {t : List Char} (h : Magnitude t) : Spelled t
  | negative {t : List Char} (h : Magnitude t) : Spelled ('-' :: t)

/-- The text goes on with nothing that may belong to a number. -/
def Stops (r : List Char) : Prop := ∀ c ∈ r.head?, isDigit c = false ∧ c ≠ '.' ∧ c ≠ 'e' ∧ c ≠ 'E'

/-! ## Finding the end -/

theorem scanDigits_stop (hr : ∀ c ∈ r.head?, isDigit c = false) : scanDigits r = ([], r) := by
  cases r with
  | nil => rfl
  | cons c r => simp [scanDigits, hr c rfl]

theorem scanDigits_append (h : Row ds) (hr : ∀ c ∈ r.head?, isDigit c = false) :
    scanDigits (ds ++ r) = (ds, r) := by
  obtain ⟨htake, hdrop⟩ := Prod.mk.inj (scanDigits_stop hr)
  rw [scanDigits, List.takeWhile_append_of_pos h.digit, List.dropWhile_append_of_pos h.digit, htake,
    hdrop, List.append_nil]

theorem scanDigits_row (h : Row ds) : scanDigits ds = (ds, []) := by
  simpa using scanDigits_append (r := []) h (by simp)

theorem scanWhole_append (h : Row ds) (hzero : ¬ (ds.head? = some '0' ∧ ds.length ≠ 1))
    (hr : ∀ c ∈ r.head?, isDigit c = false) : scanWhole (ds ++ r) = .ok (ds, r) := by
  obtain ⟨c, w, rfl⟩ := List.exists_cons_of_ne_nil h.ne_nil
  unfold scanWhole
  split
  · rename_i heq
    obtain ⟨rfl, rfl⟩ := List.cons.inj heq
    obtain rfl : w = [] := by simpa using hzero
    simp [scanDigits_stop hr]
  · rw [scanDigits_append h hr]
    rfl

theorem scanFraction_append (h : IsFraction t) (hr : ∀ c ∈ r.head?, isDigit c = false ∧ c ≠ '.') :
    scanFraction (t ++ r) = .ok (t, r) := by
  rcases h with rfl | ⟨ds, hds, rfl⟩
  · unfold scanFraction
    split
    · rename_i heq
      rw [List.nil_append] at heq
      exact absurd rfl (hr '.' (by simp [heq])).2
    · rfl
  · simp [scanFraction, scanDigits_append hds fun c hc => (hr c hc).1, hds.ne_nil]

theorem scanExponent_append (h : IsExponent t) (hr : Stops r) :
    scanExponent (t ++ r) = .ok (t, r) := by
  rcases h with rfl | ⟨sign, ds, hsign, hds, rfl⟩
  · cases r with
    | nil => rfl
    | cons c r =>
      obtain ⟨-, -, he, hE⟩ := hr c rfl
      simp [scanExponent, he, hE]
  · have hscan := scanDigits_append hds fun c hc => (hr c hc).1
    rcases hsign with rfl | rfl <;> simp [scanExponent, scanSign, hscan, hds.ne_nil]

theorem IsExponent.stop (h : IsExponent t) (hr : Stops r) :
    ∀ c ∈ (t ++ r).head?, isDigit c = false ∧ c ≠ '.' := by
  rcases h with rfl | ⟨sign, ds, -, -, rfl⟩
  · exact fun c hc => ⟨(hr c hc).1, (hr c hc).2.1⟩
  · rintro c ⟨⟩
    decide

theorem IsFraction.stop (h : IsFraction t) (hr : ∀ c ∈ r.head?, isDigit c = false) :
    ∀ c ∈ (t ++ r).head?, isDigit c = false := by
  rcases h with rfl | ⟨ds, -, rfl⟩
  · exact hr
  · rintro c ⟨⟩
    decide

theorem stops_nil : Stops [] := fun _ hc => nomatch hc

/-- A number that can be read has no zero ahead of another digit. -/
theorem no_zero_of_readUnsigned {negated : Bool} (hds : Row ds) (hr : ∀ c ∈ r.head?, isDigit c = false)
    (h : readUnsigned negated (ds ++ r) = .ok n) : ¬ (ds.head? = some '0' ∧ ds.length ≠ 1) := by
  intro hzero
  rw [readUnsigned, scanDigits_append hds hr] at h
  simp only [List.isEmpty_iff, hds.ne_nil, if_false, if_pos hzero] at h
  cases h

theorem Magnitude.scan_unsigned {negated : Bool} (h : Magnitude t)
    (hread : readUnsigned negated t = .ok n) (hr : Stops r) : ∃ whole fraction exponent u v,
      t = whole ++ fraction ++ exponent ∧ scanWhole (t ++ r) = .ok (whole, u) ∧
        scanFraction u = .ok (fraction, v) ∧ scanExponent v = .ok (exponent, r) := by
  cases h with
  | @intro whole fraction exponent hwhole hfraction hexponent =>
    have hend : ∀ c ∈ (fraction ++ (exponent ++ r)).head?, isDigit c = false :=
      hfraction.stop fun c hc => (hexponent.stop hr c hc).1
    have hzero := no_zero_of_readUnsigned hwhole
      (hfraction.stop fun c hc => (hexponent.stop stops_nil c (by simpa using hc)).1) hread
    refine ⟨whole, fraction, exponent, fraction ++ (exponent ++ r), exponent ++ r, ?_, ?_, ?_, ?_⟩
    · rw [List.append_assoc]
    · rw [List.append_assoc, List.append_assoc]
      exact scanWhole_append hwhole hzero hend
    · exact scanFraction_append hfraction (hexponent.stop hr)
    · exact scanExponent_append hexponent hr

theorem Magnitude.head (h : Magnitude t) : ∃ c u, t = c :: u ∧ isDigit c = true := by
  cases h with
  | @intro whole _ _ hwhole _ _ =>
    obtain ⟨c, w, rfl⟩ := List.exists_cons_of_ne_nil hwhole.ne_nil
    exact ⟨c, _, rfl, hwhole.digit c List.mem_cons_self⟩

theorem ne_minus (h : isDigit c = true) : c ≠ '-' := by
  rintro rfl
  cases h

theorem read_digit (h : isDigit c = true) (t : List Char) :
    read (c :: t) = readUnsigned false (c :: t) := by
  unfold read
  split
  · exact absurd (List.cons.inj ‹_›).1 (ne_minus h)
  · rfl

/-- **A number that can be read is found whole** in front of what does not belong to it. -/
theorem scan_of_read (h : Spelled t) (hread : read t = .ok n) (hr : Stops r) :
    scan (t ++ r) = .ok (t, r) := by
  cases h with
  | positive h =>
    obtain ⟨c, u, rfl, hc⟩ := h.head
    rw [read_digit hc] at hread
    obtain ⟨whole, fraction, exponent, v, w, hparts, hwhole, hfraction, hexponent⟩ :=
      h.scan_unsigned hread hr
    rw [List.cons_append] at hwhole ⊢
    simp [scan, ne_minus hc, hwhole, hfraction, hexponent, bind, Except.bind, pure, Except.pure, hparts]
  | @negative t h =>
    obtain ⟨whole, fraction, exponent, v, w, hparts, hwhole, hfraction, hexponent⟩ :=
      h.scan_unsigned hread hr
    simp only [scan, List.cons_append, hwhole, hfraction, hexponent, bind, Except.bind, pure,
      Except.pure]
    rw [hparts, List.append_assoc, List.append_assoc, List.append_assoc]
    rfl

/-! ## Natural numbers -/

theorem absorb_row (hds : ∀ c ∈ ds, isDigit c = true) {m : Nat} (h : valueFrom m ds < word) :
    absorb m ds = (valueFrom m ds, []) := by
  induction ds generalizing m with
  | nil => rfl
  | cons c ds ih =>
    have hlt : 10 * m + digitValue c < word := Nat.lt_of_le_of_lt (le_valueFrom _ ds) h
    rw [absorb, hds c List.mem_cons_self, if_pos (by simpa using hlt)]
    exact ih (fun d hd => hds d (List.mem_cons_of_mem _ hd)) h

theorem spelled_digits (m : Nat) : Spelled (digits m) := by
  have h : Magnitude (digits m ++ ([] ++ [])) := .intro (row_digits m) (.inl rfl) (.inl rfl)
  simpa using Spelled.positive h

theorem read_digits {m : Nat} (h : m < word) : read (digits m) = .ok (.natural m) := by
  have hrow := row_digits m
  have hzero : ¬ ((digits m).head? = some '0' ∧ (digits m).length ≠ 1) := by
    rintro ⟨hhead, hlength⟩
    by_cases hm : m = 0
    · rw [hm, digits_of_lt (by omega)] at hlength
      exact hlength rfl
    · exact head?_digits hm hhead
  have hvalue : absorb 0 (digits m) = (m, []) := by
    rw [absorb_row hrow.digit, valueFrom_digits]
    rwa [valueFrom_digits]
  have hunsigned : readUnsigned false (digits m) = .ok (.natural m) := by
    rw [readUnsigned, scanDigits_row hrow]
    simp only [List.isEmpty_iff, hrow.ne_nil, if_false, if_neg hzero, hvalue]
    rfl
  obtain ⟨c, ds, hds⟩ := List.exists_cons_of_ne_nil hrow.ne_nil
  rw [hds] at hunsigned ⊢
  rw [read_digit (hrow.digit c (hds ▸ List.mem_cons_self)), hunsigned]

/-! ## Floats -/

open Decimal

theorem isDigit_of_mem_zeros {k : Nat} (h : c ∈ List.replicate k '0') : isDigit c = true :=
  (List.mem_replicate.1 h).2 ▸ isDigit_zero

/-- How a point is written positionally. -/
structure Positional (p : Point) (whole places : List Char) : Prop where
  text : (p.positional ".0").toList = whole ++ '.' :: places
  row : Row whole
  places : Row places
  no_zero : (p.digits = 0 → p.exponent = 0) → ¬ (whole.head? = some '0' ∧ whole.length ≠ 1)
  short : (whole.length : Int) ≤ max 1 (p.exponent + (digits p.digits).length)

theorem head?_append_digits {n : Nat} (hn : n ≠ 0) (r : List Char) :
    (digits n ++ r).head? ≠ some '0' := by
  have hhead := head?_digits hn
  obtain ⟨c, ds, hds⟩ := List.exists_cons_of_ne_nil (digits_ne_nil n)
  rwa [hds] at hhead ⊢

theorem exists_positional_of_nonneg {p : Point} (hexponent : 0 ≤ p.exponent) :
    ∃ whole places, Positional p whole places := by
  have hrow := row_digits p.digits
  refine ⟨digits p.digits ++ List.replicate p.exponent.toNat '0', ['0'], {
    text := by simp [Point.positional, hexponent]
    row := ⟨by simp [hrow.ne_nil], fun c hc =>
      (List.mem_append.1 hc).elim (hrow.digit c) isDigit_of_mem_zeros⟩
    places := ⟨by simp, fun c hc => List.mem_singleton.1 hc ▸ isDigit_zero⟩
    no_zero := ?_
    short := ?_ }⟩
  · rintro hzero ⟨hstarts, hlength⟩
    by_cases hdigits : p.digits = 0
    · rw [hdigits, hzero hdigits, digits_of_lt (by omega)] at hlength
      exact hlength rfl
    · exact head?_append_digits hdigits _ hstarts
  · rw [List.length_append, List.length_replicate]
    omega

theorem exists_positional_of_neg {p : Point} (hexponent : p.exponent < 0) :
    ∃ whole places, Positional p whole places := by
  have hrow := row_digits p.digits
  generalize hplaces : (-p.exponent).toNat = places
  generalize hall : List.replicate (places + 1 - (digits p.digits).length) '0' ++
    digits p.digits = all
  have hdigit : ∀ c ∈ all, isDigit c = true := by
    intro c hc
    rw [← hall] at hc
    exact (List.mem_append.1 hc).elim isDigit_of_mem_zeros (hrow.digit c)
  have hlength : all.length = max (places + 1) (digits p.digits).length := by
    rw [← hall, List.length_append, List.length_replicate]
    omega
  have htake : (all.take (all.length - places)).length = all.length - places := by
    rw [List.length_take]
    omega
  have hdrop : (all.drop (all.length - places)).length = places := by
    rw [List.length_drop]
    omega
  refine ⟨all.take (all.length - places), all.drop (all.length - places), {
    text := by simp [Point.positional, Int.not_le.2 hexponent, hplaces, hall]
    row := ⟨fun h => ?_, fun c hc => hdigit c (List.mem_of_mem_take hc)⟩
    places := ⟨fun h => ?_, fun c hc => hdigit c (List.mem_of_mem_drop hc)⟩
    no_zero := ?_
    short := ?_ }⟩
  · rw [h, List.length_nil] at htake
    omega
  · rw [h, List.length_nil] at hdrop
    omega
  · -- digits stand ahead of the point only if no zeros had to be put ahead of them
    rintro hzero ⟨hstarts, hlong⟩
    have hzeros : places + 1 - (digits p.digits).length = 0 := by omega
    have hdigits : p.digits ≠ 0 := fun h => by
      have := hzero h
      omega
    rw [hzeros, List.replicate_zero, List.nil_append] at hall
    rw [List.head?_take, if_neg (by omega), ← hall] at hstarts
    exact head?_digits hdigits hstarts
  · rw [htake]
    omega

theorem exists_positional (p : Point) : ∃ whole places, Positional p whole places :=
  (Int.lt_or_le p.exponent 0).elim exists_positional_of_neg exists_positional_of_nonneg

theorem Positional.magnitude {p : Point} {whole places : List Char} (h : Positional p whole places) :
    Magnitude (p.positional ".0").toList := by
  have := Magnitude.intro h.row (.inr ⟨_, h.places, rfl⟩) (.inl rfl)
  simpa [h.text] using this

/-- The places of a point in scientific layout. -/
def fractionText (ds : List Char) : List Char := if ds.isEmpty then [] else '.' :: ds

/-- The exponent of a point in scientific layout. -/
def exponentText (power : Int) : List Char :=
  'e' :: (if power < 0 then '-' else '+') :: digits power.natAbs

theorem toList_scientific {p : Point} (h : digits p.digits = c :: ds) :
    p.scientific.toList = [c] ++ (fractionText ds ++ exponentText (p.exponent + ds.length)) := by
  have hpower : p.exponent + ((c :: ds).length : Int) - 1 = p.exponent + ds.length := by
    rw [List.length_cons]
    omega
  unfold Point.scientific
  dsimp only
  rw [h, hpower]
  by_cases hsign : p.exponent + (ds.length : Int) < 0 <;>
    simp [hsign, text, fractionText, exponentText]

theorem isExponent_exponentText (power : Int) : IsExponent (exponentText power) := by
  refine .inr ⟨_, _, ?_, row_digits _, rfl⟩
  split <;> simp

theorem magnitude_scientific (p : Point) : Magnitude p.scientific.toList := by
  obtain ⟨c, ds, hds⟩ := List.exists_cons_of_ne_nil (digits_ne_nil p.digits)
  have hrow := hds ▸ row_digits p.digits
  have hhead : Row [c] :=
    ⟨by simp, fun d hd => hrow.digit d (List.mem_singleton.1 hd ▸ List.mem_cons_self)⟩
  have hfraction : IsFraction (fractionText ds) := by
    unfold fractionText
    split
    · exact .inl rfl
    · rename_i hds
      refine .inr ⟨ds, ⟨by simpa using hds, fun d hd => ?_⟩, rfl⟩
      exact hrow.digit d (List.mem_cons_of_mem c hd)
  rw [toList_scientific hds]
  exact .intro hhead hfraction (isExponent_exponentText _)

/-- The text of a float is a number. -/
theorem spelled_filed {x : Float} {s : String} (h : filed? x = some s) : Spelled s.toList := by
  unfold filed? at h
  split at h
  · rename_i negative m e _
    cases h
    rw [String.toList_append]
    have hbody : ∀ body : String, Magnitude body.toList →
        Spelled ((signText negative).toList ++ body.toList) := by
      intro body h
      cases negative with
      | false => exact .positive h
      | true => exact .negative h
    split
    · obtain ⟨whole, places, h⟩ := exists_positional (shortest .toEven m e)
      exact hbody _ h.magnitude
    · exact hbody _ (magnitude_scientific _)
  · cases h

end Json.Number

end Restoration
