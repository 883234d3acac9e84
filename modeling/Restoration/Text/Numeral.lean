/-!
# Decimal numerals

Natural numbers in base ten, and reading them back.

    value? (digits n) = some n
-/

namespace Restoration.Numeral

/-! ## Algorithm -/

/-- The character of a digit below ten. -/
def digit (d : Nat) : Char := Char.ofNat ('0'.toNat + d)

/-- Is it one of the ten digits? -/
def isDigit (c : Char) : Bool := '0' ≤ c && c ≤ '9'

/-- The value of a digit. -/
def digitValue (c : Char) : Nat := c.toNat - '0'.toNat

/-- The numeral of a number, without leading zeros. -/
def digits (n : Nat) : List Char :=
  if n < 10 then [digit n] else digits (n / 10) ++ [digit (n % 10)]
termination_by n

/-- The number that a row of digits stands for, on top of the digits read before. -/
def valueFrom (acc : Nat) (ds : List Char) : Nat :=
  ds.foldl (fun v c => 10 * v + digitValue c) acc

/-- The number that a non-empty row of digits stands for; leading zeros are allowed. -/
def value? (ds : List Char) : Option Nat :=
  if ds.isEmpty || ds.any (!isDigit ·) then none else some (valueFrom 0 ds)

/-- Reads a number below `bound`: digits, with or without a plus sign ahead of them. -/
def read? (bound : Nat) (t : List Char) : Option Nat :=
  let ds := match t with
    | '+' :: r => r
    | _ => t
  match value? ds with
  | some n => if n < bound then some n else none
  | none => none

/-- A numeral as a string. -/
def text (n : Nat) : String := String.ofList (digits n)

/-- How many numbers a word of 64 bits can hold. -/
def word : Nat := UInt64.size

/-! ## Lemmas -/

theorem digits_of_lt {n : Nat} (h : n < 10) : digits n = [digit n] := by
  rw [digits, if_pos h]

theorem digits_of_le {n : Nat} (h : 10 ≤ n) : digits n = digits (n / 10) ++ [digit (n % 10)] := by
  rw [digits, if_neg (by omega)]

theorem digits_ne_nil (n : Nat) : digits n ≠ [] := by
  rw [digits]; split <;> simp

theorem digit_spec : ∀ d : Fin 10, isDigit (digit d) = true ∧ digitValue (digit d) = d := by decide

theorem isDigit_digit {d : Nat} (h : d < 10) : isDigit (digit d) = true := (digit_spec ⟨d, h⟩).1

theorem digitValue_digit {d : Nat} (h : d < 10) : digitValue (digit d) = d := (digit_spec ⟨d, h⟩).2

theorem isDigit_of_mem_digits {n : Nat} {c : Char} (h : c ∈ digits n) : isDigit c = true := by
  induction n using digits.induct with
  | case1 n hn =>
    rw [digits_of_lt hn, List.mem_singleton] at h
    exact h ▸ isDigit_digit hn
  | case2 n hn ih =>
    rw [digits_of_le (by omega), List.mem_append, List.mem_singleton] at h
    rcases h with h | h
    · exact ih h
    · exact h ▸ isDigit_digit (Nat.mod_lt _ (by omega))

theorem valueFrom_digits (n : Nat) : valueFrom 0 (digits n) = n := by
  induction n using digits.induct with
  | case1 n hn => simp [digits_of_lt hn, valueFrom, digitValue_digit hn]
  | case2 n hn ih =>
    rw [digits_of_le (by omega)]
    simp only [valueFrom, List.foldl_append, List.foldl_cons, List.foldl_nil] at ih ⊢
    rw [ih, digitValue_digit (Nat.mod_lt _ (by omega))]
    omega

theorem value?_digits (n : Nat) : value? (digits n) = some n := by
  have h : (digits n).any (!isDigit ·) = false := by
    simp only [List.any_eq_false, Bool.not_eq_true, Bool.not_eq_false']
    exact fun c hc => isDigit_of_mem_digits hc
  simp [value?, digits_ne_nil, h, valueFrom_digits]

end Restoration.Numeral
