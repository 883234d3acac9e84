/-!
# Binary fractions

A float taken apart into sign, mantissa and power of two, and its rounding to a whole number.
All arithmetic is on natural numbers, hence exact.

    parts x = finite s m e   means   |x| = m · 2 ^ e
-/

namespace Restoration.Decimal

/-- What a float stands for. -/
inductive Parts where
  | finite (negative : Bool) (mantissa : Nat) (exponent : Int)
  | infinite (negative : Bool)
  | nan
  deriving DecidableEq, Repr

/-- The fields of the 64-bit format: one sign bit, eleven of exponent, fifty-two of fraction. -/
def parts (x : Float) : Parts :=
  let bits := x.toBits.toNat
  let negative := bits / Nat.pow 2 63 == 1
  let exponent : Nat := bits / Nat.pow 2 52 % Nat.pow 2 11
  let fraction : Nat := bits % Nat.pow 2 52
  if exponent = 2047 then
    if fraction = 0 then .infinite negative else .nan
  else if exponent = 0 then .finite negative fraction (-1074)
  else .finite negative (fraction + Nat.pow 2 52) ((exponent : Int) - 1075)

/-- The whole number nearest to `m · 2 ^ e`; a half goes up. -/
def nearest (m : Nat) : Int → Nat
  | .ofNat k => m * Nat.pow 2 k
  | .negSucc k => (2 * m + Nat.pow 2 (k + 1)) / Nat.pow 2 (k + 2)

/-- The float rounded to a whole number between zero and `limit`; a half goes up, and what is not
a number counts as zero. -/
def roundWithin (limit : Nat) (x : Float) : Nat :=
  match parts x with
  | .finite false m e => min limit (nearest m e)
  | .infinite false => limit
  | _ => 0

/-- The distance from one to the next larger float. -/
def epsilon : Float := Float.ofBits 0x3CB0000000000000

/-! ## Lemmas -/

theorem roundWithin_le (limit : Nat) (x : Float) : roundWithin limit x ≤ limit := by
  unfold roundWithin
  split
  · exact Nat.min_le_left _ _
  · exact Nat.le_refl _
  · exact Nat.zero_le _

end Restoration.Decimal
