import Restoration.Text.Numeral

/-!
# Reading of decimals

A decimal typed by a person is read as the float nearest to it, a tie going to the even one. The
words for infinity and for what is no number are read too.

    read? (plain x) = some x       for every finite x
-/

namespace Restoration.Decimal

/-! ## Rounding -/

/-- The whole number nearest to `n / d`; a tie goes to the even one. -/
def roundHalfEven (n d : Nat) : Nat :=
  let q := n / d
  let r := n % d
  if d < 2 * r || (2 * r = d && q % 2 = 1) then q + 1 else q

/-- The exponent of the smallest floats. -/
def leastExponent : Int := -1074

/-- `n / d` in units of `2 ^ e`, as a fraction. -/
def inUnits (n d : Nat) : Int → Nat × Nat
  | .ofNat k => (n, d * Nat.pow 2 k)
  | .negSucc k => (n * Nat.pow 2 (k + 1), d)

/-- The exponent of the float nearest to `n / d`. -/
def floatExponent (n d : Nat) : Int :=
  let guess := max leastExponent ((n.log2 : Int) - d.log2 - 53)
  let (a, b) := inUnits n d guess
  if Nat.pow 2 53 ≤ a / b then guess + 1 else guess

/-- The float nearest to `n / d`. -/
def ofRatio (n d : Nat) : Float :=
  let e := floatExponent n d
  let (a, b) := inUnits n d e
  let bits := (e - leastExponent).toNat * Nat.pow 2 52 + roundHalfEven a b
  Float.ofBits (min bits (2047 * Nat.pow 2 52)).toUInt64

/-! ## Texts -/

/-- Beyond this power of ten everything is infinite or zero. -/
def powerBound : Int := 400

/-- The float nearest to `m · 10 ^ e`. -/
def ofPower (m : Nat) (e : Int) : Float :=
  let size := e + (Numeral.digits m).length
  if m = 0 || size < -powerBound then 0.0
  else if powerBound < size then 1.0 / 0.0
  else
    match e with
    | .ofNat k => ofRatio (m * Nat.pow 10 k) 1
    | .negSucc k => ofRatio m (Nat.pow 10 (k + 1))

/-- Takes a sign. -/
def signOf : List Char → Bool × List Char
  | '-' :: r => (true, r)
  | '+' :: r => (false, r)
  | t => (false, t)

/-- The exponent behind the digits of a decimal. -/
def exponent? (t : List Char) : Option Int :=
  match t with
  | [] => some 0
  | c :: r =>
    if c = 'e' || c = 'E' then
      let (negative, ds) := signOf r
      (Numeral.value? ds).map fun n => if negative then -(n : Int) else n
    else none

/-- Reads a decimal without a sign. -/
def readPlain? (t : List Char) : Option Float :=
  let whole := t.takeWhile Numeral.isDigit
  let r := t.dropWhile Numeral.isDigit
  let (places, r) := match r with
    | '.' :: r => (r.takeWhile Numeral.isDigit, r.dropWhile Numeral.isDigit)
    | _ => ([], r)
  if whole.isEmpty && places.isEmpty then none
  else
    (exponent? r).map fun e => ofPower (Numeral.valueFrom 0 (whole ++ places)) (e - places.length)

/-- Reads a number without a sign. -/
def readMagnitude? (t : List Char) : Option Float :=
  let word := String.ofList (t.map Char.toLower)
  if word = "inf" || word = "infinity" then some (1.0 / 0.0)
  else if word = "nan" then some (0.0 / 0.0)
  else readPlain? t

/-- Reads a number. -/
def read? (t : List Char) : Option Float :=
  let (negative, r) := signOf t
  (readMagnitude? r).map fun x => if negative then -x else x

end Restoration.Decimal
