import Restoration.Decimal.Layout
import Restoration.Json.Fault

/-!
# Numbers

A number without fraction and exponent is whole if it fits in a word. Any other one is a float: as
many leading digits as fit in a word, scaled by one power of ten. Such a float may differ in its
last bit from the one nearest to the decimal.

    read (digits n) = ok (natural n)       for n below 2 ^ 64
-/

namespace Restoration.Json

/-- What a number stands for. -/
inductive Number where
  | natural (n : Nat)
  /-- A whole number below zero, by its magnitude. -/
  | negative (n : Nat)
  | float (x : Float)

namespace Number

/-! ## Finding the end -/

/-- Takes leading digits. -/
def scanDigits (t : List Char) : List Char × List Char :=
  (t.takeWhile Numeral.isDigit, t.dropWhile Numeral.isDigit)

/-- Takes the whole part of a number. -/
def scanWhole (t : List Char) : Except Fault (List Char × List Char) :=
  match t with
  | '0' :: r =>
    if (scanDigits r).1.isEmpty then .ok (['0'], r) else .error .invalidNumber
  | t => if (scanDigits t).1.isEmpty then .error .invalidNumber else .ok (scanDigits t)

/-- Takes a fraction, if there is one. -/
def scanFraction (t : List Char) : Except Fault (List Char × List Char) :=
  match t with
  | '.' :: r =>
    let (ds, rest) := scanDigits r
    if ds.isEmpty then .error .invalidNumber else .ok ('.' :: ds, rest)
  | t => .ok ([], t)

/-- Takes a sign, if there is one. -/
def scanSign : List Char → List Char × List Char
  | '+' :: r => (['+'], r)
  | '-' :: r => (['-'], r)
  | t => ([], t)

/-- Takes an exponent, if there is one. -/
def scanExponent (t : List Char) : Except Fault (List Char × List Char) :=
  match t with
  | [] => .ok ([], [])
  | c :: r =>
    if c = 'e' ∨ c = 'E' then
      let (sign, r) := scanSign r
      let (ds, rest) := scanDigits r
      if ds.isEmpty then .error .invalidNumber else .ok (c :: sign ++ ds, rest)
    else .ok ([], t)

/-- Takes a number without looking at its size. -/
def scan (t : List Char) : Except Fault (List Char × List Char) := do
  let (sign, t) := match t with
    | '-' :: r => (['-'], r)
    | t => ([], t)
  let (whole, t) ← scanWhole t
  let (fraction, t) ← scanFraction t
  let (exponent, t) ← scanExponent t
  pure (sign ++ whole ++ fraction ++ exponent, t)

/-! ## Reading -/

/-- Takes digits as long as the number fits in a word. -/
def absorb (n : Nat) : List Char → Nat × List Char
  | [] => (n, [])
  | c :: r =>
    if Numeral.isDigit c && 10 * n + Numeral.digitValue c < Numeral.word then
      absorb (10 * n + Numeral.digitValue c) r
    else (n, c :: r)

/-- The float nearest to `10 ^ k`. -/
def powerOfTen (k : Nat) : Float := Float.ofScientific 1 false k

/-- The largest power of ten among floats. -/
def largestPower : Nat := 308

/-- A float scaled by `10 ^ e`, in steps of the largest power; few steps lead to zero. -/
def scale (x : Float) (e : Int) : Nat → Except Fault Float
  | 0 => .ok x
  | fuel + 1 =>
    if e.natAbs ≤ largestPower then
      if 0 ≤ e then
        let y := x * powerOfTen e.natAbs
        if y.isInf then .error .numberOutOfRange else .ok y
      else .ok (x / powerOfTen e.natAbs)
    else if x == 0.0 then .ok x
    else if 0 ≤ e then .error .numberOutOfRange
    else scale (x / powerOfTen largestPower) (e + largestPower) fuel

/-- The float `± n · 10 ^ e`. -/
def scaled (negated : Bool) (n : Nat) (e : Int) : Except Fault Number := do
  let x ← scale n.toUInt64.toFloat e 8
  pure (.float (if negated then -x else x))

/-- One more than the largest exponent that is looked at. -/
def exponentBound : Nat := Nat.pow 2 31

/-- Goes on behind the letter of an exponent. -/
def readExponent (negated : Bool) (n : Nat) (e : Int) (t : List Char) : Except Fault Number :=
  let (sign, t) := scanSign t
  let (ds, rest) := scanDigits t
  if ds.isEmpty then .error (if rest.isEmpty then .endInValue else .invalidNumber)
  else
    let power := Numeral.valueFrom 0 ds
    if exponentBound ≤ power then
      if n ≠ 0 ∧ sign ≠ ['-'] then .error .numberOutOfRange
      else .ok (.float (if negated then -0.0 else 0.0))
    else scaled negated n (if sign = ['-'] then e - power else e + power)

/-- Goes on behind the digits of a fraction or of a long number. -/
def finish (negated : Bool) (n : Nat) (e : Int) (t : List Char) : Except Fault Number :=
  match t with
  | [] => scaled negated n e
  | c :: r => if c = 'e' ∨ c = 'E' then readExponent negated n e r else scaled negated n e

/-- Goes on behind the point of a fraction. -/
def readFraction (negated : Bool) (n : Nat) (e : Int) (t : List Char) : Except Fault Number :=
  let (m, rest) := absorb n t
  let places := t.length - rest.length
  let (extra, rest) := scanDigits rest
  if places = 0 ∧ extra.isEmpty then .error (if rest.isEmpty then .endInValue else .invalidNumber)
  else finish negated m (e - places) rest

/-- The whole number `± n`. Minus zero and numbers too small for a word are floats. -/
def whole (negated : Bool) (n : Nat) : Number :=
  if negated then
    if n = 0 ∨ Nat.pow 2 63 < n then .float (-n.toUInt64.toFloat) else .negative n
  else .natural n

/-- Reads a number behind its sign. -/
def readUnsigned (negated : Bool) (t : List Char) : Except Fault Number :=
  let (ds, rest) := scanDigits t
  if ds.isEmpty then .error (if t.isEmpty then .endInValue else .invalidNumber)
  else if ds.head? = some '0' ∧ ds.length ≠ 1 then .error .invalidNumber
  else
    let (n, extra) := absorb 0 ds
    match rest with
    | '.' :: r => readFraction negated n extra.length r
    | c :: r =>
      if c = 'e' ∨ c = 'E' then readExponent negated n extra.length r
      else if extra.isEmpty then .ok (whole negated n) else scaled negated n extra.length
    | [] => if extra.isEmpty then .ok (whole negated n) else scaled negated n extra.length

/-- Reads the number that a text starts with. -/
def read (t : List Char) : Except Fault Number :=
  match t with
  | '-' :: r => readUnsigned true r
  | t => readUnsigned false t

/-- The number in a message. -/
def describe : Number → String
  | natural n => "integer `" ++ Numeral.text n ++ "`"
  | negative n => "integer `-" ++ Numeral.text n ++ "`"
  | float x => "floating point `" ++ (Decimal.filed? x).getD "null" ++ "`"

end Number

end Restoration.Json
