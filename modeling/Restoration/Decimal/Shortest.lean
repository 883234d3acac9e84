import Restoration.Text.Numeral

/-!
# Shortest decimals

The decimal with the fewest digits that reads back as a given binary fraction, and of those the
nearest. A decimal reads back as `m · 2 ^ e` if it lies in the interval of numbers that round to
it: half the gap to either neighbour, ends included when `m` is even.

A grid of `n` digits is tested at the two of its points around the fraction; the first grid with a
point inside the interval decides.
-/

namespace Restoration.Decimal

/-- The number `digits · 10 ^ exponent`. -/
structure Point where
  digits : Nat
  exponent : Int
  deriving DecidableEq, Repr

/-- Which of two equally near decimals is taken. -/
inductive Tie where
  | up
  | toEven
  deriving DecidableEq, Repr

/-- The numbers that round to a fraction, all in quarters of its last binary place. -/
structure Interval where
  /-- The fraction is `value · unit`, with `unit = scaleNum / scaleDen`. -/
  low : Nat
  value : Nat
  high : Nat
  closed : Bool
  scaleNum : Nat
  scaleDen : Nat

/-- The interval of the fraction `m · 2 ^ e`. The gap below a power of two is half as wide, unless
the power is the smallest of its kind. -/
def Interval.of (m : Nat) (e : Int) : Interval :=
  let narrow := m = Nat.pow 2 52 ∧ -1074 < e
  { low := if narrow then 4 * m - 1 else 4 * m - 2
    value := 4 * m
    high := 4 * m + 2
    closed := m % 2 = 0
    scaleNum := Nat.pow 2 (e - 2).toNat
    scaleDen := Nat.pow 2 (2 - e).toNat }

namespace Interval

/-- Does `d · 10 ^ k` lie in the interval? -/
def holds (i : Interval) (d : Nat) (k : Int) : Bool :=
  let left := d * Nat.pow 10 k.toNat * i.scaleDen
  let unit := i.scaleNum * Nat.pow 10 (-k).toNat
  if i.closed then i.low * unit ≤ left && left ≤ i.high * unit
  else i.low * unit < left && left < i.high * unit

/-- The number of digits ahead of the point; for a fraction below one, minus the number of zeros
that follow it. -/
def magnitude (i : Interval) : Int :=
  let num := i.value * i.scaleNum
  if i.scaleDen ≤ num then (Numeral.digits (num / i.scaleDen)).length
  else
    let inverse := (i.scaleDen + num - 1) / num
    1 - (Numeral.digits (inverse - 1)).length

/-- The nearer of the two points of the grid `10 ^ k` around the fraction that lie in the
interval. -/
def onGrid? (tie : Tie) (i : Interval) (k : Int) : Option Nat :=
  let num := i.value * i.scaleNum * Nat.pow 10 (-k).toNat
  let den := i.scaleDen * Nat.pow 10 k.toNat
  let below := num / den
  let rest := num % den
  match i.holds below k, i.holds (below + 1) k with
  | true, true =>
    if 2 * rest < den then some below
    else if den < 2 * rest then some (below + 1)
    else match tie with
      | .up => some (below + 1)
      | .toEven => some (if below % 2 = 0 then below else below + 1)
  | true, false => some below
  | false, true => some (below + 1)
  | false, false => none

/-- Tries the grids of `n`, `n + 1`, … digits, `fuel` of them. -/
def search (tie : Tie) (i : Interval) (n : Nat) : Nat → Point
  | 0 => ⟨i.value, 0⟩
  | fuel + 1 =>
    let k := i.magnitude - n
    match i.onGrid? tie k with
    | some d => ⟨d, k⟩
    | none => search tie i (n + 1) fuel

end Interval

/-- The point with all trailing zeros moved into the exponent. -/
def Point.trimZeros (p : Point) : Nat → Point
  | 0 => p
  | fuel + 1 =>
    if p.digits ≠ 0 ∧ p.digits % 10 = 0 then trimZeros ⟨p.digits / 10, p.exponent + 1⟩ fuel else p

/-- The shortest decimal of `m · 2 ^ e`; seventeen digits always suffice. -/
def shortest (tie : Tie) (m : Nat) (e : Int) : Point :=
  if m = 0 then ⟨0, 0⟩ else ((Interval.of m e).search tie 1 17).trimZeros 20

end Restoration.Decimal
