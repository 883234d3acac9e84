import Restoration.Decimal.Binary
import Restoration.Text.Numeral

/-!
# Frame rates

A frame rate as a fraction in lowest terms, taken from a float to the nearest thousandth.

    numerator · 1000 = n · denominator        for n thousandths
-/

namespace Restoration

/-- Frames per second as a fraction. -/
structure FrameRate where
  numerator : Nat
  denominator : Nat
  deriving DecidableEq, Repr

namespace FrameRate

/-- The greatest common divisor of two numbers, found by division until nothing remains; one for two
zeros. -/
def commonDivisor (a b : Nat) : Nat :=
  if b = 0 then max a 1 else commonDivisor b (a % b)
termination_by b
decreasing_by exact Nat.mod_lt _ (Nat.pos_of_ne_zero ‹_›)

/-- The rate of `n` thousandths of a frame per second. -/
def ofThousandths (n : Nat) : FrameRate :=
  let g := commonDivisor n 1000
  ⟨n / g, 1000 / g⟩

/-- The rate nearest to a float, to three decimals; negative rates count as zero. -/
def ofFloat (rate : Float) : FrameRate :=
  ofThousandths (Decimal.roundWithin (Numeral.word - 1) (rate * 1000.0))

/-- The frame shown at a point in time, in seconds; negative times count as zero. -/
def frameAt (rate : Float) (seconds : Float) : Nat :=
  let seconds := if 0.0 < seconds then seconds else 0.0
  Decimal.roundWithin (Numeral.word - 1) (seconds * rate)

/-- Does this change of speed differ from none at all? -/
def changes (speed : Float) : Bool :=
  0.0 < speed && Decimal.epsilon < (speed - 1.0).abs

end FrameRate

end Restoration
