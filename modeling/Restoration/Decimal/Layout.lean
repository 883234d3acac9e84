import Restoration.Decimal.Binary
import Restoration.Decimal.Shortest

/-!
# Layouts of decimals

How a shortest decimal is written: in a script positionally and without a point where none is
needed, in a job file with a point or an exponent so that it is read as a fraction again.

    script   12   1.04   -0   0.0000001
    file     12.0 1.04   -0.0 1e-7
-/

namespace Restoration.Decimal

/-- The digits of a point written positionally, with `fill` in place of an empty fraction. -/
def Point.positional (p : Point) (fill : String) : String :=
  let ds := Numeral.digits p.digits
  if 0 ≤ p.exponent then
    String.ofList (ds ++ List.replicate p.exponent.toNat '0') ++ fill
  else
    let places := (-p.exponent).toNat
    let ds := List.replicate (places + 1 - ds.length) '0' ++ ds
    let whole := ds.length - places
    String.ofList (ds.take whole ++ '.' :: ds.drop whole)

/-- The digits of a point with one digit ahead of the point and a signed exponent. -/
def Point.scientific (p : Point) : String :=
  let ds := Numeral.digits p.digits
  let power := p.exponent + (ds.length : Int) - 1
  let fraction := ds.drop 1
  let mantissa := ds.take 1 ++ if fraction.isEmpty then [] else '.' :: fraction
  let sign := if power < 0 then "-" else "+"
  String.ofList mantissa ++ "e" ++ sign ++ Numeral.text power.natAbs

/-- The sign that is written ahead of a number. -/
def signText (negative : Bool) : String := if negative then "-" else ""

/-- A float in a script or an argument: positional, a tie between shortest decimals going up. -/
def plain (x : Float) : String :=
  match parts x with
  | .finite negative m e => signText negative ++ (shortest .up m e).positional ""
  | .infinite negative => signText negative ++ "inf"
  | .nan => "NaN"

/-- A float in a job file: positional from `1e-5` to below `1e16`, otherwise with an exponent, a tie
between shortest decimals going to the even digit. There is no text for what is not finite. -/
def filed? (x : Float) : Option String :=
  match parts x with
  | .finite negative m e =>
    let p := shortest .toEven m e
    let power := p.exponent + ((Numeral.digits p.digits).length : Int) - 1
    let body := if m = 0 ∨ (-5 ≤ power ∧ power < 16) then p.positional ".0" else p.scientific
    some (signText negative ++ body)
  | _ => none

/-- A hundredth part, with two places: `43` is `0.43`. -/
def hundredths (n : Nat) : String :=
  Numeral.text (n / 100) ++ "." ++
    String.ofList [Numeral.digit (n / 10 % 10), Numeral.digit (n % 10)]

end Restoration.Decimal
