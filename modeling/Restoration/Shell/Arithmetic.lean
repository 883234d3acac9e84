import Restoration.Text.Blank
import Restoration.Text.Numeral

/-!
# Arithmetic of shells

Values of the expressions that a shell computes with whole numbers. A variable that is missing or
empty counts as zero; a division rounds towards zero.
-/

namespace Restoration.Shell.Arithmetic

/-- The parts of an expression. -/
inductive Token where
  | number (n : Nat)
  | name (s : String)
  | sign (s : String)
  deriving DecidableEq, Repr

/-- The signs of two characters. -/
def longSigns : List String := ["==", "!=", "<=", ">=", "&&", "||", "<<", ">>"]

/-- Splits an expression into its parts. -/
def tokens : Nat → List Char → Option (List Token)
  | 0, _ => none
  | _, [] => some []
  | n + 1, c :: r =>
    if Text.isBlank c then tokens n r
    else if c.isDigit then
      let ds := (c :: r).takeWhile Char.isDigit
      (tokens n ((c :: r).drop ds.length)).map (.number (Numeral.valueFrom 0 ds) :: ·)
    else if c.isAlpha || c = '_' then
      let cs := (c :: r).takeWhile fun c => c.isAlphanum || c = '_'
      (tokens n ((c :: r).drop cs.length)).map (.name (String.ofList cs) :: ·)
    else
      let long := String.ofList ((c :: r).take 2)
      if longSigns.contains long then (tokens n (r.drop 1)).map (.sign long :: ·)
      else (tokens n r).map (.sign (String.singleton c) :: ·)

/-- The operators that bind equally strongly, from the weakest on. -/
def levels : List (List String) :=
  [["||"], ["&&"], ["|"], ["^"], ["&"], ["==", "!="], ["<=", ">=", "<", ">"], ["<<", ">>"],
    ["+", "-"], ["*", "/", "%"]]

/-- One for true and zero for false. -/
def truth (b : Bool) : Int := if b then 1 else 0

/-- The value of an operator at two values. -/
def apply (sign : String) (a b : Int) : Option Int :=
  match sign with
  | "||" => some (truth (a != 0 || b != 0))
  | "&&" => some (truth (a != 0 && b != 0))
  | "==" => some (truth (a == b))
  | "!=" => some (truth (a != b))
  | "<=" => some (truth (a ≤ b))
  | ">=" => some (truth (b ≤ a))
  | "<" => some (truth (a < b))
  | ">" => some (truth (b < a))
  | "+" => some (a + b)
  | "-" => some (a - b)
  | "*" => some (a * b)
  | "/" => if b = 0 then none else some (a.tdiv b)
  | "%" => if b = 0 then none else some (a.tmod b)
  | "<<" => some (a * Nat.pow 2 b.toNat)
  | ">>" => some (a / Nat.pow 2 b.toNat)
  | _ => none

/-- The whole number that a text stands for. -/
def integer? (t : List Char) : Option Int :=
  match Text.trim t with
  | '-' :: ds => (Numeral.value? ds).map fun n => -(n : Int)
  | '+' :: ds => (Numeral.value? ds).map fun n => (n : Int)
  | ds => (Numeral.value? ds).map fun n => (n : Int)

mutual

/-- The value of an operand, and what follows it. -/
def operand (look : String → Option String) : Nat → List Token → Option (Int × List Token)
  | 0, _ => none
  | n + 1, ts =>
    match ts with
    | .number k :: rest => some ((k : Int), rest)
    | .name s :: rest =>
      match look s with
      | none => some (0, rest)
      | some v => if v.isEmpty then some (0, rest) else (integer? v.toList).map fun k => (k, rest)
    | .sign "-" :: rest => (operand look n rest).map fun (k, rest) => (-k, rest)
    | .sign "+" :: rest => operand look n rest
    | .sign "!" :: rest => (operand look n rest).map fun (k, rest) => (truth (k == 0), rest)
    | .sign "(" :: rest =>
      match level look n levels rest with
      | some (k, .sign ")" :: rest) => some (k, rest)
      | _ => none
    | _ => none

/-- The value of an expression whose operators are of some levels, and what follows it. -/
def level (look : String → Option String) :
    Nat → List (List String) → List Token → Option (Int × List Token)
  | 0, _, _ => none
  | n + 1, [], ts => operand look n ts
  | n + 1, signs :: stronger, ts =>
    match level look n stronger ts with
    | some (k, rest) => further look n signs stronger k rest
    | none => none

/-- The value of an expression that starts with a known value. -/
def further (look : String → Option String) :
    Nat → List String → List (List String) → Int → List Token → Option (Int × List Token)
  | 0, _, _, _, _ => none
  | n + 1, signs, stronger, k, ts =>
    match ts with
    | .sign s :: rest =>
      if signs.contains s then
        match level look n stronger rest with
        | some (m, rest) =>
          match apply s k m with
          | some v => further look n signs stronger v rest
          | none => none
        | none => none
      else some (k, ts)
    | _ => some (k, ts)

end

/-- The value of an expression, if it has one. -/
def value? (look : String → Option String) (t : List Char) : Option Int :=
  match tokens (t.length + 1) t with
  | none => none
  | some [] => some 0
  | some ts =>
    match level look (20 * (ts.length + 1)) levels ts with
    | some (k, []) => some k
    | _ => none

/-- A whole number in digits. -/
def text (k : Int) : String := (if k < 0 then "-" else "") ++ Numeral.text k.natAbs

end Restoration.Shell.Arithmetic
