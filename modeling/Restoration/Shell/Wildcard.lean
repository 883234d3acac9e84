/-!
# Wildcards

Patterns that a shell compares whole texts with: `*` stands for any characters, `?` for one, and
brackets for one out of a set. Quoted characters stand for themselves.

    matchesText (p with every character quoted) t ↔ t = p
-/

namespace Restoration.Shell

/-- A set of characters, by ranges. -/
structure CharSet where
  ranges : List (Char × Char)
  /-- Are the characters in the ranges those that are left out? -/
  negated : Bool
  deriving DecidableEq, Repr

namespace CharSet

/-- Is the character in the set? -/
def holds (s : CharSet) (c : Char) : Bool :=
  (s.ranges.any fun (a, b) => a ≤ c && c ≤ b) != s.negated

/-- The ranges up to the closing bracket, and what follows it. A closing bracket that comes first
belongs to the set. -/
def rangesFrom (first : Bool) : List Char → Option (List (Char × Char) × List Char)
  | [] => none
  | [c] => if c = ']' && !first then some ([], []) else none
  | [c, d] =>
    if c = ']' && !first then some ([], [d])
    else if d = ']' then some ([(c, c)], []) else none
  | c :: d :: e :: r =>
    if c = ']' && !first then some ([], d :: e :: r)
    else if d = '-' && e != ']' then (rangesFrom false r).map fun (rs, t) => ((c, e) :: rs, t)
    else (rangesFrom false (d :: e :: r)).map fun (rs, t) => ((c, c) :: rs, t)

/-- Reads a set behind its opening bracket; `negation` ahead of it leaves its characters out. -/
def read? (negation : Char) (t : List Char) : Option (CharSet × List Char) :=
  match t with
  | [] => none
  | c :: r =>
    if c = negation then (rangesFrom true r).map fun (rs, t) => (⟨rs, true⟩, t)
    else (rangesFrom true (c :: r)).map fun (rs, t) => (⟨rs, false⟩, t)

end CharSet

namespace Wildcard

/-- One element of a pattern. -/
inductive Item where
  | star
  | one
  | set (s : CharSet)
  | char (c : Char)
  deriving DecidableEq, Repr

/-- A pattern whose characters are marked as quoted or not. -/
abbrev Marked := List (Char × Bool)

/-- The elements of a pattern. A bracket that is never closed stands for itself. -/
def items : Nat → Marked → List Item
  | 0, _ => []
  | _, [] => []
  | n + 1, (c, quoted) :: r =>
    if quoted then .char c :: items n r
    else if c = '*' then .star :: items n r
    else if c = '?' then .one :: items n r
    else if c = '[' then
      match CharSet.read? '!' (r.map (·.1)) with
      | some (s, rest) => .set s :: items n (r.drop (r.length - rest.length))
      | none => .char c :: items n r
    else .char c :: items n r

/-- The elements of a pattern. -/
def ofMarked (p : Marked) : List Item := items p.length p

/-- Does the whole text match? -/
def matchesText : List Item → List Char → Bool
  | [], t => t.isEmpty
  | .star :: p, [] => matchesText p []
  | .star :: p, c :: t => matchesText p (c :: t) || matchesText (.star :: p) t
  | .one :: p, t =>
    match t with
    | [] => false
    | _ :: t => matchesText p t
  | .set s :: p, t =>
    match t with
    | [] => false
    | c :: t => s.holds c && matchesText p t
  | .char d :: p, t =>
    match t with
    | [] => false
    | c :: t => c == d && matchesText p t
termination_by p t => p.length + t.length

/-- The lengths of the starts of a text that match, from the shortest on. -/
def matchingStarts (p : List Item) (t : List Char) : List Nat :=
  (List.range (t.length + 1)).filter fun n => matchesText p (t.take n)

/-- The lengths that the text keeps where an end of it that matches is dropped, from the longest
end on. -/
def matchingEnds (p : List Item) (t : List Char) : List Nat :=
  (List.range (t.length + 1)).filter fun n => matchesText p (t.drop n)

end Wildcard

end Restoration.Shell
