import Restoration.Shell.Expression
import Restoration.Text.Occurrence

/-!
# Stream editor

A script of editing rules is applied to every line of a text. Rules select lines by number or by
expression; they substitute, print, delete, or end the run.

    edit [] quiet t = if quiet then "" else t
-/

namespace Restoration.Shell.Editor

/-- How a rule selects lines. -/
inductive Address where
  | line (n : Nat)
  | last
  | matching (e : Expression)

/-- One part of what is put in place of a match; group zero is the whole match. -/
inductive Part where
  | text (c : Char)
  | group (n : Nat)

/-- What a rule does to a line. -/
inductive Action where
  /-- Replaces the match with this number, and with `all` every one from there on. -/
  | substitute (e : Expression) (parts : List Part) (number : Nat) (all shown : Bool)
  | print
  | delete
  | quit
  | showNumber

/-- A rule: the lines it applies to, and what it does. -/
structure Rule where
  first : Option Address := none
  last : Option Address := none
  /-- Does the rule apply to all other lines? -/
  inverted : Bool := false
  action : Action

/-! ## Reading of rules -/

/-- The text up to a delimiter without a backslash ahead of it, and what follows it. -/
def upTo (delimiter : Char) : List Char → Option (List Char × List Char)
  | [] => none
  | '\\' :: c :: r =>
    (upTo delimiter r).map fun (t, rest) =>
      ((if c = delimiter then [c] else ['\\', c]) ++ t, rest)
  | c :: r =>
    if c = delimiter then some ([], r) else (upTo delimiter r).map fun (t, rest) => (c :: t, rest)

/-- The parts of a replacement. -/
def partsOf : List Char → List Part
  | [] => []
  | '\\' :: c :: r =>
    (if c.isDigit then .group (Numeral.digitValue c)
      else if c = 'n' then .text '\n'
      else if c = 't' then .text '\t'
      else .text c) :: partsOf r
  | c :: r => (if c = '&' then .group 0 else .text c) :: partsOf r

/-- Reads an address, if one stands here. -/
def address? (extended : Bool) (t : List Char) : Option (Option Address × List Char) :=
  match t with
  | '$' :: r => some (some .last, r)
  | '/' :: r => do
    let (body, rest) ← upTo '/' r
    let e ← Expression.ofText? extended body
    some (some (.matching e), rest)
  | _ =>
    let ds := t.takeWhile Char.isDigit
    match Numeral.value? ds with
    | some n => some (some (.line n), t.drop ds.length)
    | none => some (none, t)

/-- Is this a blank or the end of a rule? -/
def isGap (c : Char) : Bool := c = ' ' || c = '\t' || c = '\n' || c = ';'

/-- Reads the action of a rule. -/
def action? (extended : Bool) (t : List Char) : Option (Action × List Char) :=
  match t with
  | 'p' :: r => some (.print, r)
  | 'd' :: r => some (.delete, r)
  | 'q' :: r => some (.quit, r)
  | '=' :: r => some (.showNumber, r)
  | 's' :: delimiter :: r => do
    let (pattern, r) ← upTo delimiter r
    let (replacement, r) ← upTo delimiter r
    let e ← Expression.ofText? extended pattern
    let flags := r.takeWhile fun c => !isGap c
    let number := (Numeral.value? (flags.filter Char.isDigit)).getD 1
    some (.substitute e (partsOf replacement) number (flags.contains 'g') (flags.contains 'p'),
      r.drop flags.length)
  | _ => none

/-- Reads all rules of a script. -/
def rules? (extended : Bool) : Nat → List Char → Option (List Rule)
  | 0, _ => none
  | n + 1, t =>
    match t.dropWhile isGap with
    | [] => some []
    | t => do
      let (first, r) ← address? extended t
      let (last, r) ← match r with
        | ',' :: r => address? extended r
        | _ => some (none, r)
      let r := r.dropWhile (· = ' ')
      let inverted := r.head? = some '!'
      let (action, r) ← action? extended (if inverted then r.drop 1 else r)
      match r with
      | [] => some [{ first, last, inverted, action }]
      | c :: _ =>
        if isGap c then (rules? extended n r).map ({ first, last, inverted, action } :: ·) else none

/-- Reads a script. -/
def script? (extended : Bool) (t : List Char) : Option (List Rule) :=
  rules? extended (t.length + 1) t

/-! ## Substitution -/

/-- What is put in place of a match. -/
def filled (parts : List Part) (m : Expression.Match) : List Char :=
  parts.flatMap fun
    | .text c => [c]
    | .group 0 => m.found
    | .group n => m.groups.get n

/-- Substitutes in what is left of a line of `whole` characters, and says whether it did. The match
with number `number` is the first to be replaced; an empty match behind another match is none. -/
def substituteFrom (e : Expression) (parts : List Part) (all : Bool) (whole : Nat) :
    Nat → Nat → Bool → List Char → List Char × Bool
  | 0, _, _, t => (t, false)
  | n + 1, number, behindMatch, t =>
    match e.searchFrom whole [] t with
    | none => (t, false)
    | some m =>
      if m.found.isEmpty then
        let skipped := behindMatch && m.before.isEmpty
        let lead := m.before ++ if number ≤ 1 && !skipped then filled parts m else []
        let did := number ≤ 1 && !skipped
        match m.after with
        | [] => (lead, did)
        | c :: r =>
          if did && !all then (lead ++ c :: r, true)
          else
            let (rest, further) :=
              substituteFrom e parts all whole n (if skipped then number else number - 1) false r
            (lead ++ c :: rest, did || further)
      else if number ≤ 1 then
        let lead := m.before ++ filled parts m
        if all then
          let (rest, _) := substituteFrom e parts all whole n 0 true m.after
          (lead ++ rest, true)
        else (lead ++ m.after, true)
      else
        let (rest, further) := substituteFrom e parts all whole n (number - 1) true m.after
        (m.before ++ m.found ++ rest, further)

/-! ## Editing -/

/-- A line with its number; `ended` says whether a line feed follows it. -/
structure Line where
  text : List Char
  number : Nat
  isLast : Bool
  ended : Bool

/-- The lines of a text from some number on. -/
def linesFrom (number : Nat) : List (List Char) → List Line
  | [] => []
  | [t] => if t.isEmpty then [] else [⟨t, number, true, false⟩]
  | [t, u] =>
    if u.isEmpty then [⟨t, number, true, true⟩]
    else [⟨t, number, false, true⟩, ⟨u, number + 1, true, false⟩]
  | t :: u :: v :: r => ⟨t, number, false, true⟩ :: linesFrom (number + 1) (u :: v :: r)

/-- Does the address select the line? -/
def Address.selects (a : Address) (l : Line) : Bool :=
  match a with
  | .line n => l.number = n
  | .last => l.isLast
  | .matching e => e.occursIn l.text

/-- Does a range that starts at this line go on behind it? -/
def goesOn (stop : Address) (l : Line) : Bool :=
  match stop with
  | .line n => l.number < n
  | .last => !l.isLast
  | .matching _ => true

/-- Does the rule apply to the line? Also says whether its range goes on. -/
def Rule.applies (r : Rule) (inRange : Bool) (l : Line) : Bool × Bool :=
  let (selected, goesOn) : Bool × Bool :=
    match r.first, r.last with
    | none, _ => (true, false)
    | some a, none => (a.selects l, false)
    | some a, some z =>
      if inRange then
        (true, match z with
          | .line n => l.number < n
          | _ => !z.selects l)
      else if a.selects l then (true, goesOn z l) else (false, false)
  (selected != r.inverted, goesOn)

/-- What became of a line. -/
structure Outcome where
  text : List Char
  written : List Char := []
  deleted : Bool := false
  quit : Bool := false

/-- Text as it is written for a line. -/
def written (l : Line) (t : List Char) : List Char := t ++ if l.ended then ['\n'] else []

/-- Applies an action. -/
def Action.act (a : Action) (l : Line) (o : Outcome) : Outcome :=
  match a with
  | .print => { o with written := o.written ++ written l o.text }
  | .delete => { o with deleted := true }
  | .quit => { o with quit := true }
  | .showNumber => { o with written := o.written ++ Numeral.digits l.number ++ ['\n'] }
  | .substitute e parts number all shown =>
    let (t, did) := substituteFrom e parts all o.text.length (o.text.length + 2) number false o.text
    { o with
      text := t
      written := o.written ++ if did && shown then written l t else [] }

/-- Applies rules to a line, each with the state of its range. -/
def applyRules (l : Line) : List (Rule × Bool) → Outcome → Outcome × List (Rule × Bool)
  | [], o => (o, [])
  | (r, inRange) :: rest, o =>
    if o.deleted || o.quit then (o, (r, inRange) :: rest)
    else
      let (applies, goesOn) := r.applies inRange { l with text := o.text }
      let (o, rest) := applyRules l rest (if applies then r.action.act l o else o)
      (o, (r, goesOn) :: rest)

/-- Edits lines. -/
def editLines (quiet : Bool) : List (Rule × Bool) → List Line → List Char
  | _, [] => []
  | rules, l :: rest =>
    let (o, rules) := applyRules l rules { text := l.text }
    let out := o.written ++ if quiet || o.deleted then [] else written l o.text
    if o.quit then out else out ++ editLines quiet rules rest

/-- Edits a text; only what rules print is written if `quiet`. -/
def edit (rules : List Rule) (quiet : Bool) (t : List Char) : List Char :=
  editLines quiet (rules.map fun r => (r, false)) (linesFrom 1 (Text.splitAt (· == '\n') t))

end Restoration.Shell.Editor
