import Restoration.Shell.Wildcard
import Restoration.Text.Numeral

/-!
# Regular expressions

Expressions that stream editors search lines with: characters, sets, repetition of one character,
anchors and groups. The leftmost match is taken, and a repetition takes as much as it can.

    search e t = some m   →   m.before ++ m.found ++ m.after = t
-/

namespace Restoration.Shell

/-- A test of one character. -/
inductive CharTest where
  | any
  | set (s : CharSet)
  | char (c : Char)
  deriving DecidableEq, Repr

/-- Does the character pass? -/
def CharTest.holds : CharTest → Char → Bool
  | any, _ => true
  | set s, c => s.holds c
  | char d, c => c == d

namespace Expression

/-- One element of an expression. -/
inductive Item where
  | one (test : CharTest)
  | many (test : CharTest)
  | maybe (test : CharTest)
  | groupStart (number : Nat)
  | groupStop (number : Nat)
  | textStart
  | textStop
  deriving DecidableEq, Repr

end Expression

/-- A regular expression. -/
abbrev Expression := List Expression.Item

namespace Expression

/-! ## Reading -/

/-- What a character with or without a backslash ahead of it means. -/
inductive Sign where
  | plain
  | groupStart
  | groupStop
  | oneOrMore
  | atMostOne

/-- The meaning of a character. Basic expressions mark groups by backslashes, extended ones by their
absence. -/
def sign (extended escaped : Bool) (c : Char) : Sign :=
  if extended = escaped then .plain
  else
    match c with
    | '(' => .groupStart
    | ')' => .groupStop
    | '+' => .oneOrMore
    | '?' => .atMostOne
    | _ => .plain

/-- What is known of an expression that is partly read: its elements from the last on, the number of
its groups, and the groups that are still open. -/
structure Draft where
  items : List Item := []
  groups : Nat := 0
  opened : List Nat := []

namespace Draft

/-- The draft with one more element. -/
def add (d : Draft) (i : Item) : Draft := { d with items := i :: d.items }

/-- The draft whose last element is repeated by `f`; without an element the character stands for
itself. -/
def repeated (d : Draft) (c : Char) (f : CharTest → List Item) : Draft :=
  match d.items with
  | .one test :: rest => { d with items := f test ++ rest }
  | _ => d.add (.one (.char c))

/-- The draft with a character that has a meaning of its own. -/
def addSign (d : Draft) (c : Char) : Sign → Option Draft
  | .plain => some (d.add (.one (.char c)))
  | .groupStart =>
    let n := d.groups + 1
    some { items := .groupStart n :: d.items, groups := n, opened := n :: d.opened }
  | .groupStop =>
    match d.opened with
    | n :: rest => some { d with items := .groupStop n :: d.items, opened := rest }
    | [] => none
  | .oneOrMore => some (d.repeated c fun test => [.many test, .one test])
  | .atMostOne => some (d.repeated c fun test => [.maybe test])

/-- Is this the start of the expression or of a group? -/
def atStart (d : Draft) : Bool :=
  match d.items with
  | [] => true
  | .groupStart _ :: _ => true
  | _ => false

end Draft

/-- Is a dollar sign followed by this the end of the expression or of a group? -/
def atStop (extended : Bool) : List Char → Bool
  | [] => true
  | ')' :: _ => extended
  | '\\' :: ')' :: _ => !extended
  | _ => false

/-- Reads an expression to its end. -/
def readFrom (extended : Bool) : Nat → Draft → List Char → Option Draft
  | 0, _, _ => none
  | _, d, [] => if d.opened.isEmpty then some d else none
  | n + 1, d, '\\' :: c :: r =>
    match c with
    | 'n' => readFrom extended n (d.add (.one (.char '\n'))) r
    | 't' => readFrom extended n (d.add (.one (.char '\t'))) r
    | _ => (d.addSign c (sign extended true c)).bind fun d => readFrom extended n d r
  | n + 1, d, c :: r =>
    match c with
    | '\\' => none
    | '.' => readFrom extended n (d.add (.one .any)) r
    | '*' =>
      readFrom extended n
        (if d.atStart then d.add (.one (.char c)) else d.repeated c fun test => [.many test]) r
    | '[' =>
      match CharSet.read? '^' r with
      | some (s, rest) => readFrom extended n (d.add (.one (.set s))) rest
      | none => none
    | '^' => readFrom extended n (d.add (if d.atStart then .textStart else .one (.char c))) r
    | '$' => readFrom extended n (d.add (if atStop extended r then .textStop else .one (.char c))) r
    | _ => (d.addSign c (sign extended false c)).bind fun d => readFrom extended n d r

/-- Reads an expression, if the text is one. -/
def ofText? (extended : Bool) (t : List Char) : Option Expression :=
  (readFrom extended (t.length + 1) {} t).map (·.items.reverse)

/-! ## Searching -/

/-- The groups of a match: where each starts, and what it holds once it is closed. -/
structure Groups where
  opened : List (Nat × List Char) := []
  closed : List (Nat × List Char) := []

/-- What a closed group holds. -/
def Groups.get (g : Groups) (n : Nat) : List Char := (g.closed.lookup n).getD []

/-- Matches an expression at the start of what is left of a text of `whole` characters. -/
def matchFrom (whole : Nat) : Expression → List Char → Groups → Option (List Char × Groups)
  | [], t, g => some (t, g)
  | .one test :: e, t, g =>
    match t with
    | [] => none
    | c :: t => if test.holds c then matchFrom whole e t g else none
  | .many _ :: e, [], g => matchFrom whole e [] g
  | .many test :: e, c :: t, g =>
    match if test.holds c then matchFrom whole (.many test :: e) t g else none with
    | some found => some found
    | none => matchFrom whole e (c :: t) g
  | .maybe test :: e, t, g =>
    match t with
    | [] => matchFrom whole e [] g
    | c :: t =>
      match if test.holds c then matchFrom whole e t g else none with
      | some found => some found
      | none => matchFrom whole e (c :: t) g
  | .groupStart n :: e, t, g => matchFrom whole e t { g with opened := (n, t) :: g.opened }
  | .groupStop n :: e, t, g =>
    let start := (g.opened.lookup n).getD []
    matchFrom whole e t { g with closed := (n, start.take (start.length - t.length)) :: g.closed }
  | .textStart :: e, t, g => if t.length = whole then matchFrom whole e t g else none
  | .textStop :: e, t, g => if t.isEmpty then matchFrom whole e t g else none
termination_by e t _ => e.length + t.length

/-- A match in a text. -/
structure Match where
  before : List Char
  found : List Char
  after : List Char
  groups : Groups

/-- The leftmost match behind some characters of a text of `whole` characters. -/
def searchFrom (e : Expression) (whole : Nat) (before : List Char) : List Char → Option Match
  | [] => (matchFrom whole e [] {}).map fun (_, g) => ⟨before.reverse, [], [], g⟩
  | c :: t =>
    match matchFrom whole e (c :: t) {} with
    | some (rest, g) => some ⟨before.reverse, (c :: t).take (t.length + 1 - rest.length), rest, g⟩
    | none => searchFrom e whole (c :: before) t

/-- The leftmost match in a text. -/
def search (e : Expression) (t : List Char) : Option Match := searchFrom e t.length [] t

/-- Does the expression match somewhere in the text? -/
def occursIn (e : Expression) (t : List Char) : Bool := (e.search t).isSome

end Expression

end Restoration.Shell
