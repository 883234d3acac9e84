import Restoration.Text.Occurrence

/-!
# Paths

A path is kept as it was written. Two paths name the same place by their components, so that
doubled separators, a separator at the end and a `.` in the middle make no difference.

    (p.join q).text = q.text           if q is absolute
    sameAs p q ↔ p.components = q.components
-/

namespace Restoration

/-- A path as written. -/
structure Path where
  text : String
  deriving DecidableEq, Repr

namespace Path

/-- One step of a path. -/
inductive Component where
  /-- The top of the tree, written as a separator at the start. -/
  | root
  /-- A `.` at the start of a relative path; elsewhere it is no step at all. -/
  | here
  /-- The step `..` -/
  | up
  | name (text : String)
  deriving DecidableEq, Repr

/-- Does the path start at the top of the tree? -/
def isAbsolute (p : Path) : Bool := p.text.toList.head? = some '/'

/-- The step that one piece between separators stands for. -/
def Component.ofPiece? : List Char → Option Component
  | [] => none
  | ['.'] => none
  | ['.', '.'] => some .up
  | piece => some (.name (String.ofList piece))

/-- The steps of the path. -/
def components (p : Path) : List Component :=
  let pieces := Text.splitAt (· == '/') p.text.toList
  let lead := if p.isAbsolute then [.root] else if pieces.head? = some ['.'] then [.here] else []
  lead ++ pieces.filterMap Component.ofPiece?

/-- Do the two paths have the same components? -/
def sameAs (p q : Path) : Bool := p.components == q.components

/-- The path `q` seen from the directory `p`. -/
def join (p q : Path) : Path :=
  if q.isAbsolute || p.text.isEmpty then q
  else if p.text.toList.getLast? = some '/' then ⟨p.text ++ q.text⟩
  else ⟨p.text ++ "/" ++ q.text⟩

/-- The name that the path ends in, unless its last step is another one. -/
def fileName? (p : Path) : Option String :=
  match p.components.getLast? with
  | some (.name s) => some s
  | _ => none

/-- The text of a step. -/
def Component.text : Component → String
  | .root => "/"
  | .here => "."
  | .up => ".."
  | .name s => s

/-- The path with one more step at its end. -/
def push (p : Path) (c : Component) : Path := p.join ⟨c.text⟩

/-- Does the path start with exactly two separators? -/
def hasDoubleRoot (p : Path) : Bool :=
  match p.text.toList with
  | '/' :: '/' :: c :: _ => c != '/'
  | ['/', '/'] => true
  | _ => false

/-- The path seen from the top of the tree, if it was seen from the directory `base`. Its steps stay
as they are, except for `.` and doubled separators; a separator at the end is kept. -/
def absoluteFrom (base p : Path) : Path :=
  let steps := p.components.filter fun c => c ≠ .root && c ≠ .here
  let start := if p.hasDoubleRoot then ⟨"//"⟩ else if p.isAbsolute then ⟨"/"⟩ else base
  let whole := steps.foldl push start
  if p.text.toList.getLast? = some '/' then whole.join ⟨""⟩ else whole

/-- The path as a scripting engine can open it. Engines that take any Unicode path need no change. -/
def forEngine (p : Path) : Path := p

end Path

end Restoration
