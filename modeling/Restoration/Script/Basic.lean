import Restoration.Script.Line

/-!
# Scripts

A script is a list of lines. Editing works on the text of the lines; `tidy` brings a script into
the order that engines expect, with every dependency once and ahead of all other lines.

    parse s.text = s        for every s that was read and has no term that ends in " #"
-/

namespace Restoration

/-- The lines of a filter script. -/
structure Script where
  lines : List Line := []
  deriving DecidableEq, Repr

namespace Script

/-! ## Text -/

/-- The script as text, one line each. -/
def text (s : Script) : String :=
  String.ofList (s.lines.flatMap fun l => l.text.toList ++ ['\n'])

/-- Reads the lines of a text. -/
def linesOf (t : String) : List Line := (Text.lines t.toList).filterMap Line.parse?

/-- Reads a script from its text. -/
def parse (t : String) : Script := ⟨linesOf t⟩

/-- Do both scripts have the same lines, up to spellings of paths? -/
def sameAs (s t : Script) : Bool :=
  s.lines.length == t.lines.length && (s.lines.zip t.lines).all fun (l, m) => l.sameAs m

/-! ## Editing -/

/-- The script with further lines at its end. -/
def append (s : Script) (lines : List Line) : Script := ⟨s.lines ++ lines⟩

/-- The script with further dependencies at its end. -/
def appendDependencies (s : Script) (ds : List Dependency) : Script := s.append (ds.map .dependency)

/-- The line with `from` replaced by `to` in its text, if it stands there; blank text is no line. -/
def replaceIn (pattern other : String) (l : Line) : List Line :=
  if l.contains pattern then
    (Line.parse? (Text.replace pattern.toList other.toList l.text.toList)).toList
  else [l]

/-- Replaces a text throughout the script. Also says how many lines it stood in. -/
def replace (s : Script) (pattern other : String) : Nat × Script :=
  if pattern.isEmpty then (0, s)
  else (s.lines.countP (·.contains pattern), ⟨s.lines.flatMap (replaceIn pattern other)⟩)

/-- The script with a line ahead of the last one that contains `marker`, or at its end. -/
def insertBeforeLast (s : Script) (marker : String) (line : Line) : Script :=
  let after := s.lines.reverse.takeWhile (!·.contains marker)
  match s.lines.reverse.dropWhile (!·.contains marker) with
  | [] => ⟨s.lines ++ [line]⟩
  | found :: before => ⟨before.reverse ++ line :: found :: after.reverse⟩

/-- Does any line contain any of the markers? -/
def containsAny (s : Script) (markers : List String) : Bool :=
  s.lines.any fun l => markers.any (l.contains ·)

/-- The script without the lines that contain `marker`. -/
def dropContaining (s : Script) (marker : String) : Script :=
  ⟨s.lines.filter (!·.contains marker)⟩

/-- How many lines contain `marker`. -/
def countContaining (s : Script) (marker : String) : Nat :=
  s.lines.countP (·.contains marker)

/-! ## Order -/

/-- The dependency of a line that is one. -/
def dependency? : Line → Option Dependency
  | .dependency d => some d
  | _ => none

/-- The elements that no earlier element is the same as. -/
def keepFirst {α : Type} (same : α → α → Bool) : List α → List α
  | [] => []
  | a :: r => a :: (keepFirst same r).filter fun b => !same a b

/-- All dependencies ahead of all other lines, each once and with a path that engines can open. -/
def tidy (s : Script) : Script :=
  let dependencies := (s.lines.filterMap dependency?).map fun d => d.withPath d.path.forEngine
  ⟨(keepFirst Dependency.sameAs dependencies).map .dependency ++ s.lines.filter (!·.isDependency)⟩

end Script

end Restoration
