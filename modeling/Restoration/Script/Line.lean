import Restoration.Script.Dependency

/-!
# Lines of a script

A line is a dependency, a comment, or a term with or without a comment behind it. Blank lines are
no lines at all.

    parse? l.text = some l        for every l that was read and has no term that ends in " #"
-/

namespace Restoration

/-- One line of a script. -/
inductive Line where
  | dependency (d : Dependency)
  | comment (text : String)
  | term (text : String)
  | termWithComment (text comment : String)
  deriving DecidableEq, Repr

namespace Line

/-- What stands between a term and its comment. -/
def commentMark : String := " # "

/-- The line as text. -/
def text : Line → String
  | dependency d => d.text
  | comment s => "# " ++ s
  | term s => s
  | termWithComment s c => s ++ commentMark ++ c

/-- Is the line a dependency? -/
def isDependency : Line → Bool
  | dependency _ => true
  | _ => false

/-- Does `marker` stand in the text of the line? -/
def contains (l : Line) (marker : String) : Bool := hasText l.text marker

/-- Are the lines equal, up to spellings of a path? -/
def sameAs : Line → Line → Bool
  | dependency d, dependency e => d.sameAs e
  | l, m => l == m

/-- Reads a line without white space at its edges. -/
def ofTrimmed? : List Char → Option Line
  | [] => none
  | '#' :: ' ' :: r => some (comment (String.ofList r))
  | '#' :: r => some (comment (String.ofList r))
  | t =>
    match Dependency.parse? t with
    | some d => some (dependency d)
    | none =>
      match Script.findUnquoted? commentMark.toList t with
      | some i =>
        some (termWithComment (String.ofList (Text.trimEnd (Text.takeBytes i t)))
          (String.ofList (Text.trim (Text.dropBytes (i + Text.byteSize commentMark.toList) t))))
      | none => some (term (String.ofList t))

/-- Reads a line of text; blank text is no line. -/
def parse? (t : List Char) : Option Line := ofTrimmed? (Text.trim t)

end Line

end Restoration
