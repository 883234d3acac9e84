import Restoration.Text.Blank
import Restoration.Text.Bytes

/-!
# Text between double quotes

A double quote switches between plain and quoted text; there are no escapes. What separates the
parts of a statement counts only where an even number of quotes stands ahead of it. Places are bytes:

    findUnquoted? p (a ++ (p ++ b)) = some (byteSize a)
                                for an even number of quotes in a, and p at no such place ahead
-/

namespace Restoration.Script

/-- Searches from a point ahead of which the text is `quoted` or plain. -/
def findUnquotedFrom (pattern : List Char) (quoted : Bool) : List Char → Option Nat
  | [] => none
  | c :: r =>
    if c = '"' then (findUnquotedFrom pattern (!quoted) r).map (c.utf8Size + ·)
    else if !quoted && pattern.isPrefixOf (c :: r) then some 0
    else (findUnquotedFrom pattern quoted r).map (c.utf8Size + ·)

/-- The first byte at which `pattern` stands outside quotes. -/
def findUnquoted? (pattern text : List Char) : Option Nat := findUnquotedFrom pattern false text

/-- From which byte to which each part between commas outside quotes goes. The scan has come to byte
`index`, and the part it is in goes from byte `start` on. -/
def spansFrom (quoted : Bool) (start index : Nat) : List Char → List (Nat × Nat)
  | [] => [(start, index)]
  | c :: r =>
    let next := index + c.utf8Size
    if c = '"' then spansFrom (!quoted) start next r
    else if c = ',' ∧ quoted = false then (start, index) :: spansFrom quoted (index + 1) next r
    else spansFrom quoted start next r

/-- From which byte to which the arguments go, with the white space at their edges. -/
def argumentSpans (text : List Char) : List (Nat × Nat) := spansFrom false 0 0 text

/-- The arguments of a call, without white space at their edges. Blank text holds no argument. -/
def splitArguments (text : List Char) : List (List Char) :=
  match (argumentSpans text).map fun s => Text.trim (Text.slice text s.1 s.2) with
  | [[]] => []
  | parts => parts

/-- The text between the quotes that enclose an argument. -/
def unquote? (argument : List Char) : Option (List Char) :=
  match Text.trim argument with
  | '"' :: r => Text.dropTail? ['"'] r
  | _ => none

end Restoration.Script
