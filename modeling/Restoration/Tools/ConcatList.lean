import Restoration.Path
import Restoration.Text.Occurrence

/-!
# Concat lists

The list of files that a transcoder joins, one directive a line. In a file name a backslash, a
blank and a quote are written behind a backslash.

    decode? (text ps) = some ps        for names without other white space
-/

namespace Restoration.ConcatList

/-- The text with a backslash ahead of every `c`. -/
def escapeAll (t : List Char) (c : Char) : List Char := Text.replace [c] ['\\', c] t

/-- What stands behind a backslash in a file name. The backslash itself comes first, ahead of those
that are written for the others. -/
def special : List Char := ['\\', ' ', '\x27']

/-- A file name as it is written. -/
def escape (t : List Char) : List Char := special.foldl escapeAll t

/-- The line of one file. -/
def line (p : Path) : List Char := "file ".toList ++ escape p.text.toList ++ ['\n']

/-- The text of a list of files. -/
def text (ps : List Path) : String := String.ofList (ps.flatMap line)

end Restoration.ConcatList
