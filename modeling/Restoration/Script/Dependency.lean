import Restoration.Path
import Restoration.Script.Quotes
import Restoration.Text.Numeral

/-!
# Dependencies

Statements that make the functions of a plugin or of another script available.

    parse? d.text = some d        for paths and names without double quotes
-/

namespace Restoration

/-- A statement that loads functions. -/
inductive Dependency where
  | loadPlugin (path : Path)
  | importScript (path : Path)
  | loadVirtualDubPlugin (path : Path) (name : String) (preroll : Nat)
  deriving DecidableEq, Repr

namespace Dependency

/-- The file that holds the functions. -/
def path : Dependency → Path
  | loadPlugin p => p
  | importScript p => p
  | loadVirtualDubPlugin p _ _ => p

/-- The same statement for another file. -/
def withPath (d : Dependency) (p : Path) : Dependency :=
  match d with
  | loadPlugin _ => loadPlugin p
  | importScript _ => importScript p
  | loadVirtualDubPlugin _ name preroll => loadVirtualDubPlugin p name preroll

/-- The statement with a relative file looked up in `directory`. -/
def rootedAt (d : Dependency) (directory : Path) : Dependency :=
  d.withPath (directory.join d.path)

/-- Do both statements load the same file in the same way? -/
def sameAs : Dependency → Dependency → Bool
  | loadPlugin p, loadPlugin q => p.sameAs q
  | importScript p, importScript q => p.sameAs q
  | loadVirtualDubPlugin p n k, loadVirtualDubPlugin q m l => p.sameAs q && n == m && k == l
  | _, _ => false

/-- The statement as text. -/
def text : Dependency → String
  | loadPlugin p => "LoadPlugin(\"" ++ p.text ++ "\")"
  | importScript p => "Import(\"" ++ p.text ++ "\")"
  | loadVirtualDubPlugin p name preroll =>
    "LoadVirtualDubPlugin(\"" ++ p.text ++ "\", \"" ++ name ++ "\", " ++ Numeral.text preroll ++ ")"

/-- How many numbers a preroll can be. -/
def prerollBound : Nat := UInt32.size

/-- The statement that a call with this function name and these arguments is. -/
def ofCall? (function : String) (arguments : List (List Char)) : Option Dependency :=
  match function, arguments with
  | "LoadPlugin", [p] => (Script.unquote? p).map fun p => loadPlugin ⟨String.ofList p⟩
  | "Import", [p] => (Script.unquote? p).map fun p => importScript ⟨String.ofList p⟩
  | "LoadVirtualDubPlugin", [p, name, preroll] => do
    let p ← Script.unquote? p
    let name ← Script.unquote? name
    let preroll ← Numeral.read? prerollBound (Text.trim preroll)
    pure (loadVirtualDubPlugin ⟨String.ofList p⟩ (String.ofList name) preroll)
  | _, _ => none

/-- Reads a line of a script, if it is such a statement. -/
def parse? (line : List Char) : Option Dependency := do
  let call ← Text.dropTail? [')'] (Text.trim line)
  let (function, arguments) ← Text.splitOnce? '(' call
  ofCall? (String.ofList (Text.trim function)) (Script.splitArguments arguments)

end Dependency

end Restoration
