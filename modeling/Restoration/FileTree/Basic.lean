import Restoration.FileTree.Fault
import Restoration.Path

/-!
# File trees

Files and folders by their places. A path leads to a place step by step, from the top of the tree
or from the current folder, through folders only.

    (t.write p s).readText p = s
-/

namespace Restoration

/-- The names on the way from the top of the tree to a file or folder. -/
abbrev Place := List String

/-- What stands at a place. -/
inductive Node where
  | file (text : String) (executable : Bool)
  | folder
  deriving DecidableEq, Repr

/-- All files and folders, in the order in which a listing shows them. -/
structure FileTree where
  nodes : List (Place × Node) := []
  /-- Where relative paths start. -/
  current : Place := []
  deriving Repr

namespace FileTree

/-! ## Places -/

/-- What stands at a place. The top of the tree is a folder. -/
def node? (t : FileTree) (p : Place) : Option Node :=
  if p.isEmpty then some .folder else t.nodes.lookup p

/-- Puts a node at a place, in its old position if there was one. -/
def put (t : FileTree) (p : Place) (n : Node) : FileTree :=
  { t with nodes :=
      if t.nodes.any (·.1 == p) then t.nodes.map fun e => if e.1 == p then (p, n) else e
      else t.nodes ++ [(p, n)] }

/-- Takes away what stands at a place. -/
def erase (t : FileTree) (p : Place) : FileTree :=
  { t with nodes := t.nodes.filter (·.1 != p) }

/-- The names in a folder. -/
def names (t : FileTree) (p : Place) : List String :=
  t.nodes.filterMap fun e =>
    match e.1.getLast? with
    | some name => if e.1.dropLast == p then some name else none
    | none => none

/-- Everything below a folder, sorted, with a separator behind each folder. -/
def listing (t : FileTree) (folder : Place) : List String :=
  let names := t.nodes.filterMap fun (place, node) =>
    if folder.isPrefixOf place && folder.length < place.length then
      some ("/".intercalate (place.drop folder.length) ++ if node = .folder then "/" else "")
    else none
  names.mergeSort fun a b => a ≤ b

/-! ## Paths -/

/-- One more than the length of the longest name, in bytes. -/
def nameBound : Nat := 256

/-- Refuses a place that is no folder. -/
def requireFolder (t : FileTree) (p : Place) : Except FileFault Unit :=
  match t.node? p with
  | some .folder => .ok ()
  | some (.file ..) => .error .notADirectory
  | none => .error .notFound

/-- The place one step further. -/
def step (t : FileTree) (p : Place) (piece : String) : Except FileFault Place := do
  t.requireFolder p
  if piece = "." then pure p
  else if piece = ".." then pure p.dropLast
  else if nameBound ≤ piece.utf8ByteSize then .error .nameTooLong
  else pure (p ++ [piece])

/-- The steps of a path. -/
def pieces (p : Path) : List String :=
  ((Text.splitAt (· == '/') p.text.toList).filter (!·.isEmpty)).map String.ofList

/-- Can the path only lead to a folder, by the way it ends? -/
def asksForFolder (p : Path) : Bool :=
  p.text.toList.getLast? = some '/' ||
    match (pieces p).getLast? with
    | some last => last = "." || last = ".."
    | none => false

/-- Where a path starts. -/
def startOf (t : FileTree) (p : Path) : Place := if p.isAbsolute then [] else t.current

/-- The place that a path leads to; something need not stand there. -/
def resolve (t : FileTree) (p : Path) : Except FileFault Place :=
  if p.text.isEmpty then .error .notFound else (pieces p).foldlM t.step (t.startOf p)

/-- What a path leads to. -/
def look (t : FileTree) (p : Path) : Except FileFault (Place × Node) := do
  let place ← t.resolve p
  match t.node? place with
  | none => .error .notFound
  | some (.file s x) =>
    if asksForFolder p then .error .notADirectory else pure (place, .file s x)
  | some .folder => pure (place, .folder)

/-! ## Operations -/

/-- Does the path lead to something? -/
def pathExists (t : FileTree) (p : Path) : Bool := (t.look p).toOption.isSome

/-- Does the path lead to a folder? -/
def isFolder (t : FileTree) (p : Path) : Bool :=
  match t.look p with
  | .ok (_, .folder) => true
  | _ => false

/-- The text of a file. -/
def readText (t : FileTree) (p : Path) : Except FileFault String := do
  match ← t.look p with
  | (_, .file s _) => pure s
  | (_, .folder) => .error .isADirectory

/-- Is the file missing or without content? -/
def isEmptyFile (t : FileTree) (p : Path) : Bool :=
  match t.look p with
  | .ok (_, .file s _) => s.isEmpty
  | .ok (_, .folder) => false
  | .error _ => true

/-- Writes a file, over an old one if there is one. -/
def write (t : FileTree) (p : Path) (s : String) : Except FileFault FileTree := do
  let place ← t.resolve p
  match t.node? place with
  | some .folder => .error .isADirectory
  | some (.file _ x) =>
    if asksForFolder p then .error .notADirectory else pure (t.put place (.file s x))
  | none => if asksForFolder p then .error .isADirectory else pure (t.put place (.file s false))

/-- Lets a file be run. -/
def makeExecutable (t : FileTree) (p : Path) : Except FileFault FileTree := do
  match ← t.look p with
  | (place, .file s _) => pure (t.put place (.file s true))
  | (_, .folder) => .error .isADirectory

/-- Removes a file. -/
def remove (t : FileTree) (p : Path) : Except FileFault FileTree := do
  match ← t.look p with
  | (place, .file ..) => pure (t.erase place)
  | (_, .folder) => .error .isADirectory

/-- The names in a folder. -/
def list (t : FileTree) (p : Path) : Except FileFault (List String) := do
  match ← t.look p with
  | (place, .folder) => pure (t.names place)
  | (_, .file ..) => .error .notADirectory

/-- Goes one step further and makes a folder there if nothing stands there. -/
def stepMaking (from_ : FileTree × Place) (piece : String) :
    Except FileFault (FileTree × Place) := do
  let (t, p) := from_
  let place ← t.step p piece
  pure (if (t.node? place).isNone then t.put place .folder else t, place)

/-- Makes a folder and all folders on the way to it. -/
def makeFolders (t : FileTree) (p : Path) : Except FileFault FileTree := do
  let (t, place) ← (pieces p).foldlM stepMaking (t, t.startOf p)
  match t.node? place with
  | some (.file ..) => .error (if asksForFolder p then .notADirectory else .alreadyThere)
  | _ => pure t

/-- The folder that a path lies in. -/
def folderOf (p : Path) : Path :=
  let ps := (pieces p).filter (· ≠ ".")
  ⟨(if p.isAbsolute then "/" else "") ++ "/".intercalate ps.dropLast⟩

/-- Writes a file, and makes the folders on the way to it. -/
def writeMaking (t : FileTree) (p : Path) (s : String) : Except FileFault FileTree := do
  (← t.makeFolders (folderOf p)).write p s

end FileTree

end Restoration
