import Restoration.CommandLine.Performance

/-!
# The program

Reads the files around the current folder into a tree, performs the request of the command line on
it, and writes back what the request changed. Scripts that start with `#!` may be run.
-/

namespace Restoration.CommandLine

/-- A file as it stands on disk: as text if it is text, byte by byte if it is not. -/
def nodeOfBytes (bytes : ByteArray) : Node :=
  let text := (String.fromUTF8? bytes).getD
    (String.ofList (bytes.toList.map fun b => Char.ofNat b.toNat))
  .file text ("#!".isPrefixOf text)

/-- The place of an absolute path. -/
def placeOf (path : String) : Place := FileTree.pieces ⟨path⟩

/-- The absolute path of a place. -/
def pathTo (p : Place) : String := "/" ++ "/".intercalate p

/-- The folders on the way to a place, and the place itself as a folder. -/
def foldersTo (p : Place) : List (Place × Node) :=
  (List.range p.length).map fun n => (p.take (n + 1), .folder)

/-- Everything below a folder on disk. -/
def readFolder (folder : String) : IO (List (Place × Node)) := do
  let top ← IO.FS.realPath folder
  let below ← (← top.walkDir).mapM fun path => do
    let node ← if ← path.isDir then pure Node.folder else nodeOfBytes <$> IO.FS.readBinFile path
    return (placeOf path.toString, node)
  return foldersTo (placeOf top.toString) ++ below.toList

/-- Is there such a folder on disk? -/
def isFolderOnDisk (path : String) : IO Bool := do
  try (← IO.FS.realPath path).isDir catch _ => return false

/-- The current folder, all folders among the arguments, and everything below them. -/
def readTree (args : List String) : IO FileTree := do
  let current := (← IO.currentDir).toString
  let folders ← args.filterM isFolderOnDisk
  let nodes ← (current :: folders).mapM readFolder
  let add (t : FileTree) (e : Place × Node) : FileTree :=
    if (t.node? e.1).isSome then t else { t with nodes := t.nodes ++ [e] }
  return nodes.flatten.foldl add { current := placeOf current }

/-- Writes what a tree holds and an older tree does not, and removes what only the older one
holds. -/
def writeChanges (old new : FileTree) : IO Unit := do
  for (place, node) in new.nodes do
    if old.node? place ≠ some node then
      match node with
      | .folder => IO.FS.createDirAll (pathTo place)
      | .file text _ => IO.FS.writeFile (pathTo place) text
  for (place, _) in old.nodes do
    if (new.node? place).isNone then IO.FS.removeFile (pathTo place)

/-- Performs a request on the files on disk. -/
def performOnDisk (request : Request) (args : List String) : IO UInt32 := do
  let files ← readTree args
  let (result, console) := request.perform { desk := { files, tools := () } }
  writeChanges files console.desk.files
  IO.print console.printed
  match result with
  | .ok none => return 0
  | .ok (some path) =>
    IO.println path.text
    return 0
  | .error fault =>
    IO.eprintln ("Error: " ++ fault.report)
    return 1

end Restoration.CommandLine

open Restoration.CommandLine in
def main (args : List String) : IO UInt32 := do
  match Request.ofArguments args with
  | .ok request => performOnDisk request args
  | .error fault =>
    IO.eprintln ("error: " ++ fault.label)
    return if fault = .help ∨ fault = .version then 0 else 2
