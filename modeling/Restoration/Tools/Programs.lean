import Restoration.Shell.Running
import Restoration.Tools.Arguments
import Restoration.Tools.Toolbox

/-!
# Programs

Outside tools are programs: shell scripts among the files, or the small programs that stand in the
folders of the system. A program is looked at from time to time while it runs, and stopped when it
took too long or the work was asked to stop.

    a run within a limit ends before the first look behind the limit
-/

namespace Restoration

/-- Where the outside tools are. -/
structure ToolPaths where
  /-- Runs scripts and hands out their frames. -/
  engine : Path := ⟨"avs2pipemod"⟩
  transcoder : Path := ⟨"ffmpeg"⟩
  prober : Path := ⟨"ffprobe"⟩
  deriving DecidableEq, Repr

namespace Programs

open Shell

/-! ## Finding and starting -/

/-- The names of the shell. -/
def shellNames : List String := ["sh", "dash", "bash"]

/-- The name of a program in one of the folders of the system. -/
def systemName? (path : String) : Option String :=
  Utility.programFolders.findSome? fun folder =>
    (Text.dropLead? folder.toList path.toList).map String.ofList

/-- Is a program of this name part of the system? -/
def isSystemName (name : String) : Bool :=
  shellNames.contains name || (Utility.program? name).isSome

/-- Can the tool be found? A path has to lead to a file that may be run; a bare name has to be one of
the programs of the system. -/
def isFound (t : FileTree) (tool : Path) : Bool :=
  if tool.text.toList.contains '/' then
    match t.look tool with
    | .ok (_, .file _ executable) => executable
    | .ok (_, .folder) => false
    | .error _ => (systemName? tool.text).any isSystemName
  else isSystemName tool.text

/-- The first line of a script behind its mark: the interpreter, and an argument if there is one. -/
def interpreter? (script : String) : Option (String × Option String) :=
  match script.toList with
  | '#' :: '!' :: r =>
    let line := Text.trim (r.takeWhile (· != '\n'))
    let path := line.takeWhile (!Text.isBlank ·)
    let argument := Text.trim (line.drop path.length)
    if path.isEmpty then none
    else
      some (String.ofList path, if argument.isEmpty then none else some (String.ofList argument))
  | _ => none

/-- Runs a script with the shell. -/
def asShellScript (script : String) (strict : Bool) : Run Unit := do
  modify fun st => { st with strict := strict }
  Run.runProgram stepBound (Program.ofText script)

/-- Runs a program of the system. -/
def asSystemProgram (name : String) (args : List String) : Run Unit := do
  match Utility.program? name with
  | some f => Run.setStatus (← f args)
  | none => throw (.exit 127)

/-- What a script does whose first line names an interpreter. -/
def interpreted (path script interpreter : String) (argument : Option String) (args : List String) :
    Except FileFault (Run Unit) :=
  match systemName? interpreter with
  | none => .error .notFound
  | some name =>
    let name := if name = "env" then argument.getD "" else name
    if shellNames.contains name then
      let asksForStrictness (a : String) := a.toList.head? = some '-' && a.toList.contains 'e'
      .ok (asShellScript script (argument.any asksForStrictness))
    else if isSystemName name then .ok (asSystemProgram name (argument.toList ++ path :: args))
    else .error .notFound

/-- What a program does, or why it cannot be started. -/
def start (t : FileTree) (tool : Path) (args : List String) : Except FileFault (Run Unit) :=
  match t.readText tool with
  | .ok script =>
    match interpreter? script with
    | some (interpreter, argument) => interpreted tool.text script interpreter argument args
    | none => .error .notExecutable
  | .error _ => .ok (asSystemProgram ((systemName? tool.text).getD tool.text) args)

/-- The status of a launcher that cannot find or cannot run a program. -/
def launcherStatus : FileFault → Nat
  | .notFound => 127
  | _ => 126

/-- What a program does that a launcher starts with low priority. A launcher tries the shell on what
is no program. -/
def startLow (t : FileTree) (tool : Path) (args : List String) : Run Unit :=
  match start t tool args with
  | .ok r => r
  | .error .notExecutable => asShellScript ((t.readText tool).toOption.getD "") false
  | .error fault => do
    Run.complain ("nice: \x27" ++ tool.text ++ "\x27: " ++ fault.reason)
    throw (.exit (launcherStatus fault))

/-- What a program does with a priority, or why it cannot be started. -/
def startWith (priority : Priority) (t : FileTree) (tool : Path) (args : List String) :
    Except FileFault (Run Unit) :=
  match priority with
  | .normal => start t tool args
  | .low => .ok (startLow t tool args)

/-! ## Watching -/

/-- The milliseconds between two looks at a program. -/
def pollInterval : Nat := 50

/-- The first look at or behind a point of time. -/
def nextLook (time : Nat) : Nat := (time + pollInterval - 1) / pollInterval * pollInterval

/-- The first look behind a point of time. -/
def lookBehind (time : Nat) : Nat := (time / pollInterval + 1) * pollInterval

/-- A program that ended, or was stopped. -/
structure Ended where
  ending : Ending
  files : FileTree
  output : String
  errors : String
  clock : Nat

/-- Did the program not end by itself? -/
def Ended.wasStopped (e : Ended) : Bool := e.ending = .stopped

/-- What a program is given. -/
structure Launch where
  tool : Path
  args : List String
  input : String := ""
  /-- When the end of its input is reached. -/
  inputEnd : Nat := 0
  deadline : Option Nat := none

/-- The name that a program sees itself called by. -/
def ownName (t : FileTree) (tool : Path) : String :=
  if tool.isAbsolute then tool.text
  else ((Path.mk ("/" ++ "/".intercalate t.current)).absoluteFrom tool).text

/-- Runs a program. One that would run for ever without a deadline is stopped very late. -/
def watch (l : Launch) (r : Run Unit) (t : FileTree) : Ended :=
  let (ending, st) := execute r {
    files := t, name := ownName t l.tool, arguments := l.args
    input := l.input, inputEnd := l.inputEnd, deadline := l.deadline }
  let late := l.deadline.any (· ≤ st.clock)
  { ending := if late then .stopped else ending
    files := { st.files with current := t.current }
    output := (st.pipes.drop 0).headD "", errors := (st.pipes.drop 1).headD "", clock := st.clock }

variable {τ : Type}

/-- The name of a tool in faults. -/
def nameOf (tool : Path) : String := tool.text

/-- Refuses a tool that cannot be found. -/
def find (tool : Path) : Work τ ToolFault Unit := do
  if !isFound (← get).files tool then throw (.notFound (nameOf tool))

/-- Refuses a tool that cannot be started. -/
def launch (l : Launch) (priority : Priority) : Work τ ToolFault (Run Unit) := do
  match startWith priority (← get).files l.tool l.args with
  | .ok r => pure r
  | .error fault => throw (.launch (nameOf l.tool) fault.message)

/-- Keeps the files as a program left them. -/
def keep (e : Ended) : Work τ ToolFault Unit := modify fun d => { d with files := e.files }

/-- The text of a stream without blanks around it. -/
def trimmed (s : String) : String := String.ofList (Text.trim s.toList)

/-- Refuses an ending without success. What the tool shows by itself is not told again. -/
def check (tool : Path) (display : Bool) (e : Ended) : Work τ ToolFault Unit :=
  let errors := if display then "" else trimmed e.errors
  match e.ending with
  | .exited (.code 0) => pure ()
  | .exited status => throw (.failed (nameOf tool) status errors)
  | .stopped => throw (.failed (nameOf tool) (.signal 9) errors)

/-- Runs a tool and watches it. -/
def runWatched (l : Launch) (o : RunOptions) : Work τ ToolFault Ended := do
  find l.tool
  let r ← launch l o.priority
  if ← Work.isCancelled then throw (.cancelled (nameOf l.tool))
  if o.limit = some 0 then throw (.timeout (nameOf l.tool) 0)
  let e := watch { l with deadline := o.limit.map nextLook } r (← get).files
  keep e
  match o.limit with
  | some limit => if e.wasStopped then throw (.timeout (nameOf l.tool) limit)
  | none => pure ()
  check l.tool o.display e
  pure e

/-! ## Tools -/

/-- Refuses tools of which one cannot be found. -/
def verify (p : ToolPaths) : Work τ ToolFault Unit := do
  find p.engine
  find p.transcoder
  find p.prober

/-- Runs a script to its end without keeping its frames. -/
def runScript (p : ToolPaths) (script : Path) (o : RunOptions) : Work τ ToolFault Unit := do
  let _ ← runWatched { tool := p.engine, args := ["-benchmark", script.text] } o

/-- Two programs of which the second reads what the first writes. -/
structure Pair where
  source : Launch
  encoder : Launch
  runSource : Run Unit
  runEncoder : Run Unit

/-- Runs a pair. The source may run until one deadline, the encoder until another. -/
def Pair.watch (p : Pair) (sourceDeadline encoderDeadline : Option Nat) (t : FileTree) :
    Ended × Ended :=
  let s := Programs.watch { p.source with deadline := sourceDeadline } p.runSource t
  let l := { p.encoder with input := s.output, inputEnd := s.clock, deadline := encoderDeadline }
  (s, Programs.watch l p.runEncoder s.files)

/-- Notes the start of one more process. -/
def noteProcess : Work τ ToolFault Unit := do Work.noteStart ((← get).started.length + 1)

/-- Encodes the frames of a script. The encoder is watched first, then the source; a failure of the
source is told rather than one of the encoder. -/
def encode (p : ToolPaths) (script output : Path) (job : Job) (o : RunOptions) :
    Work τ ToolFault Unit := do
  let source : Launch := { tool := p.engine, args := ["-y4mp", script.text] }
  let encoder : Launch :=
    { tool := p.transcoder, args := job.delivery.encoderArguments ++ [output.text] }
  find source.tool
  find encoder.tool
  let runSource ← launch source o.priority
  noteProcess
  let runEncoder ← launch encoder o.priority
  noteProcess
  if ← Work.isCancelled then throw (.cancelled (nameOf encoder.tool))
  if o.limit = some 0 then throw (.timeout (nameOf encoder.tool) 0)
  let pair : Pair := { source, encoder, runSource, runEncoder }
  let files := (← get).files
  let deadline := o.limit.map nextLook
  let (s, e) := pair.watch none deadline files
  if e.wasStopped then
    let (_, e) := pair.watch deadline deadline files
    keep e
    throw (.timeout (nameOf encoder.tool) (o.limit.getD 0))
  let seen := lookBehind e.clock
  let sourceDeadline := deadline.map (seen + ·)
  if sourceDeadline.any (· ≤ s.clock) then
    let (_, e) := pair.watch sourceDeadline deadline files
    keep e
    throw (.timeout (nameOf source.tool) (o.limit.getD 0))
  keep e
  check source.tool o.display s
  check encoder.tool o.display e

/-- Counts the frames of a script by a probe that writes a side file. Without a readable side file
there are none. -/
def scriptFrames (p : ToolPaths) (limit : Nat) (probe side : Path) : Work τ ToolFault Nat := do
  modify fun d => { d with files := (d.files.remove side).toOption.getD d.files }
  runScript p probe { limit := some limit }
  match (← get).files.readText side with
  | .ok s => pure (frameCountOf s)
  | .error _ => pure 0

/-- Counts the frames of an encoded file. This run is not watched. -/
def mediaFrames (p : ToolPaths) (media : Path) : Work τ ToolFault Nat := do
  let l : Launch := {
    tool := p.prober
    args := ["-v", "error", "-select_streams", "v:0", "-count_packets", "-show_entries",
      "stream=nb_read_packets", "-of", "csv=p=0", media.text] }
  find l.tool
  let r ← launch l .normal
  let e := watch l r (← get).files
  keep e
  check l.tool false e
  pure (frameCountOf e.output)

/-- Joins the listed fragments with the sound of the source. -/
def join (p : ToolPaths) (list output : Path) (job : Job) : Work τ ToolFault Unit := do
  let args := ["-y", "-hide_banner", "-loglevel", "error", "-f", "concat", "-safe", "0", "-i",
    list.text] ++ job.audioArguments ++ ["-c:v", "copy", output.text]
  let _ ← runWatched { tool := p.transcoder, args } {}

/-- The longest time of a frame count, in milliseconds, unless another one is set. -/
def usualProbeLimit : Nat := 120000

/-- The tools that stand at some paths. -/
def toolbox (p : ToolPaths) (probeLimit : Nat) : Toolbox τ where
  runScript := runScript p
  encode := encode p
  scriptFrames := scriptFrames p probeLimit
  mediaFrames := mediaFrames p
  join := join p

end Programs

end Restoration
