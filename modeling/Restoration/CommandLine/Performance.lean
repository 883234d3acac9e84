import Restoration.CommandLine.Fault
import Restoration.CommandLine.Request
import Restoration.Frames.Partition
import Restoration.Queue

/-!
# Performance of requests

What each command does to the files, and what it prints. A command that makes a file gives its path.

    perform never changes the current folder
-/

namespace Restoration.CommandLine

/-- What commands are performed at. -/
structure Console where
  desk : Desk Unit
  /-- What was printed so far. -/
  printed : String := ""
  /-- How many threads the machine has. -/
  threads : Nat := 1

/-- The performance of a command. -/
abbrev Act := ExceptT CommandFault (StateM Console)

namespace Act

/-! ## Steps -/

/-- Raises a fault that was found. -/
def require {α ε : Type} (fault : ε → CommandFault) : Except ε α → Act α
  | .ok a => pure a
  | .error e => throw (fault e)

/-- The files. -/
def files : Act FileTree := do return (← get).desk.files

/-- Puts other files in place. -/
def setFiles (t : FileTree) : Act Unit :=
  modify fun c => { c with desk := { c.desk with files := t } }

/-- Changes the files. -/
def change {ε : Type} (f : FileTree → Except ε FileTree) (fault : ε → CommandFault) : Act Unit := do
  setFiles (← require fault (f (← files)))

/-- Work at the desk. -/
def onDesk {α ε : Type} (fault : ε → CommandFault) (w : Work Unit ε α) : Act α :=
  fun c => match w c.desk with
    | (.ok a, d) => (.ok a, { c with desk := d })
    | (.error e, d) => (.error (fault e), { c with desk := d })

/-- Work at the desk that cannot fail. -/
def atDesk {α : Type} (w : StateM (Desk Unit) α) : Act α :=
  fun c => match w c.desk with
    | (a, d) => (.ok a, { c with desk := d })

/-- Prints a line. -/
def print (line : String) : Act Unit :=
  modify fun c => { c with printed := c.printed ++ line ++ "\n" }

/-- The current folder. -/
def currentFolder : Act Path := do return ⟨"/" ++ "/".intercalate (← files).current⟩

/-- The settings of the machine. -/
def machine (o : Options) : Act Machine := do
  let path := o.machine.getD ((← currentFolder).join ⟨"./remaster.json"⟩)
  require .machine (Machine.load (← files) path)

/-- The job of a record. -/
def loadJob (record : Path) : Act Job := do require .record (Job.load (← files) record)

/-- A path seen from the top of the tree. -/
def absolute (p : Path) : Act Path := do
  if p.text.isEmpty then throw .emptyPath
  return (← currentFolder).absoluteFrom p

/-- The file that a command is about. -/
def file (o : Options) : Path := o.files.headD ⟨""⟩

/-! ## New jobs -/

/-- The index of a new job in a folder. -/
def newIndex (folder : Path) : Act Nat := do
  let t ← files
  if t.pathExists folder then
    let jobs ← require .record (Job.recover t folder)
    if Numeral.word ≤ Queue.indexAbove jobs then throw .noIndexLeft
    return ((Queue.ofSlots 1).seeded jobs).allocate.1
  else return (Queue.ofSlots 1).allocate.1

/-- A job as asked for, on a machine that says how many encoders work on it unless that is asked for
too. -/
def jobOf (m : Machine) (o : Options) (source directory : Path) (index : Nat) : Job :=
  { o.job with source, directory, index, parallelism := max 1 (o.parallelism.getD m.parallelism) }

/-- Files a new job. -/
def init (o : Options) : Act Path := do
  let m ← machine o
  let folder ← absolute (o.folder.getD m.jobDirectory)
  let source ← absolute (file o)
  let index ← match o.index with
    | some n => pure n
    | none => newIndex folder
  let job := jobOf m o source folder index
  let record := job.path .record
  if (← files).pathExists record then throw (.jobExists record)
  change job.store .recordNotWritten
  return record

/-! ## Scripts -/

/-- The script that a job is shown with before it is encoded. -/
def previewPath (job : Job) : Path := job.directory.join ⟨job.stem ++ "Preview.avs"⟩

/-- Writes the script of a job. -/
def compile (o : Options) : Act Path := do
  let m ← machine o
  let job ← loadJob (file o)
  change (fun t => t.makeFolders job.directory) (.folder job.directory)
  let gpu ← atDesk (m.detectGpu job.directory)
  let engine := m.engine (← get).threads gpu o.preview job.parallelism
  let script ← require .script (job.compile engine)
  let output := o.output.getD (if o.preview then previewPath job else job.path .script)
  change (script.store output) .script
  if job.stabilization.isSome then
    let motion ← require .script (job.compileMotion engine)
    change (motion.store (job.path .motionScript)) .script
  return output

/-! ## Progress -/

/-- Ranges with the number of their frames. -/
def rangesLine (word : String) (frames : Nat) (rs : List FrameRange) : String :=
  word ++ " (" ++ Numeral.text frames ++ " frames): " ++ FrameRange.listText rs

/-- Shows how far a job is encoded, and how the rest would be cut. -/
def analyze (o : Options) : Act Unit := do
  let m ← machine o
  let job ← loadJob (file o)
  if !(← files).pathExists (job.path .script) then
    let engine := m.engine (← get).threads (m.gpu.getD false) false job.parallelism
    let script ← require .script (job.compile engine)
    change (script.store (job.path .script)) .script
  let p ← onDesk .job (job.survey m.toolbox)
  let partition := Partition.of job.parallelism.toNat p.framesLeft
  print ("Job " ++ Numeral.text job.index ++ ": " ++ Numeral.text p.totalFrames ++ " frames")
  print (rangesLine "Done" p.framesDone p.done)
  print (rangesLine "Left" p.framesLeft p.left)
  print ("Chunks for " ++ Numeral.text partition.workers ++ " workers: "
    ++ FrameRange.listText (partition.chunks p.left))

/-! ## Encoding -/

/-- What is printed of a job's encoding. -/
def outcomeLine (o : Queue.Outcome JobFault) : String :=
  "Job " ++ Numeral.text o.job.index ++ ": " ++
    match o.result with
    | .ok (.complete output frames) => Numeral.text frames ++ " frames encoded to " ++ output.text
    | .ok (.incomplete left position _) =>
      Numeral.text left ++ " frames left, resume from frame " ++ Numeral.text position
    | .ok .cancelled => "cancelled"
    | .error fault => "failed: " ++ fault.message

/-- Is the job left without a finished file, though nobody asked to stop? -/
def isUnfinished (o : Queue.Outcome JobFault) : Bool :=
  match o.result with
  | .ok (.incomplete ..) | .error _ => true
  | .ok _ => false

/-- Encodes one job of a queue. -/
def encodeOne (m : Machine) (options : EncodingOptions) (job : Job) (d : Desk Unit) :
    Queue.Outcome JobFault × Desk Unit :=
  let (r, b) := Encoding.run m.toolbox options { job, desk := d }
  (⟨b.job, r⟩, b.desk)

/-- Encodes jobs; `known` are all jobs whose indices are taken. -/
def encodeJobs (m : Machine) (jobs known : List Job) : Act Unit := do
  onDesk .tool (Programs.verify m.tools)
  let scratch := ((jobs.head?).map (·.directory)).getD m.jobDirectory
  change (fun t => t.makeFolders scratch) .scratch
  let gpu ← atDesk (m.detectGpu scratch)
  let options := m.encodingOptions (← get).threads gpu
  let queue := jobs.foldl Queue.push ((Queue.ofSlots m.slots).seeded known)
  let outcomes ← atDesk (queue.drain (fun d : Desk Unit => d.isRaised) (encodeOne m options))
  outcomes.forM fun o => print (outcomeLine o)
  let failed := outcomes.countP isUnfinished
  if 0 < failed then throw (.unfinished failed outcomes.length)

/-- Encodes the jobs of records. -/
def encode (o : Options) : Act Unit := do
  let m ← machine o
  let jobs ← o.files.mapM loadJob
  encodeJobs m jobs []

/-- Takes all unfinished jobs of a folder up again. -/
def resume (o : Options) : Act Unit := do
  let m ← machine o
  let jobs ← require .record (Job.recover (← files) (o.folder.getD m.jobDirectory))
  let unfinished := (jobs.filter (·.status ≠ .success)).map fun j => j.resumedAt j.resumePosition
  if unfinished.isEmpty then return ()
  encodeJobs m unfinished jobs

/-! ## Cleaning -/

/-- Removes what is of no more use of a job, and its record. -/
def clean (o : Options) : Act Unit := do
  let record := file o
  let job ← loadJob record
  let names ← require (.listing job.directory) ((← files).list job.directory)
  let fragments := (names.filter fun n => job.classify n ≠ .foreign).map fun n =>
    job.directory.join ⟨n⟩
  let (r, t) := (Encoding.removeIntermediates job fragments (← files)).removeHeld record
  setFiles t
  require (.removal record) r

end Act

/-- Performs a request. Gives the path of the file that it made, if it made one. -/
def Request.perform (r : Request) : Act (Option Path) := do
  match r.verb with
  | .init => return some (← Act.init r.options)
  | .compile => return some (← Act.compile r.options)
  | .analyze =>
    Act.analyze r.options
    return none
  | .encode =>
    Act.encode r.options
    return none
  | .resume =>
    Act.resume r.options
    return none
  | .clean =>
    Act.clean r.options
    return none

end Restoration.CommandLine
