import Restoration.Frames.Partition
import Restoration.Survey
import Restoration.Tools.ConcatList

/-!
# Encoding

A job is driven from its plan to the finished file: scripts are made, the missing chunks encoded,
the result surveyed again, and the fragments joined once every frame is there. Whatever happens,
the job can be taken up again from the fragments that are left.
-/

namespace Restoration

/-- How the encoding of a job ended. -/
inductive EncodingReport where
  | complete (output : Path) (frames : Nat)
  /-- Chunks failed or frames are missing; the job can be taken up from `resumePosition`. -/
  | incomplete (framesLeft resumePosition failures : Nat)
  | cancelled
  deriving DecidableEq, Repr

/-- The circumstances under which jobs are encoded. -/
structure EncodingOptions where
  engine : Engine := {}
  /-- The threads that all encoders of a job share. -/
  availableThreads : Nat := 1
  run : RunOptions := {}
  /-- Are scripts and fragments kept once they are joined? -/
  keepIntermediates : Bool := false
  deriving DecidableEq, Repr

/-- A job that is worked on, and its desk. -/
structure Bench (τ : Type) where
  job : Job
  desk : Desk τ

/-- Work on the job of a bench. -/
abbrev Encoding (τ : Type) := ExceptT JobFault (StateM (Bench τ))

namespace Encoding

variable {τ : Type}

/-- Work that does not change the job. -/
def onDesk {α : Type} (w : Work τ JobFault α) : Encoding τ α :=
  fun b => match w b.desk with
    | (r, d) => (r, { b with desk := d })

/-- The job. -/
def theJob : Encoding τ Job := do return (← get).job

/-- Changes the job. -/
def update (f : Job → Job) : Encoding τ Unit := modify fun b => { b with job := f b.job }

/-- Was the work asked to stop? -/
def isCancelled : Encoding τ Bool := onDesk Work.isCancelled

/-- Files the job. -/
def save : Encoding τ Unit := do
  let job ← theJob
  let files := (← get).desk.files
  match job.store files with
  | .ok files => modify fun b => { b with desk := { b.desk with files := files } }
  | .error fault => throw (.record fault)

/-- Files the job with a new status. -/
def saveAs (status : JobStatus) : Encoding τ Unit := do
  update fun j => { j with status := status }
  save

/-- Writes a script. -/
def write (s : Script) (p : Path) : Work τ JobFault Unit :=
  Work.change (fun t => t.write p s.text) fun cause => .script (.file p cause)

/-- Raises a fault of a script that was already found. -/
def made (r : Except ScriptFault Script) : Work τ JobFault Script :=
  match r with
  | .ok s => pure s
  | .error fault => throw (.script fault)

/-- The engine for one encoder of a job. -/
def EncodingOptions.engineFor (o : EncodingOptions) (job : Job) : Engine :=
  { o.engine with threads := job.threadsPerEncoder o.availableThreads }

/-- Runs the stabilizer's first pass if its log is needed and missing, and makes the job's script
if there is none. -/
def prepareScripts (tools : Toolbox τ) (o : EncodingOptions) (job : Job) :
    Work τ JobFault Unit := do
  let engine := EncodingOptions.engineFor o job
  if job.stabilization.isSome && !(← get).files.pathExists (job.path .motionLog) then
    let script ← made (job.compileMotion engine)
    write script (job.path .motionScript)
    Work.named .motionPass (tools.runScript (job.path .motionScript).forEngine o.run)
  if !(← get).files.pathExists (job.path .script) then
    let script ← made (job.compile engine)
    write script (job.path .script)

/-- The chunks that the job's workers encode. -/
def chunksOf (job : Job) (p : Progress) : List FrameRange :=
  if job.workers = 1 then p.left else (Partition.of job.workers p.framesLeft).chunks p.left

/-- The script that a chunk is encoded from. A single worker uses the job's script for all. -/
def chunkScript (job : Job) (chunk : FrameRange) : Path :=
  job.path (if job.workers = 1 then .script else .chunkScript chunk.start)

/-- Encodes one chunk. Only a script that cannot be written is a fault of the whole. -/
def encodeChunk (tools : Toolbox τ) (o : EncodingOptions) (job : Job) (base : Script)
    (chunk : FrameRange) : Work τ JobFault (FrameRange × Except ToolFault Unit) := do
  let file := chunkScript job chunk
  write (base.restrict chunk) file
  let r ← (tools.encode file.forEngine (job.path (.fragment chunk.start)) job o.run).outcome
  pure (chunk, r)

/-- Encodes chunks one after the other, until the work is asked to stop. Encoders that run side by side
write different files, so it does not matter which of them is done first. -/
def encodeAll (tools : Toolbox τ) (o : EncodingOptions) (job : Job) (base : Script) :
    List FrameRange → Work τ JobFault (List (FrameRange × Except ToolFault Unit))
  | [] => pure []
  | chunk :: rest => do
    if ← Work.isCancelled then return []
    let r ← encodeChunk tools o job base chunk
    let rs ← encodeAll tools o job base rest
    pure (r :: rs)

/-- The chunks whose encoders failed. -/
def failedChunks (rs : List (FrameRange × Except ToolFault Unit)) : List FrameRange :=
  rs.filterMap fun (chunk, r) =>
    match r with
    | .ok () => none
    | .error _ => some chunk

/-- How many encoders failed other than by being stopped. -/
def countFailures (rs : List (FrameRange × Except ToolFault Unit)) : Nat :=
  rs.countP fun (_, r) =>
    match r with
    | .ok () => false
    | .error fault => !fault.isCancelled

/-- Removes files as far as that is possible. -/
def discard (ps : List Path) : Work τ JobFault Unit :=
  modify fun d => { d with files := d.files.removeAll ps }

/-- Encodes what is left of a job. Says how many chunks failed. -/
def encodeChunks (tools : Toolbox τ) (o : EncodingOptions) (p : Progress) : Encoding τ Nat := do
  let job ← theJob
  let file := job.path .script
  let base ← onDesk (Work.look (fun t => t.readText file) fun cause => .script (.file file cause))
  onDesk (modify fun d => { d with started := [] })
  let rs ← onDesk (encodeAll tools o job (Script.parse base) (chunksOf job p))
  let started := (← get).desk.started
  update fun j => { j with processes := started }
  onDesk (discard ((failedChunks rs).map fun c => job.path (.fragment c.start)))
  pure (countFailures rs)

/-- Stops work on the job. -/
def stop : Encoding τ EncodingReport := do
  saveAs .cancelled
  pure .cancelled

/-- The files that are of no use once a job's fragments are joined. -/
def intermediates (t : FileTree) (job : Job) (fragments : List Path) : List Path :=
  [job.path .script, job.path .motionScript, job.path .motionLog, job.path .frameCountScript,
    job.path .frameCount, job.path .concatList] ++ fragments
    ++ match t.list job.directory with
      | .ok names => (names.filter job.isChunkScript).map fun n => job.directory.join ⟨n⟩
      | .error _ => []

/-- Removes the files that are of no use once a job's fragments are joined. -/
def removeIntermediates (job : Job) (fragments : List Path) (t : FileTree) : FileTree :=
  t.removeAll (intermediates t job fragments)

/-- Joins the fragments into the finished file and cleans up. -/
def finish (tools : Toolbox τ) (o : EncodingOptions) (p : Progress) : Encoding τ Path := do
  let job ← theJob
  let concat := job.path .concatList
  let output := job.path .delivery
  onDesk (Work.change (fun t => t.write concat (ConcatList.text p.fragments)) (.concatList concat))
  onDesk (Work.named (.joining job.index) (tools.join concat output job))
  saveAs .success
  if !o.keepIntermediates then
    onDesk (modify fun d =>
      { d with
        files := (removeIntermediates job p.fragments d.files).removeAll [job.path .record] })
  pure output

/-- What is missing of a job whose chunks were all tried. -/
def leaveIncomplete (p : Progress) (failures : Nat) : Encoding τ EncodingReport := do
  saveAs (if 0 < failures then .failed else .pending)
  pure (.incomplete p.framesLeft p.resumePosition failures)

/-- Drives a job to its finished file, as far as that is possible. -/
def run (tools : Toolbox τ) (o : EncodingOptions) : Encoding τ EncodingReport := do
  let directory := (← theJob).directory
  onDesk (Work.change (fun t => t.makeFolders directory) (.folder directory))
  saveAs .running
  onDesk (prepareScripts tools o (← theJob))
  let p ← onDesk ((← theJob).survey tools)
  if ← isCancelled then return ← stop
  if p.totalFrames = 0 then
    saveAs .failed
    throw (.noFrames (← theJob).index)
  let failures ← if p.left.isEmpty then pure 0 else encodeChunks tools o p
  if ← isCancelled then return ← stop
  let p ← onDesk ((← theJob).survey tools)
  if ← isCancelled then return ← stop
  update fun j => { j with resumePosition := p.resumePosition }
  if !p.isComplete then return ← leaveIncomplete p failures
  let output ← finish tools o p
  return .complete output p.totalFrames

end Encoding

end Restoration
