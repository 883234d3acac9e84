import Restoration.Encoding
import Restoration.Job.Record
import Restoration.Tools.Capability
import Restoration.Tools.Programs

/-!
# Machines

What is set once for a machine and shared by all jobs: where the tools are, how many jobs and
encoders run at the same time, and whether filters may use the graphics processor. The settings are
a JSON file, every member of which may be left out.

    ofText m.text = ok m
-/

namespace Restoration

open Json

/-- The settings of a machine. -/
structure Machine where
  tools : ToolPaths := {}
  pluginDirectory : Path := ⟨"plugins"⟩
  /-- The directory of new jobs. -/
  jobDirectory : Path := ⟨"./temp"⟩
  /-- How many encoders work on a new job. -/
  parallelism : UInt8 := 1
  /-- How many jobs are encoded at the same time. -/
  slots : Nat := 1
  /-- The threads that all encoders of a job share; all that there are unless it is set. -/
  threads : Option Nat := none
  /-- May filters use the graphics processor? Tried out unless it is set. -/
  gpu : Option Bool := none
  /-- In seconds. -/
  gpuProbeLimit : Nat := 20
  lowPriority : Bool := false
  keepIntermediates : Bool := false
  deriving DecidableEq, Repr

/-- Why the settings of a machine cannot be read or written. -/
inductive MachineFault where
  | read (path : Path) (cause : FileFault)
  | parse (path : Path) (cause : Json.Fault)
  | save (cause : FileFault)
  deriving DecidableEq, Repr

namespace MachineFault

/-- The fault in words. -/
def message : MachineFault → String
  | read path cause => "Failed to read config file " ++ path.text ++ ": " ++ cause.message
  | parse path cause => "Failed to parse config file " ++ path.text ++ ": " ++ cause.message
  | save cause => "Failed to save config file: " ++ cause.message

/-- The fault and what caused it. -/
def chain : MachineFault → List String
  | read path cause => [message (read path cause), cause.message]
  | parse path cause => [message (parse path cause), cause.message]
  | save cause => [message (save cause), cause.message]

end MachineFault

/-! ## Files -/

namespace ToolPaths

def engineField : RecordField Path := .required "avs_pipe" readPath
def transcoderField : RecordField Path := .required "ffmpeg" readPath
def proberField : RecordField Path := .required "ffprobe" readPath

/-- Reads where the tools are. -/
def read : Reader ToolPaths := fun j => do
  let fields ← fieldsOf "struct ToolPaths"
    [engineField.rule, transcoderField.rule, proberField.rule] j
  pure {
    engine := ← engineField.get fields
    transcoder := ← transcoderField.get fields
    prober := ← proberField.get fields }

/-- Where the tools are, as filed. -/
def toJson (t : ToolPaths) : Json := ofMembers [
  (engineField.name, ofPath t.engine), (transcoderField.name, ofPath t.transcoder),
  (proberField.name, ofPath t.prober)]

end ToolPaths

namespace Machine

/-- The settings of a machine of which nothing is set. -/
def standard : Machine := {}

def toolsField : RecordField ToolPaths := .usually "tools" ToolPaths.read standard.tools
def pluginDirectoryField : RecordField Path :=
  .usually "plugin_directory" readPath standard.pluginDirectory
def jobDirectoryField : RecordField Path := .usually "temp" readPath standard.jobDirectory
def parallelismField : RecordField UInt8 := .usually "parallelism" uint8 standard.parallelism
def slotsField : RecordField Nat := .usually "slots" count standard.slots
def threadsField : RecordField (Option Nat) := .maybe "threads" count
def gpuField : RecordField (Option Bool) := .maybe "gpu" bool
def gpuProbeLimitField : RecordField Nat :=
  .usually "gpu_probe_timeout" uint64 standard.gpuProbeLimit
def lowPriorityField : RecordField Bool := .usually "low_priority" bool standard.lowPriority
def keepIntermediatesField : RecordField Bool :=
  .usually "keep_intermediates" bool standard.keepIntermediates

/-- The fields of the settings, in order. -/
def rules : List Rule := [
  toolsField.rule, pluginDirectoryField.rule, jobDirectoryField.rule, parallelismField.rule,
  slotsField.rule, threadsField.rule, gpuField.rule, gpuProbeLimitField.rule, lowPriorityField.rule,
  keepIntermediatesField.rule]

/-- Reads the settings of a machine. -/
def read : Reader Machine := fun j => do
  let fields ← fieldsOf "struct Configuration" rules j
  pure {
    tools := ← toolsField.get fields
    pluginDirectory := ← pluginDirectoryField.get fields
    jobDirectory := ← jobDirectoryField.get fields
    parallelism := ← parallelismField.get fields
    slots := ← slotsField.get fields
    threads := ← threadsField.get fields
    gpu := ← gpuField.get fields
    gpuProbeLimit := ← gpuProbeLimitField.get fields
    lowPriority := ← lowPriorityField.get fields
    keepIntermediates := ← keepIntermediatesField.get fields }

/-- The settings of a machine as filed. -/
def toJson (m : Machine) : Json := ofMembers [
  (toolsField.name, m.tools.toJson),
  (pluginDirectoryField.name, ofPath m.pluginDirectory),
  (jobDirectoryField.name, ofPath m.jobDirectory),
  (parallelismField.name, ofUInt8 m.parallelism),
  (slotsField.name, ofNat m.slots),
  (threadsField.name, ofOption ofNat m.threads),
  (gpuField.name, ofOption ofBool m.gpu),
  (gpuProbeLimitField.name, ofNat m.gpuProbeLimit),
  (lowPriorityField.name, ofBool m.lowPriority),
  (keepIntermediatesField.name, ofBool m.keepIntermediates)]

/-- The text of the settings. -/
def text (m : Machine) : String := m.toJson.pretty

/-- Reads the settings from their text. -/
def ofText (t : String) : Except Json.Fault Machine := readText read t

/-- Reads the settings from a file; without the file nothing is set. -/
def load (t : FileTree) (p : Path) : Except MachineFault Machine :=
  if t.pathExists p then
    match t.readText p with
    | .error cause => .error (.read p cause)
    | .ok s => (ofText s).mapError (.parse p)
  else .ok standard

/-- Writes the settings to a file, and makes the folders on the way to it. -/
def store (m : Machine) (p : Path) (t : FileTree) : Except MachineFault FileTree :=
  (t.writeMaking p m.text).mapError .save

/-! ## Circumstances of jobs -/

/-- The threads that all encoders of a job share, on a machine with `all` threads. -/
def availableThreads (m : Machine) (all : Nat) : Nat := max 1 (m.threads.getD all)

/-- How tools are run. -/
def runOptions (m : Machine) : RunOptions where
  priority := if m.lowPriority then .low else .normal

/-- The engine for a script that one of several encoders runs. -/
def engine (m : Machine) (all : Nat) (gpu preview : Bool) (parallelism : UInt8) : Engine where
  pluginDirectory := m.pluginDirectory
  threads := max 1 (m.availableThreads all / max 1 parallelism.toNat)
  gpu := gpu
  preview := preview

/-- The tools of the machine. -/
def toolbox {τ : Type} (m : Machine) : Toolbox τ :=
  Programs.toolbox m.tools Programs.usualProbeLimit

/-- The name of the script that tries the graphics processor out. -/
def gpuProbeName : String := "GpuProbe.avs"

/-- May filters use the graphics processor? Unless that is set, a script in the folder `scratch` tries
it out. -/
def detectGpu {τ : Type} (m : Machine) (scratch : Path) : StateM (Desk τ) Bool := do
  match m.gpu with
  | some gpu => pure gpu
  | none =>
    let script := scratch.join ⟨gpuProbeName⟩
    match (Script.gpuProbe m.pluginDirectory).store script (← get).files with
    | .error _ => pure false
    | .ok files =>
      modify fun d => { d with files := files }
      m.toolbox.isCapable script.forEngine (m.gpuProbeLimit * 1000)

/-- The circumstances under which jobs are encoded. -/
def encodingOptions (m : Machine) (all : Nat) (gpu : Bool) : EncodingOptions where
  engine := { pluginDirectory := m.pluginDirectory, gpu := gpu }
  availableThreads := m.availableThreads all
  run := m.runOptions
  keepIntermediates := m.keepIntermediates

end Machine

end Restoration
