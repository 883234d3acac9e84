import Restoration.Job.Basic
import Restoration.Text.Blank
import Restoration.Text.Numeral

/-!
# Names of a job's files

Every file of a job lies in the job's directory under a name that starts with the job's index.
Fragments of encoded video carry their first frame in the name, so that a directory listing tells
where they belong.

    classify (fileName (fragment n)) = start n
-/

namespace Restoration

/-- The files that belong to a job. -/
inductive JobFile where
  | script
  | chunkScript (start : Nat)
  | motionScript
  | motionLog
  | frameCountScript
  | frameCount
  | fragment (start : Nat)
  | concatList
  | delivery
  | record
  deriving DecidableEq, Repr

/-- How a file name relates to the fragments of a job. -/
inductive FragmentName where
  /-- The fragment that starts at this frame. -/
  | start (frame : Nat)
  /-- A fragment's name without a frame number. -/
  | malformed
  /-- No fragment of the job. -/
  | foreign
  deriving DecidableEq, Repr

namespace Job

/-- What the names of all files of the job start with. -/
def stem (j : Job) : String := "Job" ++ Numeral.text j.index ++ "_"

/-- What the names of the job's fragments start with. -/
def fragmentStem (j : Job) : String := j.stem ++ "Output_"

/-- What the names of the job's fragments and of its delivery end in. -/
def extension (j : Job) : String := "." ++ j.delivery.container.extension

/-- The name of a file of the job. -/
def fileName (j : Job) : JobFile → String
  | .script => j.stem ++ "Script.avs"
  | .chunkScript n => j.stem ++ "Script_" ++ Numeral.text n ++ ".avs"
  | .motionScript => j.stem ++ "Deshaker.avs"
  | .motionLog => j.stem ++ "Deshaker.log"
  | .frameCountScript => j.stem ++ "FrameCount.avs"
  | .frameCount => j.stem ++ "FrameCount.txt"
  | .fragment n => j.fragmentStem ++ Numeral.text n ++ j.extension
  | .concatList => j.stem ++ "Concat.txt"
  | .delivery => j.stem ++ "Final" ++ j.extension
  | .record => j.stem ++ "Settings.json"

/-- The path of a file of the job. -/
def path (j : Job) (f : JobFile) : Path := j.directory.join ⟨j.fileName f⟩

/-- How a file name relates to the fragments of the job. -/
def classify (j : Job) (name : String) : FragmentName :=
  match Text.dropLead? j.fragmentStem.toList name.toList with
  | none => .foreign
  | some rest =>
    match Text.dropTail? j.extension.toList rest with
    | none => .foreign
    | some offset =>
      match Numeral.value? offset with
      | some n => if n < Numeral.word then .start n else .malformed
      | none => .malformed

/-- Is this the name of a script for one chunk of the job? -/
def isChunkScript (j : Job) (name : String) : Bool :=
  (j.stem ++ "Script_").toList.isPrefixOf name.toList &&
    ".avs".toList.isSuffixOf name.toList

/-- Is this the name of some job's record? -/
def isRecordName (name : String) : Bool :=
  "Job".toList.isPrefixOf name.toList && "_Settings.json".toList.isSuffixOf name.toList

end Job

end Restoration
