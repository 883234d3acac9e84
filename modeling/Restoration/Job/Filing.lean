import Restoration.FileTree.Basic
import Restoration.Job.Fault
import Restoration.Job.FileName
import Restoration.Job.Record
import Restoration.Script.Basic

/-!
# Filing of jobs

Records of jobs and scripts as files, and finding the jobs that were left in a folder.
-/

namespace Restoration

namespace Script

/-- Reads a script from a file. -/
def load (t : FileTree) (p : Path) : Except ScriptFault Script :=
  match t.readText p with
  | .ok s => .ok (parse s)
  | .error cause => .error (.file p cause)

/-- Writes a script to a file. -/
def store (s : Script) (p : Path) (t : FileTree) : Except ScriptFault FileTree :=
  (t.write p s.text).mapError (.file p)

end Script

namespace Job

/-- Writes the record of a job, and makes the folders on the way to it. -/
def storeAt (j : Job) (p : Path) (t : FileTree) : Except RecordFault FileTree :=
  (t.writeMaking p j.recordText).mapError (.save p)

/-- Writes the record of a job into its directory. -/
def store (j : Job) (t : FileTree) : Except RecordFault FileTree := j.storeAt (j.path .record) t

/-- Reads a job from its record. -/
def load (t : FileTree) (p : Path) : Except RecordFault Job :=
  match t.readText p with
  | .error cause => .error (.read p cause)
  | .ok s => (ofText s).mapError (.parse p)

/-- The jobs by index; those with one index keep their order. -/
def byIndex (jobs : List Job) : List Job := jobs.mergeSort fun a b => a.index ≤ b.index

/-- The jobs whose records lie in a folder. Records that cannot be read are passed over. -/
def recover (t : FileTree) (folder : Path) : Except RecordFault (List Job) :=
  match t.list folder with
  | .error cause => .error (.read folder cause)
  | .ok names =>
    .ok (byIndex ((names.filter isRecordName).filterMap fun n =>
      (load t (folder.join ⟨n⟩)).toOption))

end Job

end Restoration
