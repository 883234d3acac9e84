import Restoration.Frames.Layout
import Restoration.Job.Filing
import Restoration.Removal
import Restoration.Script.Probe
import Restoration.Script.Restriction
import Restoration.Tools.Toolbox

/-!
# Surveys

A survey finds out which frames of a job are encoded. It counts the frames of the script and of
every fragment in the job's directory, lays the fragments over the source, and deletes those that
are of no use. If the number of frames is unknown or the work was asked to stop, nothing is known
and nothing is deleted.
-/

namespace Restoration

namespace Survey

/-- The fragments found in a directory before they are measured. -/
structure Listing where
  /-- Files with the first frame in their names. -/
  candidates : List (Path × Nat) := []
  /-- Files that cannot be fragments of any use. -/
  corrupt : List Path := []
  deriving DecidableEq, Repr

/-- Sorts the files of a job's directory by their names and sizes. -/
def sortOut (t : FileTree) (job : Job) (names : List String) : Listing where
  candidates := names.filterMap fun n =>
    match job.classify n with
    | .start frame =>
      let p := job.directory.join ⟨n⟩
      if t.isEmptyFile p then none else some (p, frame)
    | _ => none
  corrupt := names.filterMap fun n =>
    let p := job.directory.join ⟨n⟩
    match job.classify n with
    | .start _ => if t.isEmptyFile p then some p else none
    | .malformed => some p
    | .foreign => none

/-- The fragments of a job in its directory. -/
def listFragments (t : FileTree) (job : Job) : Except JobFault Listing :=
  match t.list job.directory with
  | .ok names => .ok (sortOut t job names)
  | .error cause => .error (.listing job.directory cause)

/-- Pairs candidates with their measured frame counts. A file that cannot be measured counts no
frame, unless the tool itself is missing. -/
def measured : List (Path × Nat) → List (Except ToolFault Nat) → Except JobFault (List Fragment)
  | (p, start) :: rest, frames :: counts => do
    let frames ← match frames with
      | .ok n => pure n
      | .error fault => if fault.isMissing then .error (.fragmentProbe fault) else pure 0
    let fragments ← measured rest counts
    pure (⟨p, start, frames⟩ :: fragments)
  | _, _ => .ok []

/-- Lays the measured fragments over the source, if all numbers on the way fit in words. -/
def layOut (fragments : List Fragment) (total : Nat) : Except JobFault Layout :=
  match Layout.ofFragments? fragments total with
  | some layout => .ok layout
  | none => .error .outgrown

variable {τ : Type}

/-- Lifts restrictions from the job's script and writes the probe that counts its frames. -/
def prepareProbe (job : Job) : Work τ JobFault Unit := do
  let file := job.path .script
  let script ← Work.look (fun t => t.readText file) fun cause =>
    .noScript job.index (.file file cause)
  let script := Script.parse script
  if 0 < script.restrictions then
    Work.change (fun t => t.write file script.unrestrict.text) fun cause =>
      .script (.file file cause)
  let probe := job.path .frameCountScript
  Work.change
    (fun t => t.write probe (Script.frameCountProbe file (job.path .frameCount)).text)
    fun cause => .script (.file probe cause)

/-- Removes files; the first that cannot be removed is a fault. -/
def delete (fault : Path → FileFault → JobFault) : List Path → Work τ JobFault Unit
  | [] => pure ()
  | p :: rest => do
    let (r, files) := (← get).files.removeHeld p
    modify fun d => { d with files := files }
    match r with
    | .ok () => delete fault rest
    | .error cause => throw (fault p cause)

/-- Lists the fragments of a job. -/
def list (job : Job) : Work τ JobFault Listing := do
  match listFragments (← get).files job with
  | .ok listing => pure listing
  | .error fault => throw fault

/-- The number of frames of the script; zero if it is unknown, unless the tool itself is missing. -/
def totalFrames (r : Except ToolFault Nat) : Except JobFault Nat :=
  match r with
  | .ok n => .ok n
  | .error fault => if fault.isMissing then .error (.totalProbe fault) else .ok 0

/-- Raises a fault that was already found. -/
def require {α : Type} (r : Except JobFault α) : Work τ JobFault α :=
  match r with
  | .ok a => pure a
  | .error fault => throw fault

end Survey

open Survey

/-- Finds out which frames of a job are encoded, and deletes fragments of no use. -/
def Job.survey {τ : Type} (tools : Toolbox τ) (job : Job) : Work τ JobFault Progress := do
  prepareProbe job
  let total ← (tools.scriptFrames (job.path .frameCountScript) (job.path .frameCount)).outcome
  let listing ← list job
  let counts ← listing.candidates.mapM fun (p, _) => (tools.mediaFrames p).outcome
  let total ← require (totalFrames total)
  if total = 0 then return {}
  if ← Work.isCancelled then return {}
  delete .corruptFragment listing.corrupt
  let fragments ← require (measured listing.candidates counts)
  let layout ← require (layOut fragments total)
  delete .invalidFragment (layout.rejected.map (·.path))
  return Progress.ofLayout total layout

end Restoration
