import Restoration.Job.Fault
import Restoration.Machine

/-!
# Faults of commands

Why a command fails. A fault is told together with what caused it.
-/

namespace Restoration.CommandLine

/-- Why a command fails. -/
inductive CommandFault where
  | machine (fault : MachineFault)
  | record (fault : RecordFault)
  | emptyPath
  /-- There is a job with the largest index. -/
  | noIndexLeft
  | jobExists (record : Path)
  | recordNotWritten (fault : RecordFault)
  | folder (path : Path) (cause : FileFault)
  | scratch (cause : FileFault)
  | script (fault : ScriptFault)
  | job (fault : JobFault)
  | tool (fault : ToolFault)
  | unfinished (failed total : Nat)
  | listing (path : Path) (cause : FileFault)
  | removal (path : Path) (cause : FileFault)
  deriving DecidableEq, Repr

namespace CommandFault

/-- The fault and what caused it. -/
def chain : CommandFault → List String
  | machine fault => fault.chain
  | record fault => fault.chain
  | emptyPath => ["cannot make an empty path absolute"]
  | noIndexLeft => ["Job indices exceed 64 bits"]
  | jobExists path => ["Job settings already exist at " ++ path.text]
  | recordNotWritten fault => "Failed to write the job settings" :: fault.chain
  | folder path cause => ["Failed to create job directory " ++ path.text, cause.message]
  | scratch cause => [cause.message]
  | script fault => fault.chain
  | job fault => fault.chain
  | tool fault => fault.chain
  | unfinished failed total =>
    [Numeral.text failed ++ " of " ++ Numeral.text total ++ " jobs did not finish"]
  | listing path cause => ["Failed to list " ++ path.text, cause.message]
  | removal path cause => ["Failed to remove " ++ path.text, cause.message]

/-- The fault and what caused it, in one line. -/
def message (f : CommandFault) : String := chainText f.chain

/-- One cause of several, after its number. -/
def numbered (cause : String × Nat) : String :=
  "\n    " ++ Numeral.text cause.2 ++ ": " ++ cause.1

/-- The fault, and below it what caused it, the causes numbered if there are several. -/
def report (f : CommandFault) : String :=
  match f.chain with
  | [] => ""
  | [fault] => fault
  | [fault, cause] => fault ++ "\n\nCaused by:\n    " ++ cause
  | fault :: causes => fault ++ "\n\nCaused by:" ++ String.join (causes.zipIdx.map numbered)

end CommandFault

end Restoration.CommandLine
