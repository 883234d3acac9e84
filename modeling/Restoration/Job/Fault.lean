import Restoration.Json.Fault
import Restoration.Script.Fault
import Restoration.Tools.Fault

/-!
# Faults of jobs

Why a job cannot be filed, surveyed or encoded. A fault is told together with what caused it, from
the outermost fault to the innermost.
-/

namespace Restoration

/-- A fault and its causes in one line. -/
def chainText (chain : List String) : String := ": ".intercalate chain

/-- The fault of a script and what caused it. -/
def ScriptFault.chain : ScriptFault → List String
  | file path cause => [message (file path cause), cause.message]
  | fault => [fault.message]

/-- Why the record of a job cannot be written or read. -/
inductive RecordFault where
  | save (path : Path) (cause : FileFault)
  | read (path : Path) (cause : FileFault)
  | parse (path : Path) (cause : Json.Fault)
  deriving DecidableEq, Repr

namespace RecordFault

/-- The fault in words. -/
def message : RecordFault → String
  | save path cause => "Failed to save job settings to " ++ path.text ++ ": " ++ cause.message
  | read path cause => "Failed to read job settings from " ++ path.text ++ ": " ++ cause.message
  | parse path cause => "Failed to parse job settings " ++ path.text ++ ": " ++ cause.message

/-- The fault and what caused it. -/
def chain : RecordFault → List String
  | save path cause => [message (save path cause), cause.message]
  | read path cause => [message (read path cause), cause.message]
  | parse path cause => [message (parse path cause), cause.message]

end RecordFault

/-- Why work on a job fails. -/
inductive JobFault where
  | script (fault : ScriptFault)
  | noScript (index : Nat) (fault : ScriptFault)
  | record (fault : RecordFault)
  | folder (path : Path) (cause : FileFault)
  | listing (path : Path) (cause : FileFault)
  | totalProbe (fault : ToolFault)
  | fragmentProbe (fault : ToolFault)
  /-- The end of a fragment does not fit in 64 bits. The work breaks off where it is. -/
  | outgrown
  | corruptFragment (path : Path) (cause : FileFault)
  | invalidFragment (path : Path) (cause : FileFault)
  | motionPass (fault : ToolFault)
  | noFrames (index : Nat)
  | concatList (path : Path) (cause : FileFault)
  | joining (index : Nat) (fault : ToolFault)
  deriving DecidableEq, Repr

namespace JobFault

/-- The fault and what caused it. -/
def chain : JobFault → List String
  | script fault => fault.chain
  | noScript index fault =>
    ("Job " ++ Numeral.text index ++ " has no compiled script") :: fault.chain
  | record fault => fault.chain
  | folder path cause => ["Failed to create job directory " ++ path.text, cause.message]
  | listing path cause => ["Failed to list job directory " ++ path.text, cause.message]
  | totalProbe fault => "Failed to probe the script frame count" :: fault.chain
  | fragmentProbe fault => "Failed to probe fragment frame count" :: fault.chain
  | outgrown => ["attempt to add with overflow"]
  | corruptFragment path cause => ["Failed to delete corrupt fragment " ++ path.text, cause.message]
  | invalidFragment path cause => ["Failed to delete invalid fragment " ++ path.text, cause.message]
  | motionPass fault => "Stabilization analysis pass failed" :: fault.chain
  | noFrames index => ["Source of job " ++ Numeral.text index ++ " has no frames"]
  | concatList path cause => ["Failed to write concat list " ++ path.text, cause.message]
  | joining index fault => ("Failed to mux job " ++ Numeral.text index) :: fault.chain

/-- The fault and what caused it, in one line. -/
def message (f : JobFault) : String := chainText f.chain

end JobFault

end Restoration
