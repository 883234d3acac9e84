import Restoration.FileTree.Fault
import Restoration.Samples
import Restoration.Path

/-!
# Faults of scripts

Why a script cannot be made, written or read.
-/

namespace Restoration

/-- Why there is no script. -/
inductive ScriptFault where
  | format (fault : FormatFault)
  /-- A frame size does not fit in 32 bits. -/
  | sizeOverflow
  | file (path : Path) (cause : FileFault)
  deriving DecidableEq, Repr

/-- The fault in words. -/
def ScriptFault.message : ScriptFault → String
  | format fault => fault.message
  | sizeOverflow => "Frame size exceeds 32 bits"
  | file path cause => "Failed to access script " ++ path.text ++ ": " ++ cause.message

end Restoration
