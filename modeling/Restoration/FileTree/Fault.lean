/-!
# Faults of files

Why an operation on a file fails, with the words and number of the operating system.
-/

namespace Restoration

/-- Why a file operation fails. -/
inductive FileFault where
  | notFound
  | alreadyThere
  | notADirectory
  | isADirectory
  | nameTooLong
  | notExecutable
  deriving DecidableEq, Repr

namespace FileFault

/-- The number of the fault. -/
def code : FileFault → String
  | notFound => "2"
  | notExecutable => "8"
  | alreadyThere => "17"
  | notADirectory => "20"
  | isADirectory => "21"
  | nameTooLong => "36"

/-- The fault in words. -/
def reason : FileFault → String
  | notFound => "No such file or directory"
  | notExecutable => "Exec format error"
  | alreadyThere => "File exists"
  | notADirectory => "Not a directory"
  | isADirectory => "Is a directory"
  | nameTooLong => "File name too long"

/-- The fault in words, with its number. -/
def message (f : FileFault) : String := f.reason ++ " (os error " ++ f.code ++ ")"

end FileFault

end Restoration
