import Restoration.Text.Numeral

/-!
# Faults of tools

Why a run of an outside tool fails.
-/

namespace Restoration

/-- How a process ended without success. -/
inductive ExitStatus where
  | code (n : Nat)
  | signal (n : Nat)
  deriving DecidableEq, Repr

namespace ExitStatus

/-- The name of a signal, if it has one. -/
def signalName? : Nat → Option String
  | 1 => some "SIGHUP"
  | 2 => some "SIGINT"
  | 3 => some "SIGQUIT"
  | 4 => some "SIGILL"
  | 5 => some "SIGTRAP"
  | 6 => some "SIGABRT"
  | 7 => some "SIGBUS"
  | 8 => some "SIGFPE"
  | 9 => some "SIGKILL"
  | 10 => some "SIGUSR1"
  | 11 => some "SIGSEGV"
  | 12 => some "SIGUSR2"
  | 13 => some "SIGPIPE"
  | 14 => some "SIGALRM"
  | 15 => some "SIGTERM"
  | 16 => some "SIGSTKFLT"
  | 24 => some "SIGXCPU"
  | 25 => some "SIGXFSZ"
  | 26 => some "SIGVTALRM"
  | 27 => some "SIGPROF"
  | 29 => some "SIGIO"
  | 30 => some "SIGPWR"
  | 31 => some "SIGSYS"
  | _ => none

/-- The status in words. -/
def label : ExitStatus → String
  | code n => "exit status: " ++ Numeral.text n
  | signal n => "signal: " ++ Numeral.text n ++
    match signalName? n with
    | some name => " (" ++ name ++ ")"
    | none => ""

end ExitStatus

/-- A duration in milliseconds in words, in seconds from one second on. -/
def durationText (ms : Nat) : String :=
  if ms = 0 then "0ns"
  else if ms < 1000 then Numeral.text ms ++ "ms"
  else
    let rest := ms % 1000
    let places := [rest / 100, rest / 10 % 10, rest % 10].map Numeral.digit
    let kept := (places.reverse.dropWhile (· = '0')).reverse
    Numeral.text (ms / 1000) ++ (if kept.isEmpty then "" else "." ++ String.ofList kept) ++ "s"

/-- Why a tool did not do its work. -/
inductive ToolFault where
  | notFound (tool : String)
  | launch (tool cause : String)
  | failed (tool : String) (status : ExitStatus) (errorText : String)
  /-- The limit is in milliseconds. -/
  | timeout (tool : String) (limit : Nat)
  | cancelled (tool : String)
  | output (tool cause : String)
  deriving DecidableEq, Repr

namespace ToolFault

/-- The fault in words. -/
def message : ToolFault → String
  | notFound tool => tool ++ " not found. Is it installed in the system path?"
  | launch tool cause => "Failed to launch " ++ tool ++ ": " ++ cause
  | failed tool status errorText => tool ++ " exited with " ++ status.label ++ ": " ++ errorText
  | timeout tool limit => tool ++ " did not finish within " ++ durationText limit
  | cancelled tool => tool ++ " was stopped because the job was cancelled"
  | output tool cause => "Failed to read output of " ++ tool ++ ": " ++ cause

/-- The fault and what caused it, each in words. -/
def chain : ToolFault → List String
  | launch tool cause => [message (launch tool cause), cause]
  | output tool cause => [message (output tool cause), cause]
  | fault => [fault.message]

/-- Is the tool itself missing or unusable, so that no other run can succeed either? -/
def isMissing : ToolFault → Bool
  | notFound _ | launch .. => true
  | _ => false

/-- Was the run stopped on purpose? -/
def isCancelled : ToolFault → Bool
  | cancelled _ => true
  | _ => false

end ToolFault

end Restoration
