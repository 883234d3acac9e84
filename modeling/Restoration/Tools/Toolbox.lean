import Restoration.FileTree.Basic
import Restoration.Job.Basic
import Restoration.Tools.Fault

/-!
# Toolboxes

Jobs are worked on at a desk: the files, the flag that asks to stop, and whatever the tools keep
for themselves. A toolbox says what each tool does to the desk; nothing else is assumed of tools.
The flag can be raised at any time, by a tool or from outside, and counts from the next look at it.
-/

namespace Restoration

/-- What jobs are worked on with. -/
structure Desk (τ : Type) where
  files : FileTree
  /-- Was the flag found raised, or raised by a tool? -/
  cancelled : Bool := false
  /-- Is the flag raised from outside ahead of the look with this number? -/
  alarm : Nat → Bool := fun _ => false
  /-- How many times the flag was looked at. -/
  looks : Nat := 0
  /-- The numbers of the processes started, in the order of their starts. -/
  started : List Nat := []
  /-- What the tools keep for themselves. -/
  tools : τ

/-- Would a look find the flag raised? -/
def Desk.isRaised {τ : Type} (d : Desk τ) : Bool := d.cancelled || d.alarm d.looks

/-- Work at a desk, which may fail but leaves the desk as it is then. -/
abbrev Work (τ ε : Type) := ExceptT ε (StateM (Desk τ))

/-- Whether a tool gives way to other programs. -/
inductive Priority where
  | normal
  | low
  deriving DecidableEq, Repr

/-- How a tool is run. -/
structure RunOptions where
  /-- The longest time a run may take, in milliseconds. -/
  limit : Option Nat := none
  priority : Priority := .normal
  /-- May the tool show its own messages? -/
  display : Bool := false
  deriving DecidableEq, Repr

/-- The outside tools. -/
structure Toolbox (τ : Type) where
  /-- Runs a script to its end without keeping its frames. -/
  runScript : (script : Path) → RunOptions → Work τ ToolFault Unit
  /-- Encodes the frames of a script into `output`. -/
  encode : (script output : Path) → Job → RunOptions → Work τ ToolFault Unit
  /-- Counts the frames of a script by a probe that writes a side file. -/
  scriptFrames : (probe side : Path) → Work τ ToolFault Nat
  /-- Counts the frames of an encoded file. -/
  mediaFrames : (media : Path) → Work τ ToolFault Nat
  /-- Joins the listed fragments with the sound of the source. -/
  join : (concatList output : Path) → Job → Work τ ToolFault Unit

namespace Work

variable {τ ε : Type}

/-- Looks at the files. -/
def look {α : Type} (f : FileTree → Except FileFault α) (fault : FileFault → ε) : Work τ ε α := do
  match f (← get).files with
  | .ok a => pure a
  | .error cause => throw (fault cause)

/-- Changes the files. -/
def change (f : FileTree → Except FileFault FileTree) (fault : FileFault → ε) : Work τ ε Unit := do
  match f (← get).files with
  | .ok files => modify fun d => { d with files := files }
  | .error cause => throw (fault cause)

/-- Looks whether the work was asked to stop. -/
def isCancelled : Work τ ε Bool := do
  modify fun d => { d with cancelled := d.isRaised, looks := d.looks + 1 }
  return (← get).cancelled

/-- Asks the work to stop. -/
def cancel : Work τ ε Unit := modify fun d => { d with cancelled := true }

/-- Notes the start of a process. -/
def noteStart (process : Nat) : Work τ ε Unit :=
  modify fun d => { d with started := d.started ++ [process] }

/-- The outcome of work, failed or not. -/
def outcome {α ε' : Type} (w : Work τ ε α) : Work τ ε' (Except ε α) :=
  fun d => match w d with
    | (r, d) => (.ok r, d)

/-- Work whose faults are told in other words. -/
def named {α ε' : Type} (fault : ε → ε') (w : Work τ ε α) : Work τ ε' α :=
  fun d => match w d with
    | (.ok a, d) => (.ok a, d)
    | (.error e, d) => (.error (fault e), d)

end Work

end Restoration
