import Restoration.FileTree.Basic
import Restoration.Shell.Syntax
import Restoration.Tools.Fault

/-!
# State of a running program

A running program works on files, on its variables and on three streams. Time is counted in
milliseconds and passes only where the program waits; a program that still runs at its deadline is
stopped there.

    a run ends at its deadline at the latest
-/

namespace Restoration.Shell

/-- Where a stream goes. -/
inductive Sink where
  | pipe (number : Nat)
  | file (place : Place)
  | nowhere
  deriving DecidableEq, Repr

/-- A running program. -/
structure State where
  files : FileTree
  /-- The name it was started by. -/
  name : String := "sh"
  arguments : List String := []
  bindings : List (String × String) := []
  /-- The commands that were given a name. -/
  functions : List (String × Command) := []
  /-- What the variables were before that belong to the running function alone. -/
  hidden : List (String × Option String) := []
  /-- What is run when the program exits. -/
  farewell : String := ""
  /-- The status of the last command. -/
  status : Nat := 0
  /-- What is left of standard input. -/
  input : String := ""
  /-- When the end of standard input is reached. -/
  inputEnd : Nat := 0
  output : Sink := .pipe 0
  errors : Sink := .pipe 1
  /-- What was written to each pipe. -/
  pipes : List String := ["", ""]
  clock : Nat := 0
  deadline : Option Nat := none
  /-- The line of the last command. -/
  line : Nat := 0
  /-- Does the program end with the first command that fails? -/
  strict : Bool := false
  /-- Does the program end with the first missing variable? -/
  careful : Bool := false
  /-- Is the status of the next command looked at, so that it may fail? -/
  tested : Bool := false

/-- Why a program or a part of it stops early. -/
inductive Stop where
  | exit (status : Nat)
  | signal (number : Nat)
  /-- The running function ends. -/
  | returned (status : Nat)
  /-- The deadline is reached. -/
  | deadline
  /-- The loop is left, or begun again, that encloses this many inner ones. -/
  | leaveLoop (inner : Nat) (again : Bool)
  /-- More was run than this simulation follows. -/
  | tooLong
  deriving DecidableEq, Repr

/-- What a program does. -/
abbrev Run := ExceptT Stop (StateM State)

namespace Run

/-! ## Streams -/

/-- A list with one element changed. -/
def modifyAt {α : Type} (f : α → α) : Nat → List α → List α
  | _, [] => []
  | 0, a :: r => f a :: r
  | n + 1, a :: r => a :: modifyAt f n r

/-- A file with more text at its end. -/
def appendTo (t : FileTree) (place : Place) (s : String) : FileTree :=
  match t.node? place with
  | some (.file old x) => t.put place (.file (old ++ s) x)
  | _ => t

/-- Writes to a sink. -/
def emitTo (sink : Sink) (s : String) : Run Unit :=
  modify fun st => match sink with
    | .pipe n => { st with pipes := modifyAt (· ++ s) n st.pipes }
    | .file place => { st with files := appendTo st.files place s }
    | .nowhere => st

/-- Writes to standard output. -/
def emit (s : String) : Run Unit := do emitTo (← get).output s

/-- Writes a line to the stream of errors. -/
def complain (s : String) : Run Unit := do emitTo (← get).errors (s ++ "\n")

/-- Writes a complaint of the shell itself. -/
def complainHere (s : String) : Run Unit := do
  let st ← get
  complain (st.name ++ ": " ++ Numeral.text st.line ++ ": " ++ s)

/-- What was written to a pipe. -/
def pipeText (n : Nat) : Run String := do return ((← get).pipes.drop n).headD ""

/-! ## Time -/

/-- Waits until a point of time. -/
def waitUntil (time : Nat) : Run Unit := do
  let st ← get
  match st.deadline with
  | some d =>
    if d ≤ max time st.clock then
      set { st with clock := d }
      throw .deadline
    else set { st with clock := max time st.clock }
  | none => set { st with clock := max time st.clock }

/-- Waits some milliseconds. -/
def wait (ms : Nat) : Run Unit := do waitUntil ((← get).clock + ms)

/-- Standard input to its end. -/
def inputText : Run String := do
  let st ← get
  set { st with input := "" }
  waitUntil st.inputEnd
  pure st.input

/-! ## Variables and status -/

/-- The value of a variable. -/
def lookup? (name : String) : Run (Option String) := do return (← get).bindings.lookup name

/-- Sets a variable. -/
def assign (name value : String) : Run Unit :=
  modify fun st => { st with bindings := (name, value) :: st.bindings.filter (·.1 ≠ name) }

/-- Gives a variable back the value it had, if it had one. -/
def restore (name : String) (value : Option String) : Run Unit :=
  modify fun st => { st with
    bindings := (value.toList.map fun v => (name, v)) ++ st.bindings.filter (·.1 ≠ name) }

/-- Sets the status. -/
def setStatus (status : Nat) : Run Unit := modify fun st => { st with status := status }

/-- The status of a program that a signal ended, as a shell sees it. -/
def signalStatus (number : Nat) : Nat := 128 + number

/-! ## Parts with a state of their own -/

/-- Runs a part whose variables and streams are its own. If it exits, only the part ends. -/
def isolated (r : Run Unit) : Run Unit := do
  let st ← get
  let restore (now : State) : State :=
    { st with files := { now.files with current := st.files.current }, pipes := now.pipes,
              clock := now.clock, status := now.status, input := now.input,
              inputEnd := now.inputEnd }
  match r.run st with
  | (.ok (), now) => set (restore now)
  | (.error (.exit status), now) | (.error (.returned status), now) =>
    set { restore now with status := status }
  | (.error (.leaveLoop ..), now) => set (restore now)
  | (.error stop, now) =>
    set (restore now)
    throw stop

/-- Runs a part and gives what it writes. -/
def captured (r : Run Unit) : Run String := do
  let n := (← get).pipes.length
  modify fun st => { st with pipes := st.pipes ++ [""] }
  isolated do
    modify fun st => { st with output := .pipe n }
    r
  pipeText n

/-- Runs a part and then undoes its changes of the streams. Standard input stays where the part left
it, unless it was another one (`inputToo`). -/
def withStreams (inputToo : Bool) (r : Run Unit) : Run Unit := do
  let st ← get
  let restore (now : State) : State :=
    let now := { now with output := st.output, errors := st.errors }
    if inputToo then { now with input := st.input, inputEnd := st.inputEnd } else now
  match r.run st with
  | (.ok (), now) => set (restore now)
  | (.error stop, now) =>
    set (restore now)
    throw stop

/-- Makes a text standard input; its end is reached now. -/
def setInput (text : String) : Run Unit :=
  modify fun st => { st with input := text, inputEnd := st.clock }

/-- Runs a part whose failure is looked at. -/
def asTest (r : Run Unit) : Run Unit := do
  let before := (← get).tested
  modify fun st => { st with tested := true }
  r
  modify fun st => { st with tested := before }

end Run

end Restoration.Shell
