import Restoration.Shell.Arithmetic
import Restoration.Shell.Reading
import Restoration.Shell.Utilities

/-!
# Running of shell programs

Words are expanded to fields, redirections move the streams, and commands change the state. A
program that does not come to an end within the given number of steps is given up.

    more steps never change the outcome of a run that came to an end
-/

namespace Restoration.Shell

/-! ## Expansion -/

/-- One character of an expanded word, or a mark between its fields. -/
inductive Mark where
  | char (c : Char) (quoted : Bool)
  /-- A character at which an unquoted word may be split. -/
  | loose (c : Char)
  /-- A field is there even if it stays empty. -/
  | present
  /-- No field is there if it stays empty. -/
  | absent
  | gap

namespace Mark

/-- The characters of a text, as they count in quotes or outside of them. -/
def ofText (quoted : Bool) (s : String) : List Mark :=
  if quoted then .present :: s.toList.map fun c => .char c true else s.toList.map .loose

/-- The text of an expanded word that is not split. -/
def joined : List Mark → Wildcard.Marked
  | [] => []
  | .char c quoted :: r => (c, quoted) :: joined r
  | .loose c :: r => (c, false) :: joined r
  | .gap :: r => (' ', true) :: joined r
  | .present :: r | .absent :: r => joined r

/-- The text of an expanded word that is not split. -/
def text (ms : List Mark) : String := String.ofList ((joined ms).map (·.1))

/-- The fields of an expanded word behind the field `current`, which is there if `started`. -/
def fieldsFrom (started : Bool) (current : List Char) : List Mark → List String
  | [] => if started then [String.ofList current.reverse] else []
  | .char c _ :: r => fieldsFrom true (c :: current) r
  | .loose c :: r =>
    if Utility.isFieldGap c then
      if started then String.ofList current.reverse :: fieldsFrom false [] r
      else fieldsFrom false [] r
    else fieldsFrom true (c :: current) r
  | .present :: r => fieldsFrom true current r
  | .absent :: r => fieldsFrom (started && !current.isEmpty) current r
  | .gap :: r => if started then String.ofList current.reverse :: fieldsFrom false [] r
    else fieldsFrom false [] r

/-- The fields of an expanded word. -/
def fields (ms : List Mark) : List String := fieldsFrom false [] ms

end Mark

namespace Run

/-- The value of a parameter other than the list of all arguments. -/
def parameter? (name : String) : Run (Option String) := do
  let st ← get
  match name with
  | "#" => return some (Numeral.text st.arguments.length)
  | "?" => return some (Numeral.text st.status)
  | "$" => return some Utility.ownProcess
  | "!" | "-" => return some ""
  | "0" => return some st.name
  | "*" | "@" => return if st.arguments.isEmpty then none else some (" ".intercalate st.arguments)
  | _ =>
    match Numeral.value? name.toList with
    | some n => return st.arguments[n - 1]?
    | none => lookup? name

/-- All arguments as parts of a word. -/
def argumentMarks (separate quoted : Bool) : Run (List Mark) := do
  let args := (← get).arguments
  if args.isEmpty then return if separate then [.absent] else []
  if quoted && !separate then return Mark.ofText true (" ".intercalate args)
  return [Mark.gap].intercalate (args.map (Mark.ofText quoted))

/-- The text without the line feeds at its end. -/
def dropLastBreaks (s : String) : String :=
  String.ofList (s.toList.reverse.dropWhile (· = '\n')).reverse

/-- What the text of a parameter becomes when an end or start of it that matches is dropped. -/
def trimmed (atEnd longest : Bool) (pattern : Wildcard.Marked) (s : String) : String :=
  let t := s.toList
  let p := Wildcard.ofMarked pattern
  if atEnd then
    let kept := Wildcard.matchingEnds p t
    String.ofList (t.take ((if longest then kept.head? else kept.getLast?).getD t.length))
  else
    let dropped := Wildcard.matchingStarts p t
    String.ofList (t.drop ((if longest then dropped.getLast? else dropped.head?).getD 0))

/-- Does the word run a command? -/
def runsCommand (w : Word) : Bool :=
  w.any fun
    | .output .. => true
    | _ => false

/-! ## Redirections -/

/-- What is said of a file that cannot be opened. -/
def openFault (missing : String) (fault : FileFault) : String :=
  match fault with
  | .notFound | .notADirectory => missing
  | _ => fault.reason

/-- Opens a file for writing. -/
def openSink (append : Bool) (path : String) : Run (Option Sink) := do
  let st ← get
  if path = Utility.nullFile then return some .nowhere
  if path = "/dev/stdout" then return some st.output
  if path = "/dev/stderr" then return some st.errors
  let opened : Except FileFault (FileTree × Place) := do
    let place ← st.files.resolve ⟨path⟩
    let there := match st.files.node? place with
      | some (.file ..) => true
      | _ => false
    let files ← if append && there then pure st.files else st.files.write ⟨path⟩ ""
    pure (files, place)
  match opened with
  | .ok (files, place) =>
    set { st with files := files }
    return some (.file place)
  | .error fault =>
    complainHere ("cannot create " ++ path ++ ": " ++ openFault "Directory nonexistent" fault)
    return none

/-- Makes a stream go to a sink. -/
def setSink (stream : Nat) (sink : Sink) : Run Unit :=
  modify fun st =>
    if stream = 1 then { st with output := sink }
    else if stream = 2 then { st with errors := sink }
    else st

/-- Where a stream goes. -/
def sinkOf (stream : String) : Run (Option Sink) := do
  let st ← get
  match stream with
  | "1" => return some st.output
  | "2" => return some st.errors
  | "-" => return some .nowhere
  | _ =>
    complainHere (stream ++ ": bad file descriptor")
    return none

/-- Does the redirection give another standard input? -/
def isInput : Redirection → Bool
  | .input _ | .here _ => true
  | _ => false

/-- The status of a command whose redirections fail. -/
def redirectionFailure : Nat := 2

/-! ## Loops -/

/-- Runs the body of a loop once. Says whether the loop goes on. -/
def round (body : Run Unit) : Run Bool :=
  tryCatch (do body; pure true) fun
    | .leaveLoop 0 again => pure again
    | .leaveLoop (n + 1) again => throw (.leaveLoop n again)
    | stop => throw stop

/-- Runs a body for every value, until the loop is left. -/
def forValues (body : String → Run Unit) : List String → Run Unit
  | [] => pure ()
  | v :: rest => do
    if ← round (body v) then forValues body rest

/-- Ends a strict program whose last command failed unnoticed. -/
def checkStatus : Run Unit := do
  let st ← get
  if st.strict && !st.tested && st.status ≠ 0 then throw (.exit st.status)

/-- Says why a command cannot be run, under the name of what should run it. -/
def refuse (runner name : String) : Run Nat := do
  if name.toList.contains '/' && (← get).files.pathExists ⟨name⟩ then
    complainHere (runner ++ name ++ ": Permission denied")
    pure 126
  else
    complainHere (runner ++ name ++ ": not found")
    pure 127

/-- Runs a command by its name and arguments. -/
def invoke (name : String) (args : List String) : Run Nat := do
  match Utility.builtIn? name with
  | some f => f args
  | none =>
    match Utility.programAt? name with
    | some f => f args
    | none => refuse "" name

/-- Runs a program in place of the shell. -/
def become (name : String) (args : List String) : Run Nat := do
  match Utility.programAt? name with
  | some f => f args
  | none => refuse "exec: " name

/-! ## Commands -/

mutual

/-- What a part of a word expands to. -/
def pieceMarks : Nat → Piece → Run (List Mark)
  | 0, _ => throw .tooLong
  | n + 1, p => do
    match p with
    | .text cs quoted =>
      return if quoted then Mark.ofText true (String.ofList cs) else cs.map fun c => .char c false
    | .output body quoted =>
      let s ← captured (runCommand n body)
      return Mark.ofText quoted (dropLastBreaks s)
    | .number e quoted =>
      let s := Mark.text (← marks n e)
      let vs := (← get).bindings
      match Arithmetic.value? (fun name => vs.lookup name) s.toList with
      | some k => return Mark.ofText quoted (Arithmetic.text k)
      | none =>
        complainHere ("arithmetic expression: expecting primary: \"" ++ s ++ "\"")
        throw (.exit 2)
    | .parameter name edit quoted =>
      let v ← parameter? name
      let missing (orEmpty : Bool) : Bool :=
        match v with
        | none => true
        | some s => orEmpty && s.isEmpty
      match edit with
      | .asIs =>
        if name = "@" || name = "*" then return (← argumentMarks (name = "@" || !quoted) quoted)
        if v.isNone && (← get).careful then
          complainHere (name ++ ": parameter not set")
          throw (.exit 2)
        return Mark.ofText quoted (v.getD "")
      | .length => return Mark.ofText quoted (Numeral.text (v.getD "").length)
      | .default orEmpty keep word =>
        if missing orEmpty then
          let ms ← marks n word
          if keep then assign name (Mark.text ms)
          return ms
        else return Mark.ofText quoted (v.getD "")
      | .instead orEmpty word => if missing orEmpty then pure [] else marks n word
      | .dropStart longest pattern =>
        let p := Mark.joined (← marks n pattern)
        return Mark.ofText quoted (trimmed false longest p (v.getD ""))
      | .dropEnd longest pattern =>
        let p := Mark.joined (← marks n pattern)
        return Mark.ofText quoted (trimmed true longest p (v.getD ""))

/-- What a word expands to. -/
def marks : Nat → Word → Run (List Mark)
  | 0, _ => throw .tooLong
  | n + 1, w => do
    match w with
    | [] => pure []
    | p :: rest =>
      let here ← pieceMarks n p
      return here ++ (← marks n rest)

/-- Opens the files of redirections. Says whether all could be opened. -/
def redirect : Nat → List Redirection → Run Bool
  | 0, _ => throw .tooLong
  | n + 1, rs => do
    match rs with
    | [] => pure true
    | .input w :: rest =>
      let path := Mark.text (← marks n w)
      match ← Utility.textOf path with
      | .ok s =>
        setInput s
        redirect n rest
      | .error fault =>
        complainHere ("cannot open " ++ path ++ ": " ++ openFault "No such file" fault)
        pure false
    | .here text :: rest =>
      setInput (Mark.text (← marks n text))
      redirect n rest
    | .output stream append w :: rest =>
      match ← openSink append (Mark.text (← marks n w)) with
      | some sink =>
        setSink stream sink
        redirect n rest
      | none => pure false
    | .duplicate stream w :: rest =>
      match ← sinkOf (Mark.text (← marks n w)) with
      | some sink =>
        setSink stream sink
        redirect n rest
      | none => pure false

/-- Runs a body with redirected streams. -/
def redirected : Nat → List Redirection → Run Unit → Run Unit
  | 0, _, _ => throw .tooLong
  | n + 1, rs, body => do
    if rs.isEmpty then body
    else withStreams (rs.any isInput) do
      if ← redirect n rs then body else setStatus redirectionFailure

/-- Runs the first case that has a pattern for a text. -/
def choose : Nat → String → List (List Word × Command) → Run Unit
  | 0, _, _ => throw .tooLong
  | n + 1, s, cases => do
    match cases with
    | [] => setStatus 0
    | (ps, body) :: rest =>
      let patterns ← ps.mapM fun p => marks n p
      let fits (p : List Mark) := Wildcard.matchesText (Wildcard.ofMarked (Mark.joined p)) s.toList
      if patterns.any fits then
        setStatus 0
        runCommand n body
      else choose n s rest

/-- Runs a command that was given a name, with arguments and variables of its own. -/
def call : Nat → Command → List String → Run Unit
  | 0, _, _ => throw .tooLong
  | n + 1, body, args => do
    let outer ← get
    set { outer with arguments := args, hidden := [] }
    tryCatch (runCommand n body) fun
      | .returned status => setStatus status
      | stop => throw stop
    (← get).hidden.forM fun (name, value) => restore name value
    modify fun st => { st with arguments := outer.arguments, hidden := outer.hidden }

/-- Runs a simple command whose words are expanded. -/
def runSimple : Nat → List (String × String) → List String → List Redirection → Run Unit
  | 0, _, _, _ => throw .tooLong
  | n + 1, assignments, fields, rs => do
    match fields with
    | [] =>
      redirected n rs (pure ())
      assignments.forM fun (name, value) => assign name value
    | "exec" :: command =>
      let opened ← redirect n rs
      match command with
      | [] => setStatus (if opened then 0 else redirectionFailure)
      | name :: args =>
        throw (.exit (← if opened then become name args else pure redirectionFailure))
    | name :: args =>
      redirected n rs do
        let before := (← get).bindings
        assignments.forM fun (name, value) => assign name value
        match (← get).functions.lookup name with
        | some body => call n body args
        | none => setStatus (← invoke name args)
        assignments.forM fun (name, _) => restore name (before.lookup name)

/-- Runs a command. -/
def runCommand : Nat → Command → Run Unit
  | 0, _ => throw .tooLong
  | n + 1, c => do
    match c with
    | .nothing => pure ()
    | .simple line assignments words rs =>
      modify fun st => { st with line := line }
      let fields := (← words.mapM fun w => return Mark.fields (← marks n w)).flatten
      let values ← assignments.mapM fun (name, w) => return (name, Mark.text (← marks n w))
      if fields.isEmpty && !assignments.any (fun (_, w) => runsCommand w) then setStatus 0
      runSimple n values fields rs
      checkStatus
    | .sequence first second =>
      runCommand n first
      runCommand n second
    | .both first second =>
      asTest (runCommand n first)
      if (← get).status = 0 then runCommand n second
    | .either first second =>
      asTest (runCommand n first)
      if (← get).status ≠ 0 then runCommand n second
    | .inverted body =>
      asTest (runCommand n body)
      setStatus (if (← get).status = 0 then 1 else 0)
    | .pipe first second =>
      let s ← captured (runCommand n first)
      withStreams true do
        setInput s
        isolated (runCommand n second)
      checkStatus
    | .branch test yes no =>
      asTest (runCommand n test)
      if (← get).status = 0 then runCommand n yes
      else
        setStatus 0
        runCommand n no
    | .loop untilTrue test body =>
      asTest (runCommand n test)
      if ((← get).status = 0) != untilTrue then
        if ← round (runCommand n body) then runCommand n (.loop untilTrue test body)
      else setStatus 0
    | .each name words body =>
      let values ← match words with
        | some ws => do
          let fields ← ws.mapM fun w => return Mark.fields (← marks n w)
          pure fields.flatten
        | none => pure (← get).arguments
      setStatus 0
      forValues (fun v => do
        assign name v
        runCommand n body) values
    | .choose word cases => choose n (Mark.text (← marks n word)) cases
    | .subshell body =>
      isolated (runCommand n body)
      checkStatus
    | .redirected line body rs =>
      modify fun st => { st with line := line }
      redirected n rs (runCommand n body)
    | .define name body =>
      modify fun st => { st with functions := (name, body) :: st.functions, status := 0 }

end

/-- Runs the commands of a program. A text that stops being a program stops its run there. -/
def runCommands (steps : Nat) (p : Program) : Run Unit := do
  p.commands.forM (runCommand steps)
  match p.fault with
  | some line =>
    modify fun st => { st with line := line }
    complainHere "Syntax error"
    throw (.exit 2)
  | none => pure ()

/-- Runs a program, and at its exit what it asked to be run then. -/
def runProgram (steps : Nat) (p : Program) : Run Unit := do
  tryCatch (runCommands steps p) fun
    | .exit status | .returned status => setStatus status
    | stop => throw stop
  let status := (← get).status
  runCommands steps (Program.ofText (← get).farewell)
  setStatus status

end Run

/-- How the run of a program ended. -/
inductive Ending where
  | exited (status : ExitStatus)
  /-- It still ran at its deadline, or would run for ever. -/
  | stopped
  deriving DecidableEq, Repr

/-- How many steps a run may take. -/
def stepBound : Nat := 10000

/-- Runs something from a state on. -/
def execute (r : Run Unit) (st : State) : Ending × State :=
  match r.run st with
  | (.ok (), st) => (.exited (.code st.status), st)
  | (.error (.exit status), st) | (.error (.returned status), st) => (.exited (.code status), st)
  | (.error (.signal n), st) => (.exited (.signal n), st)
  | (.error (.leaveLoop ..), st) => (.exited (.code st.status), st)
  | (.error .deadline, st) => (.stopped, st)
  | (.error .tooLong, st) => (.stopped, { st with clock := max st.clock (st.deadline.getD 0) })

end Restoration.Shell
