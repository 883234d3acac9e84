import Restoration.Shell.Editor
import Restoration.Shell.State
import Restoration.Text.Blank

/-!
# Utilities

The small programs and built-in commands that shell programs are made of. Each takes its arguments
and gives its status, zero for success.
-/

namespace Restoration.Shell.Utility

open Run

/-! ## Files -/

/-- What a utility says of something that it cannot do. -/
def complainOf (tool what : String) (fault : FileFault) : Run Unit :=
  complain (tool ++ ": " ++ what ++ ": " ++ fault.reason)

/-- A path in quotes. -/
def inQuotes (path : String) : String := "\x27" ++ path ++ "\x27"

/-- The file that holds nothing. -/
def nullFile : String := "/dev/null"

/-- The text of a file. -/
def textOf (path : String) : Run (Except FileFault String) := do
  let files := (← get).files
  return if path = nullFile then .ok "" else files.readText ⟨path⟩

/-- Changes the files, or says why that is not possible. -/
def changeFiles (tool what : String) (f : FileTree → Except FileFault FileTree) : Run Nat := do
  let st ← get
  match f st.files with
  | .ok files =>
    set { st with files := files }
    pure 0
  | .error fault =>
    complainOf tool what fault
    pure 1

/-- Joins the texts of files, or of standard input if no file is named. Also gives the status, which
is `failure` if a file cannot be read. -/
def joined (tool : String) (what : String → String) (failure : Nat) :
    List String → Run (List Char × Nat)
  | [] => do return ((← inputText).toList, 0)
  | paths => paths.foldlM (fun (t, status) path => do
      if path = "-" then return (t ++ (← inputText).toList, status)
      match ← textOf path with
      | .ok s => pure (t ++ s.toList, status)
      | .error fault =>
        complainOf tool (what path) fault
        pure (t, failure)) ([], 0)

/-- Copies files, or standard input, to standard output. What is there is written before the wait
for more. -/
def cat (args : List String) : Run Nat := do
  let copyInput : Run Unit := do
    emit (← get).input
    let _ ← inputText
  let paths := args.filter (· != "-u")
  if paths.isEmpty then
    copyInput
    return 0
  paths.foldlM (fun status path => do
    if path = "-" then
      copyInput
      return status
    match ← textOf path with
    | .ok s =>
      emit s
      pure status
    | .error fault =>
      complainOf "cat" path fault
      pure 1) 0

/-- Runs an operation for every path, and fails if one of them fails. -/
def forPaths (paths : List String) (f : String → Run Nat) : Run Nat :=
  paths.foldlM (fun status path => do return max status (← f path)) 0

/-- Removes files. -/
def rm (args : List String) : Run Nat :=
  let force := args.any fun a => "-".toList.isPrefixOf a.toList && a.toList.contains 'f'
  forPaths (args.filter fun a => !"-".toList.isPrefixOf a.toList) fun path => do
    if force && !(← get).files.pathExists ⟨path⟩ then return 0
    changeFiles "rm" ("cannot remove " ++ inQuotes path) fun t => t.remove ⟨path⟩

/-- Makes folders. -/
def mkdir (args : List String) : Run Nat :=
  let all := args.contains "-p"
  forPaths (args.filter (· != "-p")) fun path =>
    changeFiles "mkdir" ("cannot create directory " ++ inQuotes path) fun t =>
      if all then t.makeFolders ⟨path⟩
      else if t.pathExists ⟨path⟩ then .error .alreadyThere
      else do
        let place ← t.resolve ⟨path⟩
        pure (t.put place .folder)

/-- Makes sure that files are there. -/
def touch (args : List String) : Run Nat :=
  forPaths args fun path =>
    changeFiles "touch" ("cannot touch " ++ inQuotes path) fun t =>
      if t.pathExists ⟨path⟩ then pure t else t.write ⟨path⟩ ""

/-- Copies or moves a file. -/
def transfer (tool : String) (move : Bool) (args : List String) : Run Nat := do
  match args.filter fun a => !"-".toList.isPrefixOf a.toList with
  | [a, b] =>
    changeFiles tool ("cannot stat " ++ inQuotes a) fun t => do
      let s ← t.readText ⟨a⟩
      let target : Path :=
        if t.isFolder ⟨b⟩ then (Path.mk b).join ⟨((Path.mk a).fileName?).getD ""⟩ else ⟨b⟩
      let t ← t.write target s
      if move then t.remove ⟨a⟩ else pure t
  | _ =>
    complain (tool ++ ": missing file operand")
    pure 1

/-- Writes the names in folders. -/
def ls (args : List String) : Run Nat := do
  let paths := args.filter fun a => !"-".toList.isPrefixOf a.toList
  forPaths (if paths.isEmpty then ["."] else paths) fun path => do
    let t := (← get).files
    match t.look ⟨path⟩ with
    | .ok (_, .file ..) =>
      emit (path ++ "\n")
      pure 0
    | .ok (place, .folder) =>
      let shown := (t.names place).filter fun name => name.toList.head? ≠ some '.'
      emit (String.join ((shown.mergeSort fun a b => a ≤ b).map (· ++ "\n")))
      pure 0
    | .error fault =>
      complainOf "ls" ("cannot access " ++ inQuotes path) fault
      pure 2

/-! ## Text -/

/-- A text with the meaning of its backslashes, and whether it asks to stop there. -/
def unescaped : List Char → List Char × Bool
  | [] => ([], false)
  | '\\' :: c :: r =>
    if c = 'c' then ([], true)
    else
      let (t, stop) := unescaped r
      let kept := match c with
        | 'n' => ['\n']
        | 't' => ['\t']
        | 'r' => ['\r']
        | 'a' => ['\x07']
        | 'b' => ['\x08']
        | 'f' => ['\x0c']
        | 'v' => ['\x0b']
        | '\\' => ['\\']
        | _ => ['\\', c]
      (kept ++ t, stop)
  | c :: r =>
    let (t, stop) := unescaped r
    (c :: t, stop)

/-- Writes its arguments in one line. -/
def echo (args : List String) : Run Nat := do
  let (bare, args) := match args with
    | "-n" :: rest => (true, rest)
    | _ => (false, args)
  let (t, stop) := unescaped (" ".intercalate args).toList
  emit (String.ofList t ++ if bare || stop then "" else "\n")
  pure 0

/-- How an argument is put into a format. -/
structure Directive where
  kind : Char
  flags : List Char
  width : Nat
  places : Option Nat

/-- Reads a directive behind its sign. -/
def directive? (t : List Char) : Option (Directive × List Char) :=
  let flags := t.takeWhile fun c => "-0+ #".toList.contains c
  let t := t.drop flags.length
  let width := t.takeWhile Char.isDigit
  let t := t.drop width.length
  let places := match t with
    | '.' :: r => some (r.takeWhile Char.isDigit)
    | _ => none
  match t.drop (places.elim 0 fun ds => ds.length + 1) with
  | kind :: rest =>
    some (⟨kind, flags, Numeral.valueFrom 0 width, places.map (Numeral.valueFrom 0)⟩, rest)
  | [] => none

/-- The whole number that a text stands for. -/
def integer? (s : String) : Option Int :=
  match Text.trim s.toList with
  | '-' :: ds => (Numeral.value? ds).map fun n => -(n : Int)
  | ds => (Numeral.value? ds).map fun n => (n : Int)

/-- What a directive makes of an argument. -/
def Directive.fill (d : Directive) (value : String) : List Char :=
  let isNumber := "diu".toList.contains d.kind
  let number := (integer? value).getD 0
  let body :=
    if isNumber then
      let digits := Numeral.digits number.natAbs
      List.replicate (d.places.getD 1 - digits.length) '0' ++ digits
    else if d.kind = 'c' then value.toList.take 1
    else
      let t := if d.kind = 'b' then (unescaped value.toList).1 else value.toList
      d.places.elim t t.take
  let sign := if isNumber && number < 0 then ['-'] else []
  let room (fill : Char) := List.replicate (d.width - sign.length - body.length) fill
  if d.flags.contains '-' then sign ++ body ++ room ' '
  else if isNumber && d.flags.contains '0' then sign ++ room '0' ++ body
  else room ' ' ++ sign ++ body

/-- Fills arguments into a format. Gives the arguments that are left. -/
def filled : Nat → List Char → List String → List Char × List String
  | 0, t, args => (t, args)
  | _, [], args => ([], args)
  | n + 1, '%' :: r, args =>
    match directive? r with
    | none => (['%'], args)
    | some (d, r) =>
      let (body, args) :=
        if d.kind = '%' then (['%'], args) else (d.fill (args.headD ""), args.drop 1)
      let (t, rest) := filled n r args
      (body ++ t, rest)
  | n + 1, c :: r, args =>
    let (t, rest) := filled n r args
    (c :: t, rest)

/-- Fills arguments into a format as often as there are some left. -/
def filledAll (format : List Char) : Nat → List String → List Char
  | 0, _ => []
  | n + 1, args =>
    let (t, rest) := filled format.length format args
    t ++ if rest.isEmpty || rest.length = args.length then [] else filledAll format n rest

/-- Writes its arguments by a format. -/
def printf (args : List String) : Run Nat := do
  match args with
  | format :: rest =>
    emit (String.ofList (filledAll (unescaped format.toList).1 (rest.length + 1) rest))
    pure 0
  | [] =>
    complainHere "printf: usage: printf format [arg ...]"
    pure 2

/-- What the editor is asked for. -/
structure EditorCall where
  quiet : Bool := false
  extended : Bool := false
  /-- Are the files themselves edited? -/
  inPlace : Bool := false
  scripts : List String := []
  paths : List String := []

/-- Reads the arguments of the editor. Without an option for it, the first word is the script. -/
def EditorCall.ofArguments (call : EditorCall) : List String → EditorCall
  | [] =>
    match call.scripts, call.paths with
    | [], script :: paths => { call with scripts := [script], paths }
    | _, _ => call
  | a :: rest =>
    match a.toList with
    | '-' :: flag :: flags =>
      let flags := flag :: flags
      let call := { call with
        quiet := call.quiet || flags.contains 'n'
        extended := call.extended || flags.contains 'E' || flags.contains 'r'
        inPlace := call.inPlace || flags.contains 'i' }
      match flags.getLast? == some 'e', rest with
      | true, script :: rest => ofArguments { call with scripts := call.scripts ++ [script] } rest
      | _, rest => ofArguments call rest
    | _ => ofArguments { call with paths := call.paths ++ [a] } rest

/-- Writes numbers that follow each other. -/
def seq (args : List String) : Run Nat := do
  match args.map fun a => (Numeral.value? a.toList).getD 0 with
  | [last] => numbers 1 last
  | [first, last] => numbers first last
  | _ =>
    complain "seq: missing operand"
    pure 1
where
  numbers (first last : Nat) : Run Nat := do
    emit (String.join ((List.range' first (last + 1 - first)).map (Numeral.text · ++ "\n")))
    pure 0

/-- Edits text by a script. -/
def sed (args : List String) : Run Nat := do
  let call := EditorCall.ofArguments {} args
  let what (path : String) : String := "can\x27t read " ++ path
  if call.scripts.isEmpty then
    complain "Usage: sed [OPTION]... \x7bscript-only-if-no-other-script\x7d [input-file]..."
    return 1
  match Editor.script? call.extended ("\n".intercalate call.scripts).toList with
  | some rules =>
    let edited (t : List Char) : String := String.ofList (Editor.edit rules call.quiet t)
    if call.inPlace then
      forPaths call.paths fun path =>
        changeFiles "sed" (what path) fun t => do
          t.write ⟨path⟩ (edited (← t.readText ⟨path⟩).toList)
    else
      let (t, status) ← joined "sed" what 2 call.paths
      emit (edited t)
      return status
  | none =>
    complain "sed: -e expression #1, char 0: unknown command"
    return 1

/-- The lines of a text, with their line feeds. -/
def fullLines (t : List Char) : List (List Char) :=
  let pieces := Text.splitAt (· == '\n') t
  pieces.dropLast.map (· ++ ['\n']) ++ (pieces.getLast?.toList.filter (!·.isEmpty))

/-- Writes the lines in which an expression occurs. -/
def grep (args : List String) : Run Nat := do
  let flags := (args.takeWhile fun a => "-".toList.isPrefixOf a.toList).flatMap (·.toList.drop 1)
  match args.dropWhile fun a => "-".toList.isPrefixOf a.toList with
  | pattern :: paths =>
    let (t, status) ← joined "grep" id 2 paths
    let holds (l : List Char) : Bool :=
      if flags.contains 'F' then Text.occursIn pattern.toList l
      else match Expression.ofText? (flags.contains 'E') pattern.toList with
        | some e => e.occursIn l
        | none => false
    let found := (Text.lines t).zipIdx.filter fun (l, _) => holds l != flags.contains 'v'
    let numbered (number : Nat) : List Char :=
      if flags.contains 'n' then Numeral.digits (number + 1) ++ [':'] else []
    if flags.contains 'c' then emit (Numeral.text found.length ++ "\n")
    else if !flags.contains 'q' then
      emit (String.ofList (found.flatMap fun (l, number) => numbered number ++ l ++ ['\n']))
    return if status ≠ 0 then status else if found.isEmpty then 1 else 0
  | [] =>
    complain "Usage: grep [OPTION]... PATTERNS [FILE]..."
    pure 2

/-- What is said of a file that cannot be opened. -/
def unopened (path : String) : String := "cannot open " ++ inQuotes path ++ " for reading"

/-- How much of a text is asked for. -/
structure Amount where
  count : Nat := 10
  /-- Are characters counted, and not lines? -/
  inCharacters : Bool := false
  /-- Is it counted from the start where it is usually counted from the end? -/
  fromStart : Bool := false

/-- Reads a count. -/
def Amount.ofText (inCharacters : Bool) (t : List Char) : Amount :=
  let fromStart := t.head? = some '+'
  { count := (Numeral.value? (if fromStart then t.drop 1 else t)).getD 10, inCharacters, fromStart }

/-- The amount that is asked for, and the files. -/
def amountAndPaths : List String → Amount × List String
  | "-n" :: n :: rest => (.ofText false n.toList, rest)
  | "-c" :: n :: rest => (.ofText true n.toList, rest)
  | a :: rest =>
    match a.toList with
    | '-' :: 'n' :: t => (.ofText false t, rest)
    | '-' :: 'c' :: t => (.ofText true t, rest)
    | '-' :: t => (.ofText false t, rest)
    | _ => ({}, a :: rest)
  | [] => ({}, [])

/-- What a text is counted in. -/
def Amount.units (a : Amount) (t : List Char) : List (List Char) :=
  if a.inCharacters then t.map fun c => [c] else fullLines t

/-- Writes the first lines. -/
def head (args : List String) : Run Nat := do
  let (a, paths) := amountAndPaths args
  let (t, status) ← joined "head" unopened 1 paths
  emit (String.ofList ((a.units t).take a.count).flatten)
  pure status

/-- Writes the last lines. -/
def tail (args : List String) : Run Nat := do
  let (a, paths) := amountAndPaths args
  let (t, status) ← joined "tail" unopened 1 paths
  let units := a.units t
  let dropped := if a.fromStart then a.count - 1 else units.length - a.count
  emit (String.ofList (units.drop dropped).flatten)
  pure status

/-- Counts lines, words or bytes. -/
def wc (args : List String) : Run Nat := do
  let paths := args.filter fun a => !"-".toList.isPrefixOf a.toList
  let (t, status) ← joined "wc" id 1 paths
  let lines := t.count '\n'
  let words := ((Text.splitAt Text.isBlank t).filter (!·.isEmpty)).length
  let bytes := (String.ofList t).utf8ByteSize
  let counts := (if args.contains "-l" then [lines] else []) ++
    (if args.contains "-w" then [words] else []) ++ if args.contains "-c" then [bytes] else []
  let counts := if counts.isEmpty then [lines, words, bytes] else counts
  emit (" ".intercalate (counts.map Numeral.text ++ paths.take 1) ++ "\n")
  pure status

/-- The last name of a path, without a given ending. -/
def basename (args : List String) : Run Nat := do
  let name := ((Path.mk (args.headD "")).fileName?).getD "/"
  let ending := ((args.drop 1).headD "").toList
  let kept := (Text.dropTail? ending name.toList).getD name.toList
  emit (String.ofList (if kept.isEmpty then name.toList else kept) ++ "\n")
  pure 0

/-- The path without its last name. -/
def dirname (args : List String) : Run Nat := do
  let pieces := Text.splitAt (· == '/') (args.headD "").toList
  let text := String.ofList (['/'].intercalate pieces.dropLast)
  emit ((if text.isEmpty then (if (Path.mk (args.headD "")).isAbsolute then "/" else ".") else text)
    ++ "\n")
  pure 0

/-! ## Tests -/

/-- Compares two numbers. -/
def compare? (sign : String) (a b : Int) : Option Bool :=
  match sign with
  | "-eq" => some (a == b)
  | "-ne" => some (a != b)
  | "-lt" => some (a < b)
  | "-le" => some (a ≤ b)
  | "-gt" => some (b < a)
  | "-ge" => some (b ≤ a)
  | _ => none

/-- Does a test of one text hold? -/
def testOne (t : FileTree) (sign a : String) : Option Bool :=
  match sign with
  | "-n" => some !a.isEmpty
  | "-z" => some a.isEmpty
  | "-e" | "-r" | "-w" => some (t.pathExists ⟨a⟩)
  | "-f" => some (t.pathExists ⟨a⟩ && !t.isFolder ⟨a⟩)
  | "-d" => some (t.isFolder ⟨a⟩)
  | "-s" => some (t.pathExists ⟨a⟩ && (t.isFolder ⟨a⟩ || !t.isEmptyFile ⟨a⟩))
  | "-x" =>
    some (match t.look ⟨a⟩ with
      | .ok (_, .file _ x) => x
      | .ok (_, .folder) => true
      | .error _ => false)
  | _ => none

/-- A number in a condition. -/
def operand (s : String) : Except String Int :=
  match integer? s with
  | some n => .ok n
  | none => .error ("Illegal number: " ++ s)

/-- Does a condition hold, or what is wrong with it? -/
def holds (t : FileTree) : Nat → List String → Except String Bool
  | 0, _ => .error "too many arguments"
  | n + 1, args =>
    match args with
    | [] => .ok false
    | [a] => .ok !a.isEmpty
    | "!" :: rest => do return !(← holds t n rest)
    | [sign, a] =>
      match testOne t sign a with
      | some b => .ok b
      | none => .error (sign ++ ": unexpected operator")
    | [a, sign, b] =>
      match sign with
      | "=" | "==" => .ok (a == b)
      | "!=" => .ok (a != b)
      | "-a" => .ok (!a.isEmpty && !b.isEmpty)
      | "-o" => .ok (!a.isEmpty || !b.isEmpty)
      | _ =>
        if (compare? sign 0 0).isNone then .error (sign ++ ": unexpected operator")
        else do return (compare? sign (← operand a) (← operand b)).getD false
    | _ :: sign :: _ =>
      let before (sign : String) := args.takeWhile (· != sign)
      let after (sign : String) := (args.dropWhile (· != sign)).drop 1
      if args.contains "-o" then do
        return (← holds t n (before "-o")) || (← holds t n (after "-o"))
      else if args.contains "-a" then do
        return (← holds t n (before "-a")) && (← holds t n (after "-a"))
      else .error (sign ++ ": unexpected operator")

/-- Tests a condition. -/
def test (name : String) (args : List String) : Run Nat := do
  match holds (← get).files (args.length + 1) args with
  | .ok true => pure 0
  | .ok false => pure 1
  | .error what =>
    complainHere (name ++ ": " ++ what)
    pure 2

/-- Tests a condition in brackets. -/
def bracket (args : List String) : Run Nat := do
  if args.getLast? = some "]" then test "[" args.dropLast
  else
    complainHere "[: missing ]"
    pure 2

/-! ## Time and processes -/

/-- The milliseconds that a text stands for. -/
def duration? (s : String) : Option Nat := do
  let t := s.toList
  let (digits, unit) := match t.getLast? with
    | some 's' => (t.dropLast, 1000)
    | some 'm' => (t.dropLast, 60000)
    | some 'h' => (t.dropLast, 3600000)
    | some 'd' => (t.dropLast, 86400000)
    | _ => (t, 1000)
  let whole := digits.takeWhile (· != '.')
  let places := (digits.dropWhile (· != '.')).drop 1
  if whole.isEmpty && places.isEmpty then none
  let w ← if whole.isEmpty then some 0 else Numeral.value? whole
  let p ← if places.isEmpty then some 0 else Numeral.value? places
  some (w * unit + p * unit / Nat.pow 10 places.length)

/-- Waits. -/
def sleep (args : List String) : Run Nat := do
  match args.mapM duration? with
  | some (d :: ds) =>
    wait ((d :: ds).foldr (· + ·) 0)
    pure 0
  | some [] =>
    complain "sleep: missing operand"
    pure 1
  | none =>
    complain ("sleep: invalid time interval \x27" ++ args.headD "" ++ "\x27")
    pure 1

/-- The number that stands for the shell's own process. -/
def ownProcess : String := "4242"

/-- The number of a signal by its number or name. -/
def signal? (s : String) : Option Nat :=
  match Numeral.value? s.toList with
  | some n => some n
  | none =>
    (List.range 32).find? fun n =>
      match ExitStatus.signalName? n with
      | some name => name = s || name = "SIG" ++ s
      | none => false

/-- Sends a signal to the shell itself. -/
def kill (args : List String) : Run Nat := do
  let (signal, targets) := match args with
    | "-s" :: name :: rest => (signal? name, rest)
    | a :: rest =>
      match a.toList with
      | '-' :: name => (signal? (String.ofList name), rest)
      | _ => (some 15, a :: rest)
    | [] => (none, [])
  match signal with
  | some 0 => return if targets.all (· = ownProcess) then 0 else 1
  | some n =>
    if targets.contains ownProcess then throw (.signal n)
    complainHere "kill: No such process"
    pure 1
  | none =>
    complainHere "kill: bad signal"
    pure 2

/-! ## The shell itself -/

/-- A status given as an argument; without one that of the last command. -/
def statusOf (args : List String) : Run Nat := do
  match args with
  | a :: _ => return ((Numeral.value? a.toList).getD 2) % 256
  | [] => return (← get).status

/-- The blanks between fields. -/
def isFieldGap (c : Char) : Bool := c = ' ' || c = '\t' || c = '\n'

/-- What separates fields unless the variable for it says otherwise. -/
def usualGaps : String := " \t\n"

/-- Cuts a line into as many fields as there are names; the last one takes the rest. Several blanks
among `gaps` count as one. -/
def fieldsFor (gaps : List Char) : List String → List Char → List (String × String)
  | [], _ => []
  | name :: names, t =>
    let isBlank (c : Char) : Bool := gaps.contains c && isFieldGap c
    let t := t.dropWhile isBlank
    if names.isEmpty then [(name, String.ofList (t.reverse.dropWhile isBlank).reverse)]
    else
      let field := t.takeWhile (!gaps.contains ·)
      let r := (t.drop field.length).dropWhile isBlank
      let r := if r.head?.any gaps.contains then r.drop 1 else r
      (name, String.ofList field) :: fieldsFor gaps names r

/-- A line without the backslashes that quote characters. -/
def unquoted : List Char → List Char
  | [] => []
  | '\\' :: c :: r => c :: unquoted r
  | c :: r => c :: unquoted r

/-- Reads a line into variables; fails at the end of standard input. -/
def read (args : List String) : Run Nat := do
  let raw := args.contains "-r"
  let names := args.filter (· != "-r")
  let st ← get
  let t := st.input.toList
  let taken := t.takeWhile (· != '\n')
  let complete := taken.length < t.length
  if !complete then waitUntil st.inputEnd
  modify fun st => { st with input := String.ofList (t.drop (taken.length + 1)) }
  let line := if raw then taken else unquoted taken
  let gaps := (← lookup? "IFS").getD usualGaps
  (fieldsFor gaps.toList names line).forM fun (name, value) => assign name value
  return if complete then 0 else 1

/-- Sets the arguments, or what ends the program: the first failure, the first missing variable. -/
def setOptions : List String → Run Nat
  | [] => pure 0
  | "--" :: rest => do
    modify fun st => { st with arguments := rest }
    pure 0
  | a :: rest => do
    match a.toList with
    | '-' :: flags =>
      if flags.contains 'e' then modify fun st => { st with strict := true }
      if flags.contains 'u' then modify fun st => { st with careful := true }
      setOptions rest
    | '+' :: flags =>
      if flags.contains 'e' then modify fun st => { st with strict := false }
      if flags.contains 'u' then modify fun st => { st with careful := false }
      setOptions rest
    | _ =>
      modify fun st => { st with arguments := a :: rest }
      pure 0

/-- Takes arguments away. -/
def shift (args : List String) : Run Nat := do
  let n := (Numeral.value? (args.headD "1").toList).getD 1
  if (← get).arguments.length < n then
    complainHere "shift: can\x27t shift that many"
    throw (.exit 2)
  modify fun st => { st with arguments := st.arguments.drop n }
  pure 0

/-- Sets variables for later commands. -/
def exportAll (args : List String) : Run Nat := do
  args.forM fun a =>
    match Text.splitOnce? '=' a.toList with
    | some (name, value) => assign (String.ofList name) (String.ofList value)
    | none => pure ()
  pure 0

/-- Makes variables belong to the running function alone. -/
def makeLocal (args : List String) : Run Nat := do
  args.forM fun a => do
    let name := String.ofList (a.toList.takeWhile (· != '='))
    let old ← lookup? name
    modify fun st => { st with hidden := (name, old) :: st.hidden }
    if name ≠ a then assign name (String.ofList (a.toList.drop (name.length + 1)))
  pure 0

/-- Takes variables away. -/
def unset (args : List String) : Run Nat := do
  args.forM fun name => restore name none
  pure 0

/-- Says what is run at the exit of the program. Signals end the program all the same. -/
def trap (args : List String) : Run Nat := do
  match args with
  | command :: events =>
    if events.any fun e => e = "EXIT" || e = "0" then
      modify fun st => { st with farewell := if command = "-" then "" else command }
    pure 0
  | [] => pure 0

/-- Goes to another folder. -/
def cd (args : List String) : Run Nat := do
  let st ← get
  match st.files.look ⟨args.headD "/"⟩ with
  | .ok (place, .folder) =>
    set { st with files := { st.files with current := place } }
    pure 0
  | _ =>
    complainHere ("cd: can\x27t cd to " ++ args.headD "/")
    pure 2

/-- Writes the current folder. -/
def pwd : Run Nat := do
  emit ("/" ++ "/".intercalate (← get).files.current ++ "\n")
  pure 0

/-- Leaves loops, or begins the next round. -/
def leave (again : Bool) (args : List String) : Run Nat := do
  let n := (Numeral.value? (args.headD "1").toList).getD 1
  throw (.leaveLoop (n - 1) again)

/-- The commands that are part of the shell. -/
def builtIn? (name : String) : Option (List String → Run Nat) :=
  match name with
  | ":" | "true" | "wait" | "umask" => some fun _ => pure 0
  | "false" => some fun _ => pure 1
  | "echo" => some echo
  | "printf" => some printf
  | "test" => some (test "test")
  | "[" => some bracket
  | "kill" => some kill
  | "exit" => some fun args => do throw (.exit (← statusOf args))
  | "return" => some fun args => do throw (.returned (← statusOf args))
  | "read" => some read
  | "set" => some setOptions
  | "shift" => some shift
  | "export" => some exportAll
  | "local" => some makeLocal
  | "unset" => some unset
  | "trap" => some trap
  | "cd" => some cd
  | "pwd" => some fun _ => pwd
  | "break" => some (leave false)
  | "continue" => some (leave true)
  | _ => none

/-- The programs that stand outside of the shell. -/
def program? (name : String) : Option (List String → Run Nat) :=
  match name with
  | "cat" => some cat
  | "sed" => some sed
  | "grep" => some grep
  | "head" => some head
  | "tail" => some tail
  | "wc" => some wc
  | "sleep" => some sleep
  | "rm" => some rm
  | "mkdir" => some mkdir
  | "touch" => some touch
  | "ls" => some ls
  | "seq" => some seq
  | "cp" => some (transfer "cp" false)
  | "mv" => some (transfer "mv" true)
  | "basename" => some basename
  | "dirname" => some dirname
  | "true" => some fun _ => pure 0
  | "false" => some fun _ => pure 1
  | "echo" => some echo
  | "printf" => some printf
  | _ => none

/-- The folders in which programs stand. -/
def programFolders : List String := ["/bin/", "/usr/bin/"]

/-- The program that a command names, by its name or by a path to it. -/
def programAt? (command : String) : Option (List String → Run Nat) :=
  if command.toList.contains '/' then
    programFolders.findSome? fun folder =>
      (Text.dropLead? folder.toList command.toList).bind fun name => program? (String.ofList name)
  else program? command

end Restoration.Shell.Utility
