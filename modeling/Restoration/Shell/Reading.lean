import Restoration.Shell.Syntax
import Restoration.Text.Numeral
import Restoration.Text.Occurrence

/-!
# Reading of shell programs

A program is read command by command, so that what stands ahead of a fault still runs.

    the commands of a program are those ahead of its fault
-/

namespace Restoration.Shell

/-- What is still to be read. -/
structure Source where
  rest : List Char
  line : Nat
  /-- How many lines below this one were read already. -/
  ahead : Nat := 0

/-- A reader of a part of a program; it fails with the number of a line. -/
abbrev Reads (α : Type) := StateT Source (Except Nat) α

namespace Reads

/-! ## Characters -/

/-- The text is no program here. -/
def fail {α : Type} : Reads α := do throw (← get).line

/-- What is still to be read. -/
def rest : Reads (List Char) := do return (← get).rest

/-- Passes over some characters. -/
def skip (n : Nat) : Reads Unit :=
  modify fun s =>
    match (s.rest.take n).count '\n' with
    | 0 => { s with rest := s.rest.drop n }
    | breaks => ⟨s.rest.drop n, s.line + breaks + s.ahead, 0⟩

/-- Passes over the characters for which `p` holds, and gives them. -/
def takeWhile (p : Char → Bool) : Reads (List Char) := do
  let taken := (← rest).takeWhile p
  skip taken.length
  pure taken

/-- Passes over a text that has to stand here. -/
def expect (t : List Char) : Reads Unit := do
  if t.isPrefixOf (← rest) then skip t.length else fail

/-- Does this character end a word that is not quoted? -/
def isDelimiter (c : Char) : Bool := " \t\n;&|()<>".toList.contains c

/-- Can this character be part of a name? -/
def isNameChar (c : Char) : Bool := c.isAlphanum || c = '_'

/-- The parameters with names that are single signs. -/
def isSpecial (c : Char) : Bool := "@*#?$!-".toList.contains c

/-- Does this character stand for itself where nothing is quoted? -/
def isPlain (c : Char) : Bool :=
  !isDelimiter c && ! ['\\', '\x27', '"', '$', '\x60'].contains c

/-- The text without blanks, joined lines and comments at its start. -/
def dropBlanks : List Char → List Char
  | ' ' :: r | '\t' :: r | '\\' :: '\n' :: r => dropBlanks r
  | '#' :: r => r.dropWhile (· != '\n')
  | t => t

/-- Passes over blanks and comments. -/
def blanks : Reads Unit := do
  let t ← rest
  skip (t.length - (dropBlanks t).length)

/-- Passes over blanks, comments and ends of lines. -/
def emptyLines : Nat → Reads Unit
  | 0 => fail
  | n + 1 => do
    blanks
    match ← rest with
    | '\n' :: _ =>
      skip 1
      emptyLines n
    | _ => pure ()

/-- Splits the lines of a text ahead of the first one that is `last`. -/
def linesUpTo (last : List Char) : List (List Char) → List (List Char) × List (List Char)
  | [] => ([], [])
  | l :: r => if l = last then ([], r) else ((l :: (linesUpTo last r).1), (linesUpTo last r).2)

/-- Reads the lines below this one up to the line `last`. With `indented` the tabs at the starts of
lines do not count. -/
def linesBelow (indented : Bool) (last : List Char) : Reads (List Char) := do
  let t ← rest
  let here := t.takeWhile (· != '\n')
  let lines := Text.splitAt (· == '\n') (t.drop (here.length + 1))
  let lines := if indented then lines.map (·.dropWhile (· == '\t')) else lines
  let (taken, left) := linesUpTo last lines
  modify fun s => { s with
    rest := here ++ '\n' :: ['\n'].intercalate left
    ahead := s.ahead + (lines.length - left.length) }
  return taken.flatMap (· ++ ['\n'])

/-! ## Words -/

/-- The words that have a meaning of their own at the start of a command. -/
def reserved : List String :=
  ["if", "then", "elif", "else", "fi", "while", "until", "do", "done", "for", "in", "case", "esac",
    "\x7b", "\x7d", "!"]

/-- The reserved words that end a list of commands. -/
def closers : List String := ["then", "elif", "else", "fi", "do", "done", "esac", "\x7d"]

/-- The reserved word that stands here, if one does. -/
def keyword? : Reads (Option String) := do
  blanks
  let t ← rest
  let taken := t.takeWhile isPlain
  let word := String.ofList taken
  let ends := match t.drop taken.length with
    | [] => true
    | c :: _ => isDelimiter c
  pure (if ends && reserved.contains word then some word else none)

/-- Passes over a reserved word that has to stand here. -/
def expectWord (word : String) : Reads Unit := do
  if (← keyword?) = some word then skip word.length else fail

/-- Is this the end of a list of commands? -/
def atListEnd : Reads Bool := do
  let word ← keyword?
  match ← rest with
  | [] | ')' :: _ | ';' :: ';' :: _ => pure true
  | _ => pure (word.any closers.contains)

/-- The text up to a backquote, with its backslashes taken off. -/
def untilBackquote : List Char → Option (List Char × Nat)
  | [] => none
  | '\\' :: c :: r =>
    let kept := if c = '\x60' || c = '\\' || c = '$' then [c] else ['\\', c]
    (untilBackquote r).map fun (t, n) => (kept ++ t, n + 2)
  | c :: r =>
    if c = '\x60' then some ([], 1) else (untilBackquote r).map fun (t, n) => (c :: t, n + 1)

/-- What the sign behind the name of a parameter asks for. -/
def edit (sign : List Char) (word : List Piece) : Option Edit :=
  match sign with
  | [] => some .asIs
  | [':', '-'] => some (.default true false word)
  | ['-'] => some (.default false false word)
  | [':', '='] => some (.default true true word)
  | ['='] => some (.default false true word)
  | [':', '+'] => some (.instead true word)
  | ['+'] => some (.instead false word)
  | ['%'] => some (.dropEnd false word)
  | ['%', '%'] => some (.dropEnd true word)
  | ['#'] => some (.dropStart false word)
  | ['#', '#'] => some (.dropStart true word)
  | _ => none

/-- The name of a parameter. -/
def parameterName : Reads String := do
  match ← rest with
  | c :: _ =>
    if c.isDigit then
      return String.ofList (← takeWhile Char.isDigit)
    else if isNameChar c then
      return String.ofList (← takeWhile isNameChar)
    else if isSpecial c then
      skip 1
      return String.singleton c
    else fail
  | [] => fail

/-- The sign behind the name of a parameter in braces. -/
def editSign : Reads (List Char) := do
  let t ← rest
  let sign := match t with
    | ':' :: c :: _ => [':', c]
    | '%' :: '%' :: _ => ['%', '%']
    | '#' :: '#' :: _ => ['#', '#']
    | c :: _ => if c = '\x7d' then [] else [c]
    | [] => []
  skip sign.length
  pure sign

/-- The name that is given to a command, if one is given here. -/
def definedName? : Reads (Option String) := do
  let t ← rest
  let name := t.takeWhile isNameChar
  let behind := (t.drop name.length).dropWhile (· = ' ')
  match behind with
  | '(' :: r =>
    let closing := r.dropWhile (· = ' ')
    if name.isEmpty || closing.head? ≠ some ')' then return none
    skip (t.length - closing.length + 1)
    return some (String.ofList name)
  | _ => return none

mutual

/-- A word up to its end. -/
def word : Nat → Reads Word
  | 0 => fail
  | n + 1 => do
    match ← rest with
    | [] => pure []
    | '\\' :: '\n' :: _ =>
      skip 2
      word n
    | '\\' :: c :: _ =>
      skip 2
      return .text [c] true :: (← word n)
    | '"' :: _ =>
      skip 1
      let inner ← quoted n
      return .text [] true :: inner ++ (← word n)
    | '$' :: _ =>
      skip 1
      let p ← dollar n false
      return p :: (← word n)
    | c :: _ =>
      if isDelimiter c then pure []
      else if c = '\x27' then
        skip 1
        let inner ← takeWhile (· != '\x27')
        expect ['\x27']
        return .text inner true :: (← word n)
      else if c = '\x60' then
        skip 1
        let p ← backquoted n false
        return p :: (← word n)
      else if c = '\\' then
        skip 1
        return [.text [c] true]
      else
        let run ← takeWhile isPlain
        return .text run false :: (← word n)

/-- The parts of a word between double quotes, up to the closing one. -/
def quoted : Nat → Reads Word
  | 0 => fail
  | n + 1 => do
    match ← rest with
    | [] => fail
    | '"' :: _ =>
      skip 1
      pure []
    | '\\' :: c :: _ =>
      skip 2
      let loses := ['$', '\x60', '"', '\\'].contains c
      let kept := if c = '\n' then [] else if loses then [c] else ['\\', c]
      return .text kept true :: (← quoted n)
    | '$' :: _ =>
      skip 1
      let p ← dollar n true
      return p :: (← quoted n)
    | c :: _ =>
      skip 1
      if c = '\x60' then
        let p ← backquoted n true
        return p :: (← quoted n)
      else
        return .text [c] true :: (← quoted n)

/-- What stands behind a dollar sign. -/
def dollar : Nat → Bool → Reads Piece
  | 0, _ => fail
  | n + 1, isQuoted => do
    match ← rest with
    | '(' :: '(' :: _ =>
      skip 2
      return .number (← arithmetic n 0) isQuoted
    | '(' :: _ =>
      skip 1
      let body ← commandList n
      emptyLines n
      expect [')']
      return .output body isQuoted
    | c :: r =>
      if c = '\x7b' then
        skip 1
        if r.head? = some '#' && (r.drop 1).head? != some '\x7d' then
          skip 1
          let name ← parameterName
          expect ['\x7d']
          return .parameter name .length isQuoted
        else
          let name ← parameterName
          let sign ← editSign
          let inner ← braced n isQuoted
          match edit sign inner with
          | some e => return .parameter name e isQuoted
          | none => fail
      else if c.isDigit || isSpecial c then
        skip 1
        return .parameter (String.singleton c) .asIs isQuoted
      else if isNameChar c then
        return .parameter (← parameterName) .asIs isQuoted
      else return .text ['$'] isQuoted
    | [] => return .text ['$'] isQuoted

/-- What stands behind a backquote, up to the closing one. -/
def backquoted : Nat → Bool → Reads Piece
  | 0, _ => fail
  | n + 1, isQuoted => do
    match untilBackquote (← rest) with
    | none => fail
    | some (inner, length) =>
      let line := (← get).line
      skip length
      match (commandList n).run ⟨inner, line, 0⟩ with
      | .ok (body, _) => return .output body isQuoted
      | .error line => throw line

/-- The word in the braces of a parameter, up to the closing one. -/
def braced : Nat → Bool → Reads Word
  | 0, _ => fail
  | n + 1, isQuoted => do
    match ← rest with
    | [] => fail
    | '\\' :: c :: _ =>
      skip 2
      return .text [c] true :: (← braced n isQuoted)
    | '"' :: _ =>
      skip 1
      let inner ← quoted n
      return .text [] true :: inner ++ (← braced n isQuoted)
    | '$' :: _ =>
      skip 1
      let p ← dollar n isQuoted
      return p :: (← braced n isQuoted)
    | c :: _ =>
      skip 1
      if c = '\x7d' then pure []
      else if c = '\x27' && !isQuoted then
        let inner ← takeWhile (· != '\x27')
        expect ['\x27']
        return .text inner true :: (← braced n isQuoted)
      else return .text [c] isQuoted :: (← braced n isQuoted)

/-- The parts of an arithmetic expression, up to the closing brackets. -/
def arithmetic : Nat → Nat → Reads Word
  | 0, _ => fail
  | n + 1, depth => do
    match ← rest with
    | [] => fail
    | '$' :: _ =>
      skip 1
      let p ← dollar n true
      return p :: (← arithmetic n depth)
    | c :: r =>
      if c = ')' && depth = 0 then
        if r.head? = some ')' then
          skip 2
          pure []
        else fail
      else
        skip 1
        let depth := if c = '(' then depth + 1 else if c = ')' then depth - 1 else depth
        return .text [c] true :: (← arithmetic n depth)

/-- The parts of a text between lines, up to its end. -/
def unquotedLines : Nat → Reads Word
  | 0 => fail
  | n + 1 => do
    match ← rest with
    | [] => pure []
    | '\\' :: c :: _ =>
      skip 2
      let kept := if c = '\n' then [] else if ['$', '\x60', '\\'].contains c then [c] else ['\\', c]
      return .text kept true :: (← unquotedLines n)
    | '$' :: _ =>
      skip 1
      let p ← dollar n true
      return p :: (← unquotedLines n)
    | c :: _ =>
      skip 1
      if c = '\x60' then
        let p ← backquoted n true
        return p :: (← unquotedLines n)
      else
        return .text [c] true :: (← unquotedLines n)

/-- The lines below this one that are made standard input. They are expanded unless the word that
ends them is quoted. -/
def hereLines : Nat → Bool → Reads Redirection
  | 0, _ => fail
  | n + 1, indented => do
    blanks
    let w ← word n
    let asIs := w.any fun
      | .text _ quoted => quoted
      | _ => false
    let last := w.flatMap fun
      | .text cs _ => cs
      | _ => []
    let body ← linesBelow indented last
    if asIs then return .here [.text body true]
    match (unquotedLines n).run ⟨body, (← get).line + 1, 0⟩ with
    | .ok (text, _) => return .here text
    | .error line => throw line

/-- A redirection, if one stands here. -/
def redirection? : Nat → Reads (Option Redirection)
  | 0 => fail
  | n + 1 => do
    let t ← rest
    let number := t.takeWhile Char.isDigit
    let stream? := Numeral.value? number
    match t.drop number.length with
    | '>' :: '>' :: _ =>
      skip (number.length + 2)
      blanks
      return some (.output (stream?.getD 1) true (← word n))
    | '>' :: '&' :: _ =>
      skip (number.length + 2)
      blanks
      return some (.duplicate (stream?.getD 1) (← word n))
    | '>' :: r =>
      skip (number.length + if r.head? = some '|' then 2 else 1)
      blanks
      return some (.output (stream?.getD 1) false (← word n))
    | '<' :: '<' :: r =>
      let indented := r.head? = some '-'
      skip (number.length + if indented then 3 else 2)
      return some (← hereLines n indented)
    | '<' :: r =>
      if ['&', '>'].contains (r.headD ' ') then fail
      else
        skip (number.length + 1)
        blanks
        return some (.input (← word n))
    | _ => pure none

/-- The redirections that stand here. -/
def redirections : Nat → Reads (List Redirection)
  | 0 => fail
  | n + 1 => do
    blanks
    match ← redirection? n with
    | some r => return r :: (← redirections n)
    | none => pure []

/-- Words up to the end of a command. -/
def words : Nat → Reads (List Word)
  | 0 => fail
  | n + 1 => do
    blanks
    match ← rest with
    | [] => pure []
    | c :: _ =>
      if isDelimiter c then pure []
      else
        let w ← word n
        return w :: (← words n)

/-- The assignments, words and redirections of a simple command. -/
def simpleParts :
    Nat → Bool → Reads (List (String × Word) × List Word × List Redirection)
  | 0, _ => fail
  | n + 1, first => do
    blanks
    match ← redirection? n with
    | some r =>
      let (assignments, ws, rs) ← simpleParts n first
      return (assignments, ws, r :: rs)
    | none =>
      let t ← rest
      match t with
      | [] => return ([], [], [])
      | c :: _ =>
        let name := t.takeWhile isNameChar
        if isDelimiter c then return ([], [], [])
        else if first && !name.isEmpty && !c.isDigit && (t.drop name.length).head? = some '=' then
          skip (name.length + 1)
          let w ← word n
          let (assignments, ws, rs) ← simpleParts n true
          return ((String.ofList name, w) :: assignments, ws, rs)
        else
          let w ← word n
          let (assignments, ws, rs) ← simpleParts n false
          return (assignments, w :: ws, rs)

/-- The rest of a condition, from its test on. -/
def branch : Nat → Reads Command
  | 0 => fail
  | n + 1 => do
    let test ← commandList n
    expectWord "then"
    let yes ← commandList n
    match ← keyword? with
    | some "elif" =>
      skip 4
      return .branch test yes (← branch n)
    | some "else" =>
      skip 4
      let no ← commandList n
      expectWord "fi"
      return .branch test yes no
    | _ =>
      expectWord "fi"
      return .branch test yes .nothing

/-- The patterns of a case, up to the closing bracket. -/
def patterns : Nat → Reads (List Word)
  | 0 => fail
  | n + 1 => do
    blanks
    let w ← word n
    blanks
    match ← rest with
    | '|' :: _ =>
      skip 1
      return w :: (← patterns n)
    | _ =>
      expect [')']
      return [w]

/-- The cases of a choice, up to its end. -/
def cases : Nat → Reads (List (List Word × Command))
  | 0 => fail
  | n + 1 => do
    emptyLines n
    if (← keyword?) = some "esac" then
      skip 4
      pure []
    else
      if (← rest).head? = some '(' then skip 1
      let ps ← patterns n
      let body ← commandList n
      blanks
      if [';', ';'].isPrefixOf (← rest) then skip 2
      return (ps, body) :: (← cases n)

/-- A command that starts with a reserved word or a bracket, or a simple command. -/
def command : Nat → Reads Command
  | 0 => fail
  | n + 1 => do
    let start ← keyword?
    let line := (← get).line
    let withRedirections (body : Command) : Reads Command := do
      let rs ← redirections n
      return if rs.isEmpty then body else .redirected line body rs
    match start with
    | some "if" =>
      skip 2
      withRedirections (← branch n)
    | some "while" =>
      skip 5
      let test ← commandList n
      expectWord "do"
      let body ← commandList n
      expectWord "done"
      withRedirections (.loop false test body)
    | some "until" =>
      skip 5
      let test ← commandList n
      expectWord "do"
      let body ← commandList n
      expectWord "done"
      withRedirections (.loop true test body)
    | some "for" =>
      skip 3
      blanks
      let name ← takeWhile isNameChar
      emptyLines n
      let ws ← if (← keyword?) = some "in" then
          skip 2
          some <$> words n
        else pure none
      blanks
      if (← rest).head? = some ';' then skip 1
      emptyLines n
      expectWord "do"
      let body ← commandList n
      expectWord "done"
      withRedirections (.each (String.ofList name) ws body)
    | some "case" =>
      skip 4
      blanks
      let w ← word n
      emptyLines n
      expectWord "in"
      withRedirections (.choose w (← cases n))
    | some "\x7b" =>
      skip 1
      let body ← commandList n
      expectWord "\x7d"
      withRedirections body
    | some _ => fail
    | none =>
      if (← rest).head? = some '(' then
        skip 1
        let body ← commandList n
        blanks
        expect [')']
        withRedirections (.subshell body)
      else if let some name ← definedName? then
        emptyLines n
        return .define name (← command n)
      else
        let (assignments, ws, rs) ← simpleParts n true
        if assignments.isEmpty && ws.isEmpty && rs.isEmpty then fail
        return .simple line assignments ws rs

/-- Commands that are joined by pipes. -/
def pipeline : Nat → Reads Command
  | 0 => fail
  | n + 1 => do
    if (← keyword?) = some "!" then
      skip 1
      return .inverted (← pipeline n)
    let first ← command n
    blanks
    match ← rest with
    | '|' :: '|' :: _ => pure first
    | '|' :: _ =>
      skip 1
      emptyLines n
      return .pipe first (← pipeline n)
    | _ => pure first

/-- Further commands that depend on the success of `first`. -/
def alternatives : Nat → Command → Reads Command
  | 0, _ => fail
  | n + 1, first => do
    blanks
    match ← rest with
    | '&' :: '&' :: _ =>
      skip 2
      emptyLines n
      alternatives n (.both first (← pipeline n))
    | '|' :: '|' :: _ =>
      skip 2
      emptyLines n
      alternatives n (.either first (← pipeline n))
    | _ => pure first

/-- One command with those that depend on its success, and the sign that ends it. -/
def statement : Nat → Reads Command
  | 0 => fail
  | n + 1 => do
    let c ← alternatives n (← pipeline n)
    blanks
    match ← rest with
    | ';' :: ';' :: _ => pure c
    | ';' :: _ | '&' :: _ | '\n' :: _ =>
      skip 1
      pure c
    | _ => if ← atListEnd then pure c else fail

/-- Commands up to a sign or word that ends the list. -/
def commandList : Nat → Reads Command
  | 0 => fail
  | n + 1 => do
    emptyLines n
    if ← atListEnd then pure .nothing
    else
      let c ← statement n
      return .sequence c (← commandList n)

end

/-- Enough steps to read a text. -/
def steps (t : List Char) : Nat := 10 * t.length + 100

end Reads

/-- The commands from here on. -/
def Program.readFrom : Nat → Source → Program
  | 0, s => ⟨[], some s.line⟩
  | n + 1, s =>
    let steps := Reads.steps s.rest
    match (Reads.emptyLines steps).run s with
    | .error line => ⟨[], some line⟩
    | .ok (_, s) =>
      if s.rest.isEmpty then ⟨[], none⟩
      else
        match (Reads.statement steps).run s with
        | .error line => ⟨[], some line⟩
        | .ok (c, s) =>
          let p := readFrom n s
          ⟨c :: p.commands, p.fault⟩

/-- Reads a program from its text. -/
def Program.ofText (t : String) : Program := readFrom (t.length + 1) ⟨t.toList, 1, 0⟩

end Restoration.Shell
