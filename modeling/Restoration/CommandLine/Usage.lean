/-!
# Usage of a command line

Arguments are read one after the other. A word that starts with two dashes names an option, which
may take the next word as its value; other words are values of places, or the command. An option may
be given once. The value of an option or a place is looked at only when the next argument turns out
to be no fault itself.

    read form [] = ok (the record without any option)
-/

namespace Restoration.CommandLine

/-- Why arguments cannot be used. Asking for help or for the version is one reason. -/
inductive UsageFault where
  | help
  | version
  /-- Nothing was asked for at all. -/
  | nothingAsked
  | unknownArgument
  | unknownCommand
  | missingCommand
  | missingArgument
  | missingValue
  | unwantedValue
  | invalidValue
  | repeated
  deriving DecidableEq, Repr

/-- The name of the fault. -/
def UsageFault.label : UsageFault → String
  | help => "DisplayHelp"
  | version => "DisplayVersion"
  | nothingAsked => "DisplayHelpOnMissingArgumentOrSubcommand"
  | unknownArgument => "UnknownArgument"
  | unknownCommand => "InvalidSubcommand"
  | missingCommand => "MissingSubcommand"
  | missingArgument => "MissingRequiredArgument"
  | missingValue => "InvalidValue"
  | unwantedValue => "TooManyValues"
  | invalidValue => "ValueValidation"
  | repeated => "ArgumentConflict"

/-- What an option does to the record of all options. -/
inductive Setter (ρ : Type) where
  | flag (f : ρ → ρ)
  | value (f : String → ρ → Except UsageFault ρ)

/-- An option by its name without dashes. -/
structure Rule (ρ : Type) where
  name : String
  setter : Setter ρ

/-- How many words without a name are taken. -/
inductive Places where
  | none
  | one
  | some
  deriving DecidableEq, Repr

/-- The arguments that can be given. -/
structure Form (ρ : Type) where
  rules : List (Rule ρ)
  places : Places := .none
  /-- Takes the word of a place. -/
  take : String → ρ → Except UsageFault ρ := fun _ r => .ok r
  /-- Can the version be asked for? -/
  hasVersion : Bool := false
  /-- The commands that may follow; an argument in their place is one of them or a fault. -/
  commands : List String := []

namespace Form

/-- Something given whose value is not yet looked at. -/
inductive Pending (ρ : Type) where
  | option (name : String) (f : String → ρ → Except UsageFault ρ) (value : Option String)
  | words (ws : List String)

/-- What was read so far. -/
structure Reading (ρ : Type) where
  record : ρ
  given : List String := []
  pending : Option (Pending ρ) := none
  /-- How many words without a name were taken. -/
  words : Nat := 0
  /-- Do all further arguments count as words? -/
  wordsOnly : Bool := false

variable {ρ : Type}

/-- Notes that an option is given, unless it was given before. -/
def Reading.note (s : Reading ρ) (name : String) : Except UsageFault (Reading ρ) :=
  if s.given.contains name then .error .repeated else .ok { s with given := name :: s.given }

/-- Looks at the value that is pending. -/
def Reading.settle (form : Form ρ) (s : Reading ρ) : Except UsageFault (Reading ρ) :=
  match s.pending with
  | none => .ok s
  | some (.option _ _ none) => .error .missingValue
  | some (.option name f (some value)) => do
    let s ← s.note name
    pure { s with record := ← f value s.record, pending := none }
  | some (.words ws) => do
    pure { s with record := ← ws.foldlM (fun r w => form.take w r) s.record, pending := none }

/-- Reads an option by its name and the value attached to it. -/
def option (form : Form ρ) (s : Reading ρ) (name : String) (attached : Option String) :
    Except UsageFault (Reading ρ) :=
  match form.rules.find? (·.name = name) with
  | none =>
    if name = "help" || (name = "version" && form.hasVersion) then
      if attached.isSome then .error .unwantedValue
      else do
        let _ ← s.settle form
        .error (if name = "help" then .help else .version)
    else .error .unknownArgument
  | some rule =>
    match rule.setter, attached with
    | .flag _, some _ => .error .unwantedValue
    | .flag f, none => do
      let s ← (← s.settle form).note name
      pure { s with record := f s.record }
    | .value f, attached => do
      let s ← s.settle form
      let s := { s with pending := some (.option name f attached) }
      if attached.isSome then s.settle form else pure s

/-- Reads an option by the letter behind one dash. -/
def letter (form : Form ρ) (s : Reading ρ) (c : Char) : Except UsageFault (Reading ρ) :=
  if c = 'h' then form.option s "help" none
  else if c = 'V' && form.hasVersion then form.option s "version" none
  else .error .unknownArgument

/-- Reads a word without a name. -/
def word (form : Form ρ) (s : Reading ρ) (w : String) : Except UsageFault (Reading ρ) :=
  let add (s : Reading ρ) (ws : List String) : Reading ρ :=
    { s with pending := some (.words ws), words := s.words + 1 }
  match form.places, s.pending with
  | .some, some (.words ws) => .ok (add s (ws ++ [w]))
  | .some, _ => do return add (← s.settle form) [w]
  | .one, _ =>
    if s.words = 0 then do return add (← s.settle form) [w] else .error .unknownArgument
  | .none, _ =>
    .error (if form.commands.isEmpty || (s.wordsOnly && form.commands.contains w) then
      .unknownArgument else .unknownCommand)

/-- What an argument looks like. -/
inductive Shape where
  | stop
  | long (name : String) (attached : Option String)
  | short (letter : Char)
  | plain
  deriving DecidableEq, Repr

/-- What an argument looks like. -/
def shape (argument : String) : Shape :=
  match argument.toList with
  | ['-', '-'] => .stop
  | '-' :: '-' :: r =>
    let name := String.ofList (r.takeWhile (· != '='))
    match r.dropWhile (· != '=') with
    | [] => .long name none
    | _ :: value => .long name (some (String.ofList value))
  | '-' :: c :: _ => .short c
  | _ => .plain

/-- Does an option wait for its value? -/
def Reading.waits (s : Reading ρ) : Bool :=
  match s.pending with
  | some (.option _ _ none) => true
  | _ => false

/-- The reading with a value for the option that waits. -/
def Reading.supply (s : Reading ρ) (value : String) : Reading ρ :=
  match s.pending with
  | some (.option name f _) => { s with pending := some (.option name f (some value)) }
  | _ => s

/-- Reads arguments up to a command. Gives the command and the arguments behind it. -/
def readFrom (form : Form ρ) (s : Reading ρ) :
    List String → Except UsageFault (Reading ρ × Option (String × List String))
  | [] => .ok (s, none)
  | a :: rest =>
    if s.wordsOnly then do readFrom form (← form.word s a) rest
    else if !s.waits && form.commands.contains a then .ok (s, some (a, rest))
    else
      match shape a with
      | .stop => readFrom form { s with wordsOnly := true } rest
      | .long name attached => do readFrom form (← form.option s name attached) rest
      | .short c => do readFrom form (← form.letter s c) rest
      | .plain =>
        if s.waits then readFrom form (s.supply a) rest
        else do readFrom form (← form.word s a) rest

/-- Reads all arguments of a form without commands. -/
def read (form : Form ρ) (record : ρ) (args : List String) : Except UsageFault ρ := do
  let (s, _) ← form.readFrom { record } args
  let s ← s.settle form
  if form.places != .none && s.words = 0 then .error .missingArgument
  else pure s.record

end Form

end Restoration.CommandLine
