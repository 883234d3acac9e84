import Restoration.CommandLine.Usage
import Restoration.Decimal.Reading
import Restoration.Job.Basic
import Restoration.Text.Numeral

/-!
# Requests

What a command line asks for: a command, the files it is about, and the options. The options of a
new job edit a job that asks for nothing yet.

    ofArguments ("init" :: path :: []) = ok (a request for a job without any filter)
-/

namespace Restoration.CommandLine

/-- The commands. -/
inductive Verb where
  /-- Files a new job. -/
  | init
  /-- Writes the script of a job. -/
  | compile
  /-- Shows how far a job is encoded. -/
  | analyze
  | encode
  /-- Takes all unfinished jobs of a folder up again. -/
  | resume
  /-- Removes what is of no more use of a job, and its record. -/
  | clean
  deriving DecidableEq, Repr

namespace Verb

/-- All commands. -/
def all : List Verb := [init, compile, analyze, encode, resume, clean]

/-- The word for the command. -/
def word : Verb → String
  | init => "init"
  | compile => "compile"
  | analyze => "analyze"
  | encode => "encode"
  | resume => "resume"
  | clean => "clean"

/-- The command with this word. -/
def ofWord? (w : String) : Option Verb := all.find? (·.word = w)

/-- How many files the command is about. -/
def places : Verb → Places
  | resume => .none
  | encode => .some
  | _ => .one

end Verb

/-- What is given with a command. -/
structure Options where
  /-- Where the settings of the machine are. -/
  machine : Option Path := none
  log : Option Path := none
  files : List Path := []
  /-- The folder of jobs. -/
  folder : Option Path := none
  output : Option Path := none
  preview : Bool := false
  index : Option Nat := none
  parallelism : Option UInt8 := none
  /-- The filters and the delivery that a new job asks for. -/
  job : Job := { source := ⟨""⟩, directory := ⟨""⟩, index := 0 }

/-- A command with what is given. -/
structure Request where
  verb : Verb
  options : Options

/-! ## Values -/

/-- A value of an option, read from its text. -/
abbrev Value (α : Type) := String → Except UsageFault α

namespace Value

/-- A value that has to be there. -/
def ofOption {α : Type} : Option α → Except UsageFault α
  | some a => .ok a
  | none => .error .invalidValue

/-- A path; it must not be empty. -/
def path : Value Path := fun s => if s.isEmpty then .error .missingValue else .ok ⟨s⟩

/-- A text as it is. -/
def text : Value String := .ok

/-- A number that fits in a word. -/
def count : Value Nat := fun s => ofOption (Numeral.read? Numeral.word s.toList)

/-- A number below a bound; zero may have either sign. -/
def signedBelow (bound : Nat) : Value Nat := fun s =>
  ofOption (match s.toList with
    | '-' :: ds => (Numeral.value? ds).filter (· = 0)
    | t => Numeral.read? bound t)

/-- A number of eight bits. -/
def byte : Value UInt8 := fun s => (signedBelow UInt8.size s).map Nat.toUInt8

/-- A number of thirty-two bits. -/
def size : Value UInt32 := fun s => (signedBelow UInt32.size s).map Nat.toUInt32

/-- A number with a fraction. -/
def number : Value Float := fun s => ofOption (Decimal.read? s.toList)

/-- One of a closed list, by its label. -/
def choice {α : Type} [Choice α] : Value α := fun s => ofOption (Choice.ofLabel? s)

end Value

/-! ## Rules -/

/-- An option with a value. -/
def valued {α : Type} (name : String) (value : Value α) (f : α → Options → Options) :
    Rule Options :=
  ⟨name, .value fun s o => (value s).map fun a => f a o⟩

/-- An option without a value. -/
def flag (name : String) (f : Options → Options) : Rule Options := ⟨name, .flag f⟩

/-- An option with a value that changes the job. -/
def wish {α : Type} (name : String) (value : Value α) (f : α → Job → Job) : Rule Options :=
  valued name value fun a o => { o with job := f a o.job }

/-- An option without a value that changes the job. -/
def wishFlag (name : String) (f : Job → Job) : Rule Options :=
  flag name fun o => { o with job := f o.job }

/-- The options of all commands. -/
def commonRules : List (Rule Options) := [
  valued "config-file" .path fun p o => { o with machine := some p },
  valued "logs" .path fun p o => { o with log := some p }]

/-- The options that say what the source is. -/
def sourceRules : List (Rule Options) := [
  wish "fps" .number fun x j => { j with traits.frameRate := some x },
  wish "source-width" .size fun n j => { j with traits.width := some n },
  wish "source-height" .size fun n j => { j with traits.height := some n },
  wish "aspect-ratio" .number fun x j => { j with traits.aspectRatio := some x },
  wish "matrix" .choice fun m j => { j with traits.colorMatrix := m }]

/-- The options that ask for filters. -/
def filterRules : List (Rule Options) := [
  wish "width" .size fun n j => { j with outputWidth := some n },
  wish "height" .size fun n j => { j with outputHeight := some n },
  wish "upscale" .byte fun n j => { j with upscaleFactor := n },
  wish "upscale-method" .choice fun u j => { j with upscaler := u },
  wishFlag "super-res" fun j => { j with boost := some {} },
  wish "downscale-method" .choice fun d j => { j with downscaler := d },
  wish "denoise" .byte fun n j => { j with denoising := some { strength := n } },
  wishFlag "dering" fun j => { j with dering := true },
  wish "degrain" .size fun n j => { j with degraining := some { strength := n } },
  wishFlag "deshake" fun j => { j with stabilization := some {} },
  wish "interpolate" .number fun x j => { j with interpolation := some (.target x) },
  wish "trim-start" .number fun x j => { j with span.start := some x },
  wish "trim-end" .number fun x j => { j with span.stop := some x },
  wish "speed" .number fun x j => { j with speed := some x }]

/-- The options that ask for a delivery. -/
def deliveryRules : List (Rule Options) := [
  wish "codec" .choice fun c j => { j with delivery.codec := c },
  wish "quality" .byte fun n j => { j with delivery.quality := n },
  wish "preset" .text fun s j => { j with delivery.preset := s },
  wish "audio" .choice fun a j => { j with delivery.audio := a },
  wish "container" .choice fun c j => { j with delivery.container := c }]

/-- The option that names the folder of jobs. -/
def folderRule : Rule Options := valued "temp" .path fun p o => { o with folder := some p }

/-- The options of a command. -/
def Verb.rules : Verb → List (Rule Options)
  | init => commonRules ++ [folderRule,
      valued "job" .count fun n o => { o with index := some n },
      valued "parallelism" .byte fun n o => { o with parallelism := some n }]
      ++ sourceRules ++ filterRules ++ deliveryRules
  | compile => commonRules ++ [flag "preview" fun o => { o with preview := true },
      valued "output" .path fun p o => { o with output := some p }]
  | resume => commonRules ++ [folderRule]
  | _ => commonRules

/-- Takes a file that a command is about. -/
def takeFile (w : String) (o : Options) : Except UsageFault Options :=
  (Value.path w).map fun p => { o with files := o.files ++ [p] }

/-- The arguments of a command. -/
def Verb.form (v : Verb) : Form Options where
  rules := v.rules
  places := v.places
  take := takeFile

/-- The command that asks for help. -/
def helpWord : String := "help"

/-- The arguments ahead of a command. -/
def leadForm : Form Options where
  rules := commonRules
  hasVersion := true
  commands := Verb.all.map Verb.word ++ [helpWord]

namespace Request

/-- The fault behind the word that asks for help, which may name one command. -/
def helpOn (args : List String) : UsageFault :=
  match args with
  | [] => .help
  | [w] => if leadForm.commands.contains w then .help else .unknownCommand
  | _ => .unknownCommand

/-- Options given ahead of a command, unless they were given behind it too. -/
def withLead (lead : Options) (o : Options) : Options :=
  { o with machine := o.machine.or lead.machine, log := o.log.or lead.log }

/-- What arguments ask for. -/
def ofArguments (args : List String) : Except UsageFault Request := do
  let (lead, command) ← leadForm.readFrom { record := {} } args
  match command with
  | some (w, rest) =>
    match Verb.ofWord? w with
    | some verb =>
      let options ← verb.form.read {} rest
      let lead ← lead.settle leadForm
      pure ⟨verb, withLead lead.record options⟩
    | none => .error (helpOn rest)
  | none =>
    let lead ← lead.settle leadForm
    .error (if lead.given.isEmpty then .nothingAsked else .missingCommand)

end Request

end Restoration.CommandLine
