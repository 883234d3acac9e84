import Restoration.Json.Tree

/-!
# Reading values from JSON trees

A reader takes a value from a tree or says what is wrong with it, in the order of the text. Records
are objects with known members, or lists of all their fields in order; named choices are strings,
or objects whose only member is the name.
-/

namespace Restoration.Json

/-- Takes a value from a tree. -/
abbrev Reader (α : Type) := Json → Except Fault α

/-! ## Kinds of values -/

/-- The text that a tree starts with; enough of it to tell its kind. -/
def head : Json → List Char
  | scalar lexeme => lexeme
  | quoted lexeme => lexeme
  | array .. => ['[']
  | object .. => [openBrace]
  | broken text _ => text

/-- The text that a tree starts with, or the fault of a tree that is not there at all. -/
def start (j : Json) : Except Fault (Char × List Char) :=
  match j with
  | broken [] fault => .error fault
  | j =>
    match j.head with
    | [] => .error .endInValue
    | c :: r => .ok (c, r)

/-- The fault of a text that starts with a value of another kind than expected. -/
def mismatch (t : List Char) (expected : String) : Fault :=
  match t with
  | [] => .endInValue
  | c :: r =>
    match word? c with
    | some word =>
      match scanWord word t with
      | .error fault => fault
      | .ok _ =>
        .invalidType
          (if c = 'n' then "null" else if c = 't' then "boolean `true`" else "boolean `false`")
          expected
    | none =>
      if c = '"' then
        match Quoted.read r with
        | .error fault => fault
        | .ok s => .invalidType ("string " ++ Quoted.shown s) expected
      else if c = '-' || Numeral.isDigit c then
        match Number.read t with
        | .error fault => fault
        | .ok n => .invalidType n.describe expected
      else if c = '[' then .invalidType "sequence" expected
      else if c = openBrace then .invalidType "map" expected
      else .expectedValue

/-! ## Plain values -/

/-- A truth value. -/
def bool : Reader Bool := fun j => do
  let (c, r) ← j.start
  match c with
  | 't' => do let _ ← scanWord ['r', 'u', 'e'] r; pure true
  | 'f' => do let _ ← scanWord ['a', 'l', 's', 'e'] r; pure false
  | _ => .error (mismatch (c :: r) "a boolean")

/-- A number of any kind. -/
def number (expected : String) : Reader Number := fun j => do
  let (c, r) ← j.start
  if c = '-' || Numeral.isDigit c then Number.read (c :: r) else .error (mismatch (c :: r) expected)

/-- A natural number below `bound`. -/
def natural (expected : String) (bound : Nat) : Reader Nat := fun j => do
  match ← number expected j with
  | .natural n =>
    if n < bound then .ok n else .error (.invalidValue (Number.natural n).describe expected)
  | .negative n => .error (.invalidValue (Number.negative n).describe expected)
  | .float x => .error (.invalidType (Number.float x).describe expected)

/-- A number of eight bits. -/
def uint8 : Reader UInt8 := fun j => (natural "u8" UInt8.size j).map Nat.toUInt8

/-- A number of thirty-two bits. -/
def uint32 : Reader UInt32 := fun j => (natural "u32" UInt32.size j).map Nat.toUInt32

/-- A number of sixty-four bits that counts or numbers things. -/
def count : Reader Nat := natural "usize" Numeral.word

/-- A number of sixty-four bits. -/
def uint64 : Reader Nat := natural "u64" Numeral.word

/-- A float; whole numbers are floats too. -/
def float : Reader Float := fun j => do
  match ← number "f64" j with
  | .natural n => pure n.toUInt64.toFloat
  | .negative n => pure (-n.toUInt64.toFloat)
  | .float x => pure x

/-- A string. -/
def stringAs (expected : String) : Reader String := fun j => do
  let (c, r) ← j.start
  if c = '"' then (Quoted.read r).map String.ofList else .error (mismatch (c :: r) expected)

/-- A string of any use. -/
def string : Reader String := stringAs "a string"

/-- A string that is a path. -/
def pathText : Reader String := stringAs "path string"

/-- A value or `null`. -/
def optional {α : Type} (read : Reader α) : Reader (Option α) := fun j => do
  let (c, r) ← j.start
  if c = 'n' then do
    let _ ← scanWord ['u', 'l', 'l'] r
    pure none
  else (read j).map some

/-- Nothing: `null`. -/
def unit : Reader Unit := fun j => do
  let (c, r) ← j.start
  if c = 'n' then (scanWord ['u', 'l', 'l'] r).map fun _ => ()
  else .error (mismatch (c :: r) "unit")

/-! ## Named choices -/

/-- The name of a choice, and the value under the name if the choice is written as an object. -/
structure Variant where
  name : String
  value : Option Json

/-- A name among the known ones. -/
def knownName (known : List String) (key : List Char) : Except Fault String := do
  let name := String.ofList (← Quoted.read key)
  if name ∈ known then pure name else .error (.unknownVariant name known)

/-- The fault of an object where the name of a choice should stand. -/
def Break.atName (b : Break) : Fault :=
  match b.key with
  | [] => b.fault
  | '"' :: r =>
    match Quoted.read r with
    | .error fault => fault
    | .ok _ => b.fault
  | key => mismatch key "variant identifier"

/-- Reads a choice: `unnamed` from a name alone, `valued` from the value under the name. -/
def choice {α : Type} (known : List String) (unnamed : String → Except Fault α)
    (valued : String → Reader α) : Reader α := fun j => do
  match j with
  | object [] none => .error .expectedValue
  | object [] (some b) => .error (if b.fault = .endInObject then .endInValue else b.atName)
  | object ((key, value) :: rest) stop => do
    let name ← knownName known (key.drop 1)
    let a ← valued name value
    match rest, stop with
    | [], none => pure a
    | [], some b => .error (if b.fault = .endInObject then .endInObject else .expectedValue)
    | _, _ => .error .expectedValue
  | j => do
    let (c, r) ← j.start
    if c = '"' then unnamed (← knownName known r) else .error .expectedValue

/-! ## Records -/

/-- The fields of a record that are there, by name. -/
abbrev Fields := List (String × Json)

/-- What is known of one field of a record. -/
structure RecordField (α : Type) where
  name : String
  read : Reader α
  /-- The value of a field that is not written, if it may be left out in any form of the record. -/
  standard : Option α := none
  /-- The value of a field that is not written, if it may be left out among named members. -/
  absent : Option α := none

/-- A field without its type. -/
structure Rule where
  name : String
  check : Json → Except Fault Unit
  omittedInList : Bool
  omittedByName : Bool

namespace RecordField

/-- A field that must be written. -/
def required {α : Type} (name : String) (read : Reader α) : RecordField α :=
  ⟨name, read, none, none⟩

/-- A field with a usual value. -/
def usually {α : Type} (name : String) (read : Reader α) (value : α) : RecordField α :=
  ⟨name, read, some value, none⟩

/-- A field that may be missing, and is missing unless it is written. -/
def maybe {α : Type} (name : String) (read : Reader α) : RecordField (Option α) :=
  ⟨name, optional read, some none, none⟩

/-- A field that may be missing, but has its place in a list. -/
def maybeByName {α : Type} (name : String) (read : Reader α) : RecordField (Option α) :=
  ⟨name, optional read, none, some none⟩

/-- What a field demands of a record. -/
def rule {α : Type} (f : RecordField α) : Rule where
  name := f.name
  check := fun j => (f.read j).map fun _ => ()
  omittedInList := f.standard.isSome
  omittedByName := f.standard.isSome || f.absent.isSome

/-- The value of the field in a record that met all rules. -/
def get {α : Type} (f : RecordField α) (fields : Fields) : Except Fault α :=
  match fields.lookup f.name with
  | some j => f.read j
  | none =>
    match f.standard, f.absent with
    | some a, _ => .ok a
    | none, some a => .ok a
    | none, none => .error (.missingField f.name)

end RecordField

/-- Checks the members of an object in the order of the text; unknown ones only have to be whole. -/
def checkMembers (rules : List Rule) (seen : Fields) :
    List (List Char × Json) → Except Fault Fields
  | [] => .ok seen
  | (key, value) :: rest => do
    let name := String.ofList (← Quoted.read (key.drop 1))
    match rules.find? (·.name = name) with
    | none =>
      match value.flaw? with
      | some fault => .error fault
      | none => checkMembers rules seen rest
    | some rule =>
      if (seen.lookup name).isSome then .error (.duplicateField name)
      else
        rule.check value
        checkMembers rules (seen ++ [(name, value)]) rest

/-- The fault of the key at which an object is cut short. -/
def Break.atKey (b : Break) : Fault :=
  match b.key with
  | '"' :: r =>
    match Quoted.read r with
    | .error fault => fault
    | .ok _ => b.fault
  | _ => b.fault

/-- Checks the items of a list against the fields of a record, in order. -/
def checkItems (expected : String) (stop : Option Break) (index : Nat) :
    List Rule → List Json → Except Fault Fields
  | [], [] =>
    match stop with
    | none => .ok []
    | some b =>
      if b.fault = .endInList ∨ b.fault = .trailingComma then .error b.fault
      else .error .trailingCharacters
  | [], _ :: _ => .error .trailingCharacters
  | rule :: rules, [] =>
    match stop with
    | some b => .error b.fault
    | none =>
      if rule.omittedInList then checkItems expected stop (index + 1) rules []
      else .error (.invalidLength index expected)
  | rule :: rules, item :: items => do
    rule.check item
    let fields ← checkItems expected stop (index + 1) rules items
    pure ((rule.name, item) :: fields)

/-- What a record is called in messages, with the number of its fields. -/
def recordLength (expected : String) (rules : List Rule) : String :=
  expected ++ " with " ++ Numeral.text rules.length ++
    (if rules.length = 1 then " element" else " elements")

/-- The fields of a record, checked against its rules. -/
def fieldsOf (expected : String) (rules : List Rule) : Reader Fields := fun j => do
  match j with
  | object members stop => do
    let fields ← checkMembers rules [] members
    match stop with
    | some b => .error b.atKey
    | none =>
      match rules.find? fun rule => !rule.omittedByName && (fields.lookup rule.name).isNone with
      | some rule => .error (.missingField rule.name)
      | none => .ok fields
  | array items stop => checkItems (recordLength expected rules) stop 0 rules items
  | j => do
    let (c, r) ← j.start
    .error (mismatch (c :: r) expected)

/-! ## Whole texts -/

/-- Reads a whole text; only white space may follow the value. -/
def readText {α : Type} (read : Reader α) (t : String) : Except Fault α := do
  let (tree, rest) := parse t.toList
  let a ← read tree
  match rest with
  | some rest => if (skip rest).isEmpty then pure a else .error .trailingCharacters
  | none => pure a

end Restoration.Json
