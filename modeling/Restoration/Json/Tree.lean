import Restoration.Json.Number
import Restoration.Json.Quoted

/-!
# JSON trees

A text is read into a tree of its values, whose leaves are kept as written. Where the text breaks
the grammar the tree is cut: it holds all that stands ahead of the break, and the break itself. So
a tree exists for every text, and whether data or grammar is at fault is decided by what comes
first.

    parse t.pretty = t        for every t without a break
-/

namespace Restoration

/-- Where and why a list or an object is cut short. -/
structure Json.Break where
  fault : Json.Fault
  /-- The text of the key that is at fault, if a key is. -/
  key : List Char := []
  deriving DecidableEq, Repr

/-- A JSON text as far as it keeps to the grammar. -/
inductive Json where
  /-- `null`, `true`, `false` or a number, as written. -/
  | scalar (lexeme : List Char)
  /-- A string as written, its quotes included. -/
  | quoted (lexeme : List Char)
  | array (items : List Json) (stop : Option Json.Break)
  /-- Members by their keys, as written. -/
  | object (members : List (List Char × Json)) (stop : Option Json.Break)
  /-- The place where the grammar breaks, with the text that stands there. -/
  | broken (text : List Char) (fault : Json.Fault)

namespace Json

/-! ## Reading -/

/-- White space between values. -/
def isSpace (c : Char) : Bool := c = ' ' || c = '\n' || c = '\t' || c = '\r'

/-- The text from its first character that is no white space. -/
def skip (t : List Char) : List Char := t.dropWhile isSpace

/-- Takes the rest of a word such as `null`. -/
def scanWord (word : List Char) (t : List Char) : Except Fault (List Char) :=
  match word, t with
  | [], t => .ok t
  | _ :: _, [] => .error .endInValue
  | w :: ws, c :: r => if w = c then scanWord ws r else .error .expectedIdent

/-- The words among the values, each under its first letter. -/
def word? : Char → Option (List Char)
  | 'n' => some ['n', 'u', 'l', 'l']
  | 't' => some ['t', 'r', 'u', 'e']
  | 'f' => some ['f', 'a', 'l', 's', 'e']
  | _ => none

/-- Takes a value that holds no other value. -/
def scanLeaf (t : List Char) : Except Fault (Json × List Char) :=
  match t with
  | [] => .error .endInValue
  | c :: r =>
    match word? c with
    | some word => (scanWord word t).map fun rest => (scalar word, rest)
    | none =>
      if c = '"' then (Quoted.scan r).map fun (taken, rest) => (quoted ('"' :: taken), rest)
      else if c = '-' || Numeral.isDigit c then
        (Number.scan t).map fun (taken, rest) => (scalar taken, rest)
      else .error .expectedValue

/-- The character of an opening brace. -/
def openBrace : Char := '\x7b'

/-- The character of a closing brace. -/
def closeBrace : Char := '\x7d'

mutual

/-- Takes a value. The rest is missing if the value is cut short. -/
def takeValue (fuel : Nat) (t : List Char) : Json × Option (List Char) :=
  match fuel with
  | 0 => (broken [] .endInValue, none)
  | fuel + 1 =>
    match skip t with
    | [] => (broken [] .endInValue, none)
    | c :: r =>
      if c = '[' then
        let (items, stop, rest) := takeItems fuel true r
        (array items stop, rest)
      else if c = openBrace then
        let (members, stop, rest) := takeMembers fuel true r
        (object members stop, rest)
      else match scanLeaf (c :: r) with
        | .ok (leaf, rest) => (leaf, some rest)
        | .error fault => (broken (c :: r) fault, none)

/-- Takes the items of a list and its closing bracket. -/
def takeItems (fuel : Nat) (first : Bool) (t : List Char) :
    List Json × Option Break × Option (List Char) :=
  match fuel with
  | 0 => ([], some ⟨.endInList, []⟩, none)
  | fuel + 1 =>
    match skip t with
    | [] => ([], some ⟨.endInList, []⟩, none)
    | c :: r =>
      if c = ']' then ([], none, some r)
      else if !first && c != ',' then ([], some ⟨.expectedListCommaOrEnd, []⟩, none)
      else
        let t := if first then c :: r else skip r
        if t.isEmpty then ([], some ⟨.endInValue, []⟩, none)
        else if t.head? = some ']' then ([], some ⟨.trailingComma, []⟩, none)
        else
          match takeValue fuel t with
          | (item, none) => ([item], none, none)
          | (item, some rest) =>
            let (items, stop, rest) := takeItems fuel false rest
            (item :: items, stop, rest)

/-- Takes the members of an object and its closing brace. -/
def takeMembers (fuel : Nat) (first : Bool) (t : List Char) :
    List (List Char × Json) × Option Break × Option (List Char) :=
  match fuel with
  | 0 => ([], some ⟨.endInObject, []⟩, none)
  | fuel + 1 =>
    match skip t with
    | [] => ([], some ⟨.endInObject, []⟩, none)
    | c :: r =>
      if c = closeBrace then ([], none, some r)
      else if !first && c != ',' then ([], some ⟨.expectedObjectCommaOrEnd, []⟩, none)
      else
        match (if first then c :: r else skip r) with
        | [] => ([], some ⟨.endInValue, []⟩, none)
        | c :: r =>
          if c = closeBrace then ([], some ⟨.trailingComma, []⟩, none)
          else if c != '"' then ([], some ⟨.keyNotAString, c :: r⟩, none)
          else
            match Quoted.scan r with
            | .error fault => ([], some ⟨fault, c :: r⟩, none)
            | .ok (key, rest) =>
              match skip rest with
              | [] => ([(c :: key, broken [] .endInObject)], none, none)
              | d :: rest =>
                if d != ':' then ([(c :: key, broken [] .expectedColon)], none, none)
                else
                  match takeValue fuel rest with
                  | (value, none) => ([(c :: key, value)], none, none)
                  | (value, some rest) =>
                    let (members, stop, rest) := takeMembers fuel false rest
                    ((c :: key, value) :: members, stop, rest)

end

/-- The tree of a whole text, and the text behind its value if the value is complete. -/
def parse (t : List Char) : Json × Option (List Char) := takeValue (t.length + 1) t

/-! ## Breaks -/

/-- How the break of a list is told when nothing in the list is looked at. -/
def Break.skippedInList (b : Break) : Fault :=
  if b.fault = .trailingComma then .expectedValue else b.fault

/-- How the break of an object is told when nothing in the object is looked at. -/
def Break.skippedInObject (b : Break) : Fault :=
  match b.fault with
  | .trailingComma => .keyNotAString
  | .endInValue => .endInObject
  | fault => fault

mutual

/-- The first break of a tree that is skipped. -/
def flaw? : Json → Option Fault
  | scalar _ => none
  | quoted _ => none
  | broken _ fault => some fault
  | array items stop => flawOfItems? items <|> stop.map (·.skippedInList)
  | object members stop => flawOfMembers? members <|> stop.map (·.skippedInObject)

/-- The first break among the items of a list. -/
def flawOfItems? : List Json → Option Fault
  | [] => none
  | item :: rest => flaw? item <|> flawOfItems? rest

/-- The first break among the members of an object. -/
def flawOfMembers? : List (List Char × Json) → Option Fault
  | [] => none
  | (_, value) :: rest => flaw? value <|> flawOfMembers? rest

end

/-! ## Building and printing -/

/-- The value of nothing. -/
def null : Json := scalar ['n', 'u', 'l', 'l']

/-- A truth value. -/
def ofBool (b : Bool) : Json :=
  scalar (if b then ['t', 'r', 'u', 'e'] else ['f', 'a', 'l', 's', 'e'])

/-- A whole number. -/
def ofNat (n : Nat) : Json := scalar (Numeral.digits n)

/-- A float; `null` if it is not finite. -/
def ofFloat (x : Float) : Json :=
  match Decimal.filed? x with
  | some s => scalar s.toList
  | none => null

/-- A string. -/
def ofString (s : String) : Json := quoted ('"' :: Quoted.encode s.toList ++ ['"'])

/-- A value that may be missing. -/
def ofOption {α : Type} (write : α → Json) : Option α → Json
  | some a => write a
  | none => null

/-- An object with these members. -/
def ofMembers (members : List (String × Json)) : Json :=
  object (members.map fun (k, v) => ('"' :: Quoted.encode k.toList ++ ['"'], v)) none

/-- A line feed and the indentation of this depth. -/
def newline (depth : Nat) : List Char := '\n' :: List.replicate (4 * depth) ' '

mutual

/-- The text of a tree, one member or item a line, indented by four columns a level. -/
def prettyAt (depth : Nat) : Json → List Char
  | scalar lexeme => lexeme
  | quoted lexeme => lexeme
  | broken text _ => text
  | array [] _ => ['[', ']']
  | array (item :: items) _ =>
    '[' :: newline (depth + 1) ++ prettyAt (depth + 1) item ++ prettyItems (depth + 1) items
      ++ newline depth ++ [']']
  | object [] _ => [openBrace, closeBrace]
  | object ((key, value) :: members) _ =>
    openBrace :: newline (depth + 1) ++ key ++ [':', ' '] ++ prettyAt (depth + 1) value
      ++ prettyMembers (depth + 1) members ++ newline depth ++ [closeBrace]

/-- The items behind the first one. -/
def prettyItems (depth : Nat) : List Json → List Char
  | [] => []
  | item :: rest => ',' :: newline depth ++ prettyAt depth item ++ prettyItems depth rest

/-- The members behind the first one. -/
def prettyMembers (depth : Nat) : List (List Char × Json) → List Char
  | [] => []
  | (key, value) :: rest =>
    ',' :: newline depth ++ key ++ [':', ' '] ++ prettyAt depth value ++ prettyMembers depth rest

end

/-- The text of a tree, spread over lines. -/
def pretty (t : Json) : String := String.ofList (prettyAt 0 t)

end Json

end Restoration
