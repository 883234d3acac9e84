import Restoration.Text.Numeral

/-!
# Faults of JSON texts

Why a text is no JSON, or is JSON but not the value that was expected. A fault belongs to one of
three categories: the text breaks the grammar, it ends too early, or its data is wrong.
-/

namespace Restoration.Json

/-- The three kinds of faults. -/
inductive Category where
  | syntaxError
  | data
  | endOfText
  deriving DecidableEq, Repr

/-- Why a text cannot be read. -/
inductive Fault where
  | endInList
  | endInObject
  | endInString
  | endInValue
  | expectedColon
  | expectedListCommaOrEnd
  | expectedObjectCommaOrEnd
  | expectedIdent
  | expectedValue
  | invalidEscape
  | invalidNumber
  | numberOutOfRange
  | controlCharacter
  | keyNotAString
  | loneSurrogate
  | endOfHexEscape
  | trailingComma
  | trailingCharacters
  | invalidType (found expected : String)
  | invalidValue (found expected : String)
  | invalidLength (length : Nat) (expected : String)
  | unknownVariant (found : String) (known : List String)
  | missingField (name : String)
  | duplicateField (name : String)
  deriving DecidableEq, Repr

namespace Fault

/-- Several names to choose from. -/
def alternatives : List String → String
  | [] => "nothing"
  | [a] => "`" ++ a ++ "`"
  | [a, b] => "`" ++ a ++ "` or `" ++ b ++ "`"
  | names => "one of " ++ ", ".intercalate (names.map fun a => "`" ++ a ++ "`")

/-- The category of the fault. -/
def category : Fault → Category
  | endInList | endInObject | endInString | endInValue => .endOfText
  | invalidType .. | invalidValue .. | invalidLength .. | unknownVariant .. | missingField _
  | duplicateField _ => .data
  | _ => .syntaxError

/-- The fault in words. -/
def message : Fault → String
  | endInList => "EOF while parsing a list"
  | endInObject => "EOF while parsing an object"
  | endInString => "EOF while parsing a string"
  | endInValue => "EOF while parsing a value"
  | expectedColon => "expected `:`"
  | expectedListCommaOrEnd => "expected `,` or `]`"
  | expectedObjectCommaOrEnd => "expected `,` or `\x7d`"
  | expectedIdent => "expected ident"
  | expectedValue => "expected value"
  | invalidEscape => "invalid escape"
  | invalidNumber => "invalid number"
  | numberOutOfRange => "number out of range"
  | controlCharacter => "control character (\\u0000-\\u001F) found while parsing a string"
  | keyNotAString => "key must be a string"
  | loneSurrogate => "lone leading surrogate in hex escape"
  | endOfHexEscape => "unexpected end of hex escape"
  | trailingComma => "trailing comma"
  | trailingCharacters => "trailing characters"
  | invalidType found expected => "invalid type: " ++ found ++ ", expected " ++ expected
  | invalidValue found expected => "invalid value: " ++ found ++ ", expected " ++ expected
  | invalidLength length expected =>
    "invalid length " ++ Numeral.text length ++ ", expected " ++ expected
  | unknownVariant found known =>
    "unknown variant `" ++ found ++ "`, " ++
      (if known.isEmpty then "there are no variants" else "expected " ++ alternatives known)
  | missingField name => "missing field `" ++ name ++ "`"
  | duplicateField name => "duplicate field `" ++ name ++ "`"

end Fault

end Restoration.Json
