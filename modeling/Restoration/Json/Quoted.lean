import Restoration.Json.Fault

/-!
# Quoted strings

Strings between double quotes, with backslash escapes. `scan` finds the end of a string without
looking at what its escapes stand for; `read` takes its content, which must be whole Unicode.

    read (encode s ++ '"' :: r) = ok s
-/

namespace Restoration.Json.Quoted

/-! ## Writing -/

/-- A hexadecimal digit in lower case. -/
def hexDigit (d : Nat) : Char := if d < 10 then Numeral.digit d else Char.ofNat ('a'.toNat + d - 10)

/-- One character of a string. -/
def encodeChar (c : Char) : List Char :=
  match c with
  | '"' => ['\\', '"']
  | '\\' => ['\\', '\\']
  | '\x08' => ['\\', 'b']
  | '\x0c' => ['\\', 'f']
  | '\n' => ['\\', 'n']
  | '\r' => ['\\', 'r']
  | '\t' => ['\\', 't']
  | c =>
    if c.toNat < 0x20 then ['\\', 'u', '0', '0', hexDigit (c.toNat / 16), hexDigit (c.toNat % 16)]
    else [c]

/-- The content of a string, ready to stand between quotes. -/
def encode (s : List Char) : List Char := s.flatMap encodeChar

/-! ## Showing in messages -/

/-- The characters that leave no mark of their own: controls, blanks other than the plain one, marks
on other characters, and characters for private use. -/
def unmarked : List (Nat × Nat) :=
  [(0x0, 0x1F), (0x7F, 0xA0), (0xAD, 0xAD), (0x300, 0x36F), (0x483, 0x489), (0x591, 0x5BD),
    (0x600, 0x605), (0x610, 0x61A), (0x61C, 0x61C), (0x64B, 0x65F), (0x6DD, 0x6DD), (0x70F, 0x70F),
    (0x8E2, 0x8E2), (0x1680, 0x1680), (0x180B, 0x180F), (0x1AB0, 0x1ACE), (0x1DC0, 0x1DFF),
    (0x2000, 0x200F), (0x2028, 0x202F), (0x205F, 0x206F), (0x20D0, 0x20F0), (0x3000, 0x3000),
    (0x302A, 0x302F), (0x3099, 0x309A), (0xE000, 0xF8FF), (0xFE00, 0xFE0F), (0xFE20, 0xFE2F),
    (0xFEFF, 0xFEFF), (0xFFF0, 0xFFFB), (0xFFFE, 0xFFFF), (0x1D173, 0x1D17A), (0xE0000, 0x10FFFF)]

/-- A number in hexadecimal digits, without leading zeros. -/
def hexDigits (n : Nat) : List Char :=
  if n < 16 then [hexDigit n] else hexDigits (n / 16) ++ [hexDigit (n % 16)]
termination_by n

/-- One character of a string in a message, as a literal would hold it. -/
def showChar (c : Char) : List Char :=
  match c with
  | '"' => ['\\', '"']
  | '\\' => ['\\', '\\']
  | '\n' => ['\\', 'n']
  | '\r' => ['\\', 'r']
  | '\t' => ['\\', 't']
  | c =>
    if c.toNat = 0 then ['\\', '0']
    else if unmarked.any fun (first, last) => first ≤ c.toNat && c.toNat ≤ last then
      ['\\', 'u', '\x7b'] ++ hexDigits c.toNat ++ ['\x7d']
    else [c]

/-- A string in a message. -/
def shown (s : List Char) : String := String.ofList ('"' :: s.flatMap showChar ++ ['"'])

/-! ## Finding the end -/

/-- The value of a hexadecimal digit in either case. -/
def hexValue? (c : Char) : Option Nat :=
  if '0' ≤ c && c ≤ '9' then some (c.toNat - '0'.toNat)
  else if 'a' ≤ c && c ≤ 'f' then some (c.toNat - 'a'.toNat + 10)
  else if 'A' ≤ c && c ≤ 'F' then some (c.toNat - 'A'.toNat + 10)
  else none

/-- The value of four hexadecimal digits. -/
def hex4? (a b c d : Char) : Option Nat :=
  match hexValue? a, hexValue? b, hexValue? c, hexValue? d with
  | some a, some b, some c, some d => some (((a * 16 + b) * 16 + c) * 16 + d)
  | _, _, _, _ => none

/-- The fault of an escape that should go on with four hexadecimal digits but goes on with `t`. -/
def hexFault (t : List Char) : Fault :=
  if 4 ≤ String.utf8ByteSize (String.ofList (t.take 4)) then .invalidEscape else .endInString

/-- What a one-letter escape stands for. -/
def unescape? : Char → Option Char
  | '"' => some '"'
  | '\\' => some '\\'
  | '/' => some '/'
  | 'b' => some '\x08'
  | 'f' => some '\x0c'
  | 'n' => some '\n'
  | 'r' => some '\r'
  | 't' => some '\t'
  | _ => none

/-- What follows the characters `front`, once the rest is scanned. -/
def after (front : List Char) (r : Except Fault (List Char × List Char)) :
    Except Fault (List Char × List Char) :=
  r.map fun (taken, rest) => (front ++ taken, rest)

/-- Takes the rest of a string, its closing quote included. -/
def scan : List Char → Except Fault (List Char × List Char)
  | [] => .error .endInString
  | '"' :: r => .ok (['"'], r)
  | '\\' :: 'u' :: a :: b :: c :: d :: r =>
    match hex4? a b c d with
    | some _ => after ['\\', 'u', a, b, c, d] (scan r)
    | none => .error (hexFault [a, b, c, d])
  | '\\' :: 'u' :: r => .error (hexFault r)
  | '\\' :: e :: r =>
    match unescape? e with
    | some _ => after ['\\', e] (scan r)
    | none => .error .invalidEscape
  | ['\\'] => .error .endInString
  | c :: r => if c.toNat < 0x20 then .error .controlCharacter else after [c] (scan r)

/-! ## Reading -/

/-- Is it the first half of a surrogate pair? -/
def isLeading (n : Nat) : Bool := 0xD800 ≤ n && n ≤ 0xDBFF

/-- Is it the second half of a surrogate pair? -/
def isTrailing (n : Nat) : Bool := 0xDC00 ≤ n && n ≤ 0xDFFF

/-- The character of a surrogate pair. -/
def joinSurrogates (n m : Nat) : Char := Char.ofNat ((n - 0xD800) * 0x400 + (m - 0xDC00) + 0x10000)

/-- The fault of a leading surrogate that goes on with `t`, which is no further escape. -/
def pairFault : List Char → Fault
  | [] => .endInString
  | ['\\'] => .endInString
  | '\\' :: 'u' :: r => hexFault r
  | _ => .endOfHexEscape

/-- The content of a string up to its closing quote. -/
def read : List Char → Except Fault (List Char)
  | [] => .error .endInString
  | '"' :: _ => .ok []
  | '\\' :: 'u' :: a :: b :: c :: d :: r =>
    match hex4? a b c d with
    | none => .error (hexFault [a, b, c, d])
    | some n =>
      if isTrailing n then .error .loneSurrogate
      else if isLeading n then
        match r with
        | '\\' :: 'u' :: a :: b :: c :: d :: r =>
          match hex4? a b c d with
          | none => .error (hexFault [a, b, c, d])
          | some m =>
            if isTrailing m then (read r).map (joinSurrogates n m :: ·) else .error .loneSurrogate
        | r => .error (pairFault r)
      else (read r).map (Char.ofNat n :: ·)
  | '\\' :: 'u' :: r => .error (hexFault r)
  | '\\' :: e :: r =>
    match unescape? e with
    | some c => (read r).map (c :: ·)
    | none => .error .invalidEscape
  | ['\\'] => .error .endInString
  | c :: r => if c.toNat < 0x20 then .error .controlCharacter else (read r).map (c :: ·)

end Restoration.Json.Quoted
