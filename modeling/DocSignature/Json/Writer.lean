import DocSignature.Json.Value

/-!
# Writing JSON

Values are written without blanks. `Json.ascii` writes every character outside the printable range
of ASCII as an escape of its 16-bit units, so any text can be written, lone surrogates included.
`Json.plain` escapes only what JSON demands.
-/

namespace DocSignature.Json

/-- The letter that stands for a character behind a backslash. -/
def escapeLetter? (p : CodePoint) : Option Char :=
  if p.val = 0x22 then some '"'
  else if p.val = 0x5C then some '\\'
  else if p.val = 0x08 then some 'b'
  else if p.val = 0x0C then some 'f'
  else if p.val = 0x0A then some 'n'
  else if p.val = 0x0D then some 'r'
  else if p.val = 0x09 then some 't'
  else none

/-- A hexadecimal digit in lower case. -/
def hexDigit (n : Nat) : Char :=
  if n < 10 then Char.ofNat ('0'.toNat + n) else Char.ofNat ('a'.toNat + (n - 10))

/-- The last `width` hexadecimal digits of a number. -/
def hexDigits : Nat → Nat → List Char
  | 0, _ => []
  | width + 1, n => hexDigits width (n / 16) ++ [hexDigit (n % 16)]

/-- A 16-bit unit as an escape. -/
def escapeUnit (n : Nat) : List Char := '\\' :: 'u' :: hexDigits 4 n

/-- A code point inside a string, with only ASCII characters. -/
def asciiPoint (p : CodePoint) : List Char :=
  match escapeLetter? p with
  | some c => ['\\', c]
  | none =>
    if 0x20 ≤ p.val && p.val ≤ 0x7E then [Char.ofNat p.val] else p.units.flatMap escapeUnit

/-- A code point inside a string, escaped only if it is a control character, a quote or a
backslash. -/
def plainPoint (p : CodePoint) : List Char :=
  match escapeLetter? p with
  | some c => ['\\', c]
  | none => if p.val < 0x20 || p.isSurrogate then p.units.flatMap escapeUnit else [Char.ofNat p.val]

/-- A string between its quotes. -/
def quoted (point : CodePoint → List Char) (t : Text) : List Char :=
  '"' :: t.flatMap point ++ ['"']

/-- The text of a floating point number. -/
def floatText : Binary64 → List Char
  | .nan => "NaN".toList
  | .infinity negative => (if negative then "-Infinity" else "Infinity").toList
  | x => x.render.toList

/-- The digits of a whole number with its sign. -/
def intText (n : Int) : List Char :=
  (if n < 0 then ['-'] else []) ++ Numeral.decimal n.natAbs

mutual

/-- Writes a value, with `point` for the characters of strings. -/
def write (point : CodePoint → List Char) : Json → List Char
  | .null => "null".toList
  | .bool b => (if b then "true" else "false").toList
  | .int n => intText n
  | .float x => floatText x
  | .str t => quoted point t
  | .arr items => '[' :: writeItems point items ++ [']']
  | .obj members => '{' :: writeMembers point members ++ ['}']

/-- Writes the items of an array. -/
def writeItems (point : CodePoint → List Char) : List Json → List Char
  | [] => []
  | [item] => write point item
  | item :: items => write point item ++ ',' :: writeItems point items

/-- Writes the members of an object. -/
def writeMembers (point : CodePoint → List Char) : List (Text × Json) → List Char
  | [] => []
  | [(key, item)] => quoted point key ++ ':' :: write point item
  | (key, item) :: members =>
    quoted point key ++ ':' :: write point item ++ ',' :: writeMembers point members

end

/-- A value in ASCII. -/
def ascii (j : Json) : String := String.ofList (j.write asciiPoint)

/-- A value with its characters as they are. -/
def plain (j : Json) : String := String.ofList (j.write plainPoint)

end DocSignature.Json
