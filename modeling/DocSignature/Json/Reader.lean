import DocSignature.Json.Value

/-!
# Reading JSON

`Json.read` reads a whole text, or tells the position of the first character that cannot be right.
Each reader takes the characters that remain and returns its value with the characters behind it;
where it fails it returns the characters from the failure on, so the position is the difference of
two lengths.

The words `NaN`, `Infinity` and `-Infinity` are numbers. Control characters may not stand in a
string.
-/

namespace DocSignature.Json

/-- A value and the characters behind it, or the characters from the point of failure on. -/
abbrev Step (α : Type) := Except (List Char) (α × List Char)

/-- Whether a character is white space between tokens. -/
def isGap (c : Char) : Bool := c == ' ' || c == '\t' || c == '\n' || c == '\r'

/-- Drops white space. -/
def skipGap (s : List Char) : List Char := s.dropWhile isGap

/-- Drops a word from the front of a text. -/
def dropWord? : List Char → List Char → Option (List Char)
  | [], s => some s
  | _ :: _, [] => none
  | w :: ws, c :: s => if w == c then dropWord? ws s else none

/-! ## Strings -/

/-- The character that a letter stands for behind a backslash. -/
def unescape? : Char → Option Char
  | '"' => some '"'
  | '\\' => some '\\'
  | '/' => some '/'
  | 'b' => some '\x08'
  | 'f' => some '\x0c'
  | 'n' => some '\n'
  | 'r' => some '\r'
  | 't' => some '\t'
  | _ => none

/-- The code that four hexadecimal digits spell. -/
def hexCode? (a b c d : Char) : Option CodePoint := do
  let a ← Numeral.digitIn? 16 a
  let b ← Numeral.digitIn? 16 b
  let c ← Numeral.digitIn? 16 c
  let d ← Numeral.digitIn? 16 d
  CodePoint.ofNat? (((a * 16 + b) * 16 + c) * 16 + d)

/-- Reads the characters of a string up to its closing quote. `start` is the text from the opening
quote on, where a string without an end goes wrong. -/
def stringFrom (start : List Char) : List Char → Step Text
  | [] => .error start
  | '"' :: s => .ok ([], s)
  | '\\' :: s =>
    match s with
    | [] => .error start
    | 'u' :: a :: b :: c :: d :: s =>
      -- The four digits may not be the last characters: a quote must follow.
      if s.isEmpty then .error ('u' :: a :: b :: c :: d :: s)
      else
        match hexCode? a b c d with
        | some p => (stringFrom start s).map fun r => (p :: r.1, r.2)
        | none => .error ('u' :: a :: b :: c :: d :: s)
    | 'u' :: s => .error ('u' :: s)
    | e :: s =>
      match unescape? e with
      | some c => (stringFrom start s).map fun r => (CodePoint.ofChar c :: r.1, r.2)
      | none => .error ('\\' :: e :: s)
  | c :: s =>
    if c < ' ' then .error (c :: s)
    else (stringFrom start s).map fun r => (CodePoint.ofChar c :: r.1, r.2)

/-- Reads a string from its opening quote on. Surrogate pairs that were written as two escapes are
joined. -/
def string : List Char → Step Text
  | '"' :: s => (stringFrom ('"' :: s) s).map fun r => (Text.joinPairs r.1, r.2)
  | s => .error s

/-! ## Numbers -/

/-- Splits off the digits of a whole number: a zero alone, or digits that do not begin with one. -/
def splitWhole : List Char → List Char × List Char
  | '0' :: s => (['0'], s)
  | s => (s.takeWhile Decimal.isDigit, s.dropWhile Decimal.isDigit)

/-- Splits off a point with digits behind it, if both are there. -/
def splitPoint : List Char → List Char × List Char
  | '.' :: s =>
    let digits := s.takeWhile Decimal.isDigit
    if digits.isEmpty then ([], '.' :: s) else ('.' :: digits, s.dropWhile Decimal.isDigit)
  | s => ([], s)

/-- Splits off an exponent with its mark, if digits follow the mark. -/
def splitExponent : List Char → List Char × List Char
  | e :: s =>
    let sign := s.takeWhile (fun c => c == '+' || c == '-') |>.take 1
    let digits := (s.drop sign.length).takeWhile Decimal.isDigit
    if (e == 'e' || e == 'E') && !digits.isEmpty then
      (e :: sign ++ digits, (s.drop sign.length).dropWhile Decimal.isDigit)
    else ([], e :: s)
  | [] => ([], [])

/-- Reads a number without its sign. It is a floating point number if it has a point or an
exponent. -/
def unsignedNumber (negative : Bool) (s : List Char) : Option (Json × List Char) :=
  let (whole, s) := splitWhole s
  if whole.isEmpty then none
  else
    let (point, s) := splitPoint s
    let (exponent, s) := splitExponent s
    if point.isEmpty && exponent.isEmpty then
      some (.int (Numeral.withSign negative (Decimal.digitsValue whole)), s)
    else
      (Decimal.unsigned? (whole ++ point ++ exponent)).map fun d =>
        (.float (Decimal.Reading.toBinary64 (.finite negative d)), s)

/-- Reads a number. -/
def number (s : List Char) : Step Json :=
  let read :=
    match s with
    | '-' :: r => unsignedNumber true r
    | r => unsignedNumber false r
  match read with
  | some r => .ok r
  | none => .error s

/-- The words that are values. -/
def words : List (String × Json) :=
  [("null", .null), ("true", .bool true), ("false", .bool false), ("NaN", .float .nan),
   ("Infinity", .float (.infinity false)), ("-Infinity", .float (.infinity true))]

/-- Reads a value that holds no other values. -/
def scalar (s : List Char) : Step Json :=
  match s with
  | '"' :: _ => (string s).map fun r => (.str r.1, r.2)
  | _ =>
    match words.findSome? fun w => (dropWord? w.1.toList s).map (w.2, ·) with
    | some r => .ok r
    | none => number s

/-! ## Values -/

mutual

/-- Reads a value. The first argument bounds the number of readers at work at once. -/
def value : Nat → List Char → Step Json
  | 0, s => .error s
  | n + 1, s =>
    match s with
    | '[' :: r =>
      match skipGap r with
      | ']' :: r => .ok (.arr [], r)
      | r => (items n r).map fun p => (.arr p.1, p.2)
    | '{' :: r =>
      match skipGap r with
      | '}' :: r => .ok (.obj [], r)
      | r => (members n r).map fun p => (.obj p.1, p.2)
    | _ => scalar s

/-- Reads the items of an array and its closing bracket. -/
def items : Nat → List Char → Step (List Json)
  | 0, s => .error s
  | n + 1, s =>
    match value n s with
    | .error r => .error r
    | .ok (item, r) =>
      match skipGap r with
      | ']' :: r => .ok ([item], r)
      | ',' :: r => (items n (skipGap r)).map fun p => (item :: p.1, p.2)
      | r => .error r

/-- Reads the members of an object and its closing brace. -/
def members : Nat → List Char → Step (List (Text × Json))
  | 0, s => .error s
  | n + 1, s =>
    match string s with
    | .error r => .error r
    | .ok (key, r) =>
      match skipGap r with
      | ':' :: r =>
        match value n (skipGap r) with
        | .error r => .error r
        | .ok (item, r) =>
          match skipGap r with
          | '}' :: r => .ok ([(key, item)], r)
          | ',' :: r => (members n (skipGap r)).map fun p => ((key, item) :: p.1, p.2)
          | r => .error r
      | r => .error r

end

/-- Drops a byte order mark from the front of a text. -/
def dropMark : List Char → List Char
  | '\uFEFF' :: s => s
  | s => s

/-- Reads a text that holds one value and nothing else but white space. -/
def document (s : List Char) : Except (List Char) Json :=
  match value (2 * s.length + 2) (skipGap s) with
  | .error r => .error r
  | .ok (item, r) =>
    match skipGap r with
    | [] => .ok item
    | r => .error r

/-- Reads a whole text as one value, or tells the position, in characters, of what is wrong. A byte
order mark in front is not counted. -/
def read (text : List Char) : Except Nat Json :=
  let s := dropMark text
  (document s).mapError fun rest => s.length - rest.length

end DocSignature.Json
