import DocSignature.JavaScript.Token

/-!
# Literals

Readers for numbers, strings and regular expressions. The length of a number is the longest that any
of its forms allows (`numberLength`). A string is a node with a child for each stretch of plain
characters and for each escape.

A line break inside a string is refused, except that gaps and comments that start with one may stand
before the closing quote; such a comment is a child as well.
-/

namespace DocSignature.JavaScript

/-! ## Numbers -/

/-- The length of the digits behind a digit, each behind at most one underscore. -/
def digitsBehind (digit : Char → Bool) : List Char → Nat
  | '_' :: c :: s => if digit c then digitsBehind digit s + 2 else 0
  | c :: s => if digit c then digitsBehind digit s + 1 else 0
  | [] => 0

/-- The length of digits with single underscores between them. -/
def digitsLength (digit : Char → Bool) : List Char → Nat
  | c :: s => if digit c then digitsBehind digit s + 1 else 0
  | [] => 0

/-- Adds a part that has to be there. -/
def plus (m n : Nat) : Nat := if m == 0 || n == 0 then 0 else m + n

/-- The length of a number in another base than ten. -/
def radixLength : List Char → Nat
  | '0' :: x :: s =>
    if x == 'x' || x == 'X' then plus 2 (digitsLength isHex s)
    else if x == 'o' || x == 'O' then plus 2 (digitsLength isOctal s)
    else if x == 'b' || x == 'B' then plus 2 (digitsLength (fun c => c == '0' || c == '1') s)
    else 0
  | _ => 0

/-- The length of a whole part, which may start with one zero. -/
def wholeLength : List Char → Nat
  | '0' :: c :: s => if isDigit c && c != '0' then digitsBehind isDigit s + 2 else 1
  | '0' :: [] => 1
  | s => digitsLength isDigit s

/-- The length of an exponent. -/
def exponentLength : List Char → Nat
  | e :: s =>
    if e == 'e' || e == 'E' then
      if s.head? == some '+' || s.head? == some '-' then plus 2 (digitsLength isDigit (s.drop 1))
      else plus 1 (digitsLength isDigit s)
    else 0
  | [] => 0

/-- The length of a point with the digits and the exponent behind it. -/
def pointLength : List Char → Nat
  | '.' :: s =>
    let digits := digitsLength isDigit s
    digits + exponentLength (s.drop digits) + 1
  | _ => 0

/-- The length of a number that starts with its point. -/
def fractionLength : List Char → Nat
  | '.' :: s => if s.head?.any isDigit then pointLength ('.' :: s) else 0
  | _ => 0

/-- The length of the longest number at the front of a text. It is zero if there is none. -/
def numberLength (s : List Char) : Nat :=
  let radix := radixLength s
  let digits := digitsLength isDigit s
  let whole := wholeLength s
  let big (n : Nat) : Nat := if s[n]? == some 'n' then plus n 1 else 0
  [radix, digits, fractionLength s, plus whole (pointLength (s.drop whole)),
    plus whole (exponentLength (s.drop whole)), big radix, big digits].foldl max 0

/-- A number. -/
def number : Reader Node := do
  let n := numberLength (← peek)
  guard (0 < n)
  leaf "number" n

/-! ## Strings -/

/-- The number of characters of an escape behind its backslash. -/
def escapeLength? : List Char → Option Nat
  | [] => none
  | 'x' :: s => if (s.take 2).length == 2 && (s.take 2).all isHex then some 3 else none
  | 'u' :: '{' :: s =>
    let digits := s.takeWhile isHex
    if digits.isEmpty || s[digits.length]? != some '}' then none else some (digits.length + 3)
  | 'u' :: s => if (s.take 4).length == 4 && (s.take 4).all isHex then some 5 else none
  | c :: s =>
    if isOctal c then some (((c :: s).take 3).takeWhile isOctal).length
    else if (c == '\r' || c == '?') && s.head?.any isBreak then some 2
    else some 1

/-- Takes `n` characters right here as a part of a literal. -/
def part (kind : String) (n : Nat) : Reader Node := do
  let o := (← get).offset
  Reader.skip n
  Reader.node kind o []

/-- An escape right here. -/
def escape : Reader Node := do
  match (← get).rest with
  | '\\' :: s =>
    match escapeLength? s with
    | some n => part "escape_sequence" (n + 1)
    | none => failure
  | _ => failure

/-- The length of the comment at the front of a text. -/
def commentLength? (s : List Char) : Option Nat :=
  let i : Input := ⟨0, s⟩
  match s, i.afterComments with
  | '/' :: _, behind :: _ => some (s.length - behind.length)
  | _, _ => none

/-- What may stand between a line break in a string and the closing quote: gaps, and at most one
comment. -/
def stringGap (quote : Char) : Reader (List Node) := do
  modify fun i => i.drop (i.rest.takeWhile isGap).length
  let s := (← get).rest
  match commentLength? s with
  | some n => return [← part "comment" n]
  | none =>
    guard (s.head? == some quote)
    return []

/-- The next part of a string, unless its closing quote is here. -/
def stringPart? (quote : Char) : Reader (Option (List Node)) := do
  match (← get).rest with
  | [] => failure
  | c :: s =>
    if c == quote then return none
    else if c == '\\' then return some [← escape]
    else if c == '\n' || c == '\r' then return some (← stringGap quote)
    else
      let plain := (c :: s).takeWhile fun c => c != quote && c != '\\' && c != '\n' && c != '\r'
      return some [← part "string_fragment" plain.length]

/-- A string. -/
def string : Reader Node := do
  let s ← start
  match ← peek with
  | quote :: _ =>
    guard (quote == '\x22' || quote == '\x27')
    take 1
    let parts ← Reader.many (stringPart? quote)
    Reader.skip 1
    Reader.node "string" s parts.flatten
  | [] => failure

/-! ## Regular expressions -/

/-- The length of the body of a regular expression up to its closing slash. `inClass` tells whether
the text is between brackets. -/
def regexLength? (inClass : Bool) : List Char → Option Nat
  | [] => none
  | '\n' :: _ => none
  | '\\' :: '\n' :: _ => none
  | '\\' :: _ :: s => (regexLength? inClass s).map (· + 2)
  | '[' :: s => (regexLength? true s).map (· + 1)
  | ']' :: s => (regexLength? false s).map (· + 1)
  | '/' :: s => if inClass then (regexLength? true s).map (· + 1) else some 0
  | _ :: s => (regexLength? inClass s).map (· + 1)

/-- A regular expression with its flags. -/
def regex : Reader Node := do
  match ← peek with
  | '/' :: s =>
    match regexLength? false s with
    | some n =>
      guard (0 < n)
      let flags := (s.drop (n + 1)).takeWhile fun c => 'a' ≤ c && c ≤ 'z'
      leaf "regex" (n + 2 + flags.length)
    | none => failure
  | _ => failure

end DocSignature.JavaScript
