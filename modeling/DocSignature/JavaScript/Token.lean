import DocSignature.JavaScript.Semicolon

/-!
# Tokens

Readers for the tokens that any phrase uses: marks, words and names. `peek` is the text from the next
token on, and every other reader here looks at it. A word is a longest run of name characters and of
escapes such as `\u0061`; a name is a word that is not reserved.
-/

namespace DocSignature.JavaScript

/-! ## Words in a text -/

/-- The number of characters of an escape inside a word. -/
def wordEscape? : List Char → Option Nat
  | '\\' :: 'u' :: '{' :: s =>
    let digits := s.takeWhile isHex
    if digits.isEmpty || s[digits.length]? != some '}' then none else some (digits.length + 4)
  | '\\' :: 'u' :: a :: b :: c :: d :: _ => if [a, b, c, d].all isHex then some 6 else none
  | _ => none

/-- The longest run of name characters and escapes, of which the first `n` characters are given. -/
def wordFrom : Nat → List Char → List Char
  | _, [] => []
  | n + 1, c :: s => c :: wordFrom n s
  | 0, c :: s =>
    if isNamePart c then c :: wordFrom 0 s
    else
      match wordEscape? (c :: s) with
      | some n => c :: wordFrom (n - 1) s
      | none => []

/-- The word at the front of a text. It is empty if there is none. -/
def wordOf (s : List Char) : List Char := if s.head?.any isDigit then [] else wordFrom 0 s

/-- The words that are never names. -/
def reserved : List String :=
  ["break", "case", "catch", "class", "const", "continue", "debugger", "default", "delete", "do",
   "else", "export", "extends", "false", "finally", "for", "function", "if", "import", "in",
   "instanceof", "new", "null", "return", "super", "switch", "this", "throw", "true", "try",
   "typeof", "var", "void", "while", "with"]

/-! ## Readers -/

/-- The input from the next token on. -/
def here : Reader Input := return (← get).next

/-- The text from the next token on. -/
def peek : Reader (List Char) := return (← here).rest

/-- The offset of the next token. -/
def start : Reader Nat := return (← here).offset

/-- Takes `n` characters from the next token on. -/
def take (n : Nat) : Reader Unit := do set ((← here).drop n)

/-- Whether a mark comes next. -/
def sees (mark : String) : Reader Bool := return mark.toList.isPrefixOf (← peek)

/-- Takes a mark if it comes next. -/
def tries (mark : String) : Reader Bool := do
  if ← sees mark then
    take mark.length
    return true
  else return false

/-- Takes a mark. -/
def mark (m : String) : Reader Unit := do guard (← tries m)

/-- The word that comes next. -/
def peekWord : Reader String := return String.ofList (wordOf (← peek))

/-- Takes a certain word if it comes next. -/
def triesWord (w : String) : Reader Bool := do
  if (← peekWord) == w then
    take w.length
    return true
  else return false

/-- Takes a certain word. -/
def word (w : String) : Reader Unit := do guard (← triesWord w)

/-- The text behind the word that comes next, from the token there on. -/
def peekBehindWord : Reader (List Char) := do
  let i ← here
  return (i.drop (wordOf i.rest).length).next.rest

/-- Takes `n` characters as a node without children. -/
def leaf (kind : String) (n : Nat) : Reader Node := do
  let s ← start
  take n
  Reader.node kind s []

/-- Any word as a node of some kind. -/
def anyWord (kind : String) : Reader Node := do
  let w := wordOf (← peek)
  guard !w.isEmpty
  leaf kind w.length

/-- A name as a node of some kind. -/
def name (kind : String) : Reader Node := do
  guard !(reserved.contains (← peekWord))
  anyWord kind

/-- A name behind a number sign. -/
def privateName : Reader Node := do
  match ← peek with
  | '#' :: s =>
    let w := wordOf s
    guard !w.isEmpty
    leaf "private_property_identifier" (w.length + 1)
  | _ => failure

/-- Whether the statement may end here without a semicolon. -/
def ended (complete : Bool) : Reader Bool := return semicolonAt complete (← get)

/-- A semicolon, or a place where it may be left out. -/
def semicolon (complete : Bool) : Reader Unit := do
  unless ← ended complete do mark ";"

/-- Whether an equals sign comes next that is no part of a longer mark. -/
def seesEquals : Reader Bool := do
  match ← peek with
  | '=' :: '=' :: _ => return false
  | '=' :: '>' :: _ => return false
  | '=' :: _ => return true
  | _ => return false

end DocSignature.JavaScript
