import DocSignature.JavaScript.Phrase

/-!
# Markup elements

An element such as `<a b={c}>text</a>` is an operand of an expression. Between its tags stand text,
references such as `&amp;`, expressions in braces and further elements. The name in the closing tag
need not be that in the opening tag.
-/

namespace DocSignature.JavaScript

/-! ## References and quoted values -/

/-- The length of a reference without its ampersand. -/
def referenceLength? (s : List Char) : Option Nat :=
  let run (skip most : Nat) (p : Char → Bool) : Option Nat :=
    let n := ((s.drop skip).takeWhile p).length
    if 0 < n && n ≤ most && s[skip + n]? == some ';' then some (skip + n + 1) else none
  match s with
  | '#' :: x :: _ => if x == 'x' || x == 'X' then run 2 6 isHex else run 1 5 isDigit
  | _ => run 0 30 fun c => ('a' ≤ c && c ≤ 'z') || ('A' ≤ c && c ≤ 'Z')

/-- Whether an ampersand before a text may stand for itself in a quoted value. -/
def isPlainAmpersand (s : List Char) : Bool :=
  !s.head?.any fun c => c == '#' || ('a' ≤ c && c ≤ 'z') || ('A' ≤ c && c ≤ 'Z')

/-- The length of a quoted value up to its closing quote. -/
def valueLength? (quote : Char) : List Char → Option Nat
  | [] => none
  | c :: s =>
    if c == quote then some 0
    else if c == '&' && !isPlainAmpersand s && (referenceLength? s).isNone then none
    else (valueLength? quote s).map (· + 1)

/-- A quoted value. -/
def quotedValue : Reader Node := do
  match ← peek with
  | quote :: s =>
    guard (quote == '\x22' || quote == '\x27')
    match valueLength? quote s with
    | some n => leaf "string" (n + 2)
    | none => failure
  | [] => failure

/-! ## Tags -/

/-- Whether a character may stand behind a hyphen in the name of an element. -/
def isTagPart (c : Char) : Bool :=
  isDigit c || ('a' ≤ c && c ≤ 'z') || ('A' ≤ c && c ≤ 'Z') || c == '_' || c == '$' || c == '-'

/-- A word with hyphens. -/
def tagWord : Reader Unit := do
  let t ← peek
  let w := wordOf t
  guard !w.isEmpty
  let behind := t.drop w.length
  take (w.length + if behind.head? == some '-' then (behind.takeWhile isTagPart).length else 0)

/-- The name of an element: a word, a member, or a word in a namespace. -/
def tagName : Reader Unit := do
  guard !(reserved.contains (← peekWord))
  tagWord
  if ← tries ":" then tagWord
  else
    let _ ← Reader.many do
      if ← tries "." then return some (← anyWord "property_identifier") else return none

variable (read : Grammar)

/-- An expression or a spread in braces. The braces may be empty. -/
def inBraces : Reader Node := do
  let s ← start
  mark "\x7b"
  let items ←
    if ← sees "\x7d" then pure []
    else if ← sees "..." then pure [← spreadable read]
    else pure [← expressions read {}]
  mark "\x7d"
  Reader.node "jsx_expression" s items

/-- The value of an attribute. -/
def attributeValue : Reader Node := do
  match ← peek with
  | '{' :: _ => inBraces read
  | '<' :: _ => read .element
  | _ => quotedValue

/-- The attributes in an opening tag. -/
def attributes : Reader (List Node) :=
  Reader.many do
    if ← sees "\x7b" then return some (← inBraces read)
    else if (← peekWord).isEmpty then return none
    else
      let s ← start
      tagWord
      if ← tries ":" then tagWord
      if ← tries "=" then
        return some (← Reader.node "jsx_attribute" s [← attributeValue read])
      else return some (← Reader.node "jsx_attribute" s [])

/-- What stands between two tags, up to a closing tag. -/
def content : Reader (List Node) := do
  let items ← Reader.many do
    match (← get).rest with
    | [] => failure
    | '<' :: '/' :: _ => return none
    | '<' :: _ => return some [← read .element]
    | '{' :: _ => return some [← inBraces read]
    | '&' :: s =>
      match referenceLength? s with
      | some n =>
        Reader.skip (n + 1)
        return some []
      | none => failure
    | s =>
      let plain := s.takeWhile fun c => !(['<', '>', '{', '}', '&'].contains c)
      guard !plain.isEmpty
      Reader.skip plain.length
      return some []
  return items.flatten

/-- What follows an opening tag: the content and the closing tag. -/
def elementBehind (s : Nat) (front : List Node) : Reader Node := do
  let items ← content read
  mark "</"
  unless ← sees ">" do tagName
  mark ">"
  Reader.node "jsx_element" s (front ++ items)

/-- An element. -/
def element : Reader Node := do
  let s ← start
  mark "<"
  if ← tries ">" then elementBehind read s []
  else
    tagName
    let front ← attributes read
    if ← tries "/>" then Reader.node "jsx_self_closing_element" s front
    else
      mark ">"
      elementBehind read s front

end DocSignature.JavaScript
