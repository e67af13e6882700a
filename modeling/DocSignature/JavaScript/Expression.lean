import DocSignature.JavaScript.Element
import DocSignature.JavaScript.Property

/-!
# Expressions

An expression is a chain of operands and binary operators, and perhaps a condition with two branches
(`expression`). How the operators bind is not recorded: the operands of a chain are the children of one
node. An operand is a primary expression with what follows it (members, calls), behind any number of
unary operators. An assignment counts as an operand, and so does an arrow function; both take all that
follows them.

What arrow functions and assignments bind is read as an expression first.
-/

namespace DocSignature.JavaScript

/-! ## Braces -/

/-- What follows the bracket that closes those at the front of a text, of which `depth` are open.
Brackets inside quotes are passed over. -/
def behindBrackets (depth : Nat) : Option Char → List Char → List Char
  | _, [] => []
  | some q, '\\' :: _ :: s => behindBrackets depth (some q) s
  | some q, c :: s => behindBrackets depth (if c == q then none else some q) s
  | none, c :: s =>
    if c == '(' || c == '[' then behindBrackets (depth + 1) none s
    else if c == ')' || c == ']' then
      if depth ≤ 1 then s else behindBrackets (depth - 1) none s
    else behindBrackets depth (if ['\x22', '\x27', '\x60'].contains c then some c else none) s

/-- The text from the next token on. -/
def tokenOf (s : List Char) : List Char := (Input.next ⟨0, s⟩).rest

/-- The text behind a word, from the token there on. -/
def behindWord (s : List Char) : List Char := tokenOf (s.drop (wordOf s).length)

/-- Whether no line breaks before the next token of a text. -/
def nextOnLine (s : List Char) : Bool :=
  let i : Input := ⟨0, s⟩
  !(i.before i.next.offset).any isBreak

/-- Whether a text starts with a name and a colon, as a label does and a member of an object. -/
def startsLabel (s : List Char) : Bool :=
  !(wordOf s).isEmpty && (behindWord s).head? == some ':'

/-- Whether braces with this text in them, where a block could stand, must be those of an object. -/
def startsMembers (s : List Char) : Bool :=
  let colonBehind (t : List Char) : Bool := (tokenOf t).head? == some ':'
  match s with
  | '.' :: '.' :: '.' :: _ => true
  | '*' :: _ => true
  | '[' :: _ => colonBehind (behindBrackets 0 none s)
  | '\x22' :: t => colonBehind ((t.dropWhile (· != '\x22')).drop 1)
  | '\x27' :: t => colonBehind ((t.dropWhile (· != '\x27')).drop 1)
  | _ =>
    let w := wordOf s
    if w.isEmpty then 0 < numberLength s && colonBehind (s.drop (numberLength s))
    else startsMethod (String.ofList w) (s.drop w.length)
where
  /-- Whether a word and the text behind it start a method of an object. -/
  startsMethod (w : String) (behind : List Char) : Bool :=
    let t := tokenOf behind
    if t.head? == some '(' then
      let body := behindBrackets 0 none t
      !(reserved.contains w) && (tokenOf body).head? == some '{' && nextOnLine body
    else if !nextOnLine behind then false
    else if w == "async" then
      t.head? == some '*' || (!(wordOf t).isEmpty && wordOf t != "function".toList &&
        (behindWord t).head? == some '(')
    else ["get", "set", "static"].contains w && startsProperty t && t.head? != some '['

variable (read : Grammar)

/-- An expression that starts with a brace and is no pattern. -/
def objectFirst (place : Place) : Reader Node := do
  let e ← expressions read place
  guard !e.flagged
  return e

/-- What a brace starts where a block could stand: an object if it must be one, or if it could be one
and its first member would be a label in a block, and a block otherwise. -/
def braces (ofObject ofBlock : Reader Node) : Reader Node := do
  let s := tokenOf ((← peek).drop 1)
  if startsMembers s then ofObject
  else if startsLabel s then ofObject <|> ofBlock
  else ofBlock

/-! ## Arrow functions -/

/-- The body of an arrow function. -/
def arrowBody (place : Place) : Reader Node := do
  if ← sees "\x7b" then
    braces (do
      let e ← read (.expression place)
      guard !e.flagged
      return e) (block read)
  else read (.expression place)

/-- An arrow function behind its parameters. -/
def arrowBehind (place : Place) (s : Nat) (params : Node) : Reader Node := do
  mark "=>"
  let body ← arrowBody read place
  Reader.node "arrow_function" s [params, fill "body" body]

/-- An arrow function behind parameters that were read as slots. -/
def arrowOfSlots (place : Place) (s opening : Nat) (items : List (Option Node)) : Reader Node := do
  let params ← Reader.node "formal_parameters" opening (← asParameters items)
  arrowBehind read place s (fill "parameters" params)

/-- A name, or an arrow function with that one parameter. -/
def nameOrArrow (place : Place) : Reader Node := do
  let s ← start
  if (← peekWord) == "undefined" then leaf "undefined" 9
  else
    let n ← if (← peekWord) == "export" then anyWord "identifier" else name "identifier"
    if ← sees "=>" then arrowBehind read place s (fill "parameter" n) else return n

/-- Expressions in parentheses, or an arrow function with these parameters. -/
def parensOrArrow (place : Place) : Reader Node := do
  let s ← start
  mark "("
  let items ← slots read ")"
  if ← sees "=>" then arrowOfSlots read place s s items
  else
    match items.mapM id with
    | some (first :: rest) =>
      guard !((first :: rest).any (·.kind == "spread_element"))
      let inner :=
        match rest.getLast? with
        | some last =>
          Node.make "sequence_expression" first.start last.stop none true false (first :: rest)
        | none => first
      Reader.node "parenthesized_expression" s [inner]
    | _ => failure

/-- What the word `async` starts: a function, an arrow function, a call, or a name. -/
def asyncFirst (place : Place) : Reader Node := do
  let i ← here
  let behind := i.drop 5
  let t := behind.next.rest
  if place.ends && semicolonAt true behind then nameOrArrow read place
  else if wordOf t == "function".toList then
    set behind
    functionExpression read i.offset
  else if t.head? == some '(' then
    let callee ← leaf "identifier" 5
    let s ← start
    mark "("
    let items ← slots read ")"
    if ← sees "=>" then arrowOfSlots read place i.offset s items
    else
      let args ← Reader.node "arguments" s (items.filterMap id)
      Reader.node "call_expression" i.offset [fill "function" callee, fill "arguments" args]
  else if !(wordOf t).isEmpty && "=>".toList.isPrefixOf (behindWord t) then
    set behind
    let n ← name "identifier"
    arrowBehind read place i.offset (fill "parameter" n)
  else nameOrArrow read place

/-! ## Templates -/

/-- The next part of a template, unless its closing mark is here. -/
def templatePart? : Reader (Option (List Node)) := do
  match (← get).rest with
  | [] => failure
  | '\x60' :: _ => return none
  | '\\' :: _ => return some [← escape]
  | '$' :: '{' :: _ =>
    let s := (← get).offset
    Reader.skip 2
    let e ← expressions read {}
    mark "\x7d"
    return some [← Reader.node "template_substitution" s [e]]
  | c :: s =>
    let plain := s.takeWhile fun c => c != '\x60' && c != '\\' && c != '$'
    return some [← part "string_fragment" (c :: plain).length]

/-- A template. -/
def template : Reader Node := do
  let s ← start
  mark "\x60"
  let parts ← Reader.many (templatePart? read)
  Reader.skip 1
  Reader.node "template_string" s parts.flatten

/-! ## Primary expressions and what follows them -/

/-- What the word `new` starts: its target, or the construction of a value. -/
def construction : Reader Node := do
  let s ← start
  word "new"
  if ← tries "." then
    word "target"
    Reader.node "meta_property" s []
  else
    let made ← read .constructed
    let args ← if ← sees "(" then pure [fill "arguments" (← arguments read)] else pure []
    Reader.node "new_expression" s (fill "constructor" made :: args)

/-- What the word `import` starts in an expression. -/
def importFirst : Reader Node := do
  let n ← leaf "import" 6
  match ← peek with
  | '(' :: _ => return n
  | '.' :: s =>
    if wordOf (tokenOf s) == "meta".toList then
      mark "."
      word "meta"
      Reader.node "meta_property" n.start []
    else return n
  | _ => failure

/-- A primary expression. -/
def primary (place : Place) : Reader Node := do
  let t ← peek
  if 0 < numberLength t then number
  else
    match t with
    | '(' :: _ => parensOrArrow read place
    | '[' :: _ => array read
    | '{' :: _ => read .object
    | '\x60' :: _ => template read
    | '\x22' :: _ => string
    | '\x27' :: _ => string
    | '/' :: _ => regex
    | '<' :: _ => read .element
    | '@' :: _ => classBehind read "class" (← start) (← decorators read)
    | _ =>
      match String.ofList (wordOf t) with
      | "function" => functionExpression read (← start)
      | "class" => classBehind read "class" (← start) []
      | "this" => leaf "this" 4
      | "super" => leaf "super" 5
      | "null" => leaf "null" 4
      | "true" => leaf "true" 4
      | "false" => leaf "false" 5
      | "new" => construction read
      | "import" => importFirst
      | "async" => asyncFirst read place
      | _ => nameOrArrow read place

/-- A member of what was read, behind its mark. -/
def memberBehindMark (n : Node) : Reader Node := do
  let p ← if ← sees "#" then privateName else anyWord "property_identifier"
  Reader.node "member_expression" n.start [fill "object" n, fill "property" p]

/-- An indexed part of what was read. -/
def subscript (n : Node) : Reader Node := do
  mark "["
  let index ← expressions read {}
  mark "]"
  Reader.node "subscript_expression" n.start [fill "object" n, fill "index" index]

/-- A call of what was read. -/
def call (n : Node) : Reader Node := do
  let args ← arguments read
  Reader.node "call_expression" n.start [fill "function" n, fill "arguments" args]

/-- A template with what was read as its tag. -/
def tagged (n : Node) : Reader Node := do
  let t ← template read
  Reader.node "call_expression" n.start [fill "function" n, fill "arguments" t]

/-- What was read with the next of what may follow a primary expression. Where `whole` is false, calls
and updates do not count. -/
def followed? (whole : Bool) (place : Place) (n : Node) : Reader (Option Node) := do
  if ← place.ended then return none
  else
    match ← peek with
    | '.' :: _ =>
      mark "."
      return some (← memberBehindMark n)
    | '?' :: '.' :: s =>
      if s.head?.any isDigit then return none
      else
        mark "?."
        match ← peek with
        | '(' :: _ => return some (← call read n)
        | '[' :: _ => return some (← subscript read n)
        | _ => return some (← memberBehindMark n)
    | '[' :: _ => return some (← subscript read n)
    | '\x60' :: _ => return some (← tagged read n)
    | '(' :: _ => if whole then return some (← call read n) else return none
    | a :: b :: _ =>
      if whole && a == b && (a == '+' || a == '-') then
        take 2
        return some (← Reader.node "update_expression" n.start [n])
      else return none
    | _ => return none

/-- What is constructed by `new`: a primary expression or another construction, without a call. -/
def constructed : Reader Node := do
  let first ← if (← peekWord) == "new" then construction read else primary read {}
  Reader.iterate (followed? read false {}) first

/-! ## Operands -/

/-- The kinds that an equals sign may follow. -/
def isAssignable (n : Node) : Bool :=
  isPlace n || ["array", "object", "parenthesized_expression"].contains n.kind

/-- The kinds that an operator with an equals sign may follow. -/
def isAugmentable (n : Node) : Bool :=
  ["identifier", "member_expression", "subscript_expression", "parenthesized_expression"].contains
    n.kind

/-- The operators that end in an equals sign. -/
def augmentedMarks : List (List Char) :=
  [">>>=", "**=", "<<=", ">>=", "&&=", "||=", "??=", "+=", "-=", "*=", "/=", "%=", "^=", "&=",
   "|="].map String.toList

/-- An assignment, or what could be its left side alone. -/
def assignment (place : Place) : Reader Node := do
  let first ← primary read place
  let left ← Reader.iterate (followed? read true place) first
  if ← place.ended then return left
  else if isAssignable left && (← seesEquals) then
    let left ← if ["array", "object"].contains left.kind then asDestructuring left else pure left
    mark "="
    let right ← read (.expression place)
    Reader.node "assignment_expression" left.start [fill "left" left, fill "right" right]
  else
    let t ← peek
    match augmentedMarks.find? (·.isPrefixOf t) with
    | some m =>
      if isAugmentable left then
        take m.length
        let right ← read (.expression place)
        Reader.node "augmented_assignment_expression" left.start
          [fill "left" left, fill "right" right]
      else return left
    | none => return left

/-- The reserved words that start an expression. -/
def leadingWords : List String :=
  ["class", "delete", "false", "function", "import", "new", "null", "super", "this", "true",
   "typeof", "void"]

/-- Whether a text starts with an operand. -/
def startsOperand (s : List Char) : Bool :=
  let w := String.ofList (wordOf s)
  s.head?.any "([\x7b\x60\x22\x27/<@!~+-#".toList.contains || 0 < numberLength s ||
    (!w.isEmpty && (!(reserved.contains w) || leadingWords.contains w))

/-- An operator of `n` characters in front of an operand. -/
def unary (kind : String) (n : Nat) (place : Place) : Reader Node := do
  let s ← start
  take n
  let argument ← read (.operand place)
  Reader.node kind s [fill "argument" argument]

/-- What the word `await` starts: an operand that is waited for, or a name. -/
def awaitFirst (place : Place) : Reader Node := do
  let behind := (← here).drop 5
  if (place.ends && semicolonAt true behind) || !startsOperand behind.next.rest then
    assignment read place
  else unary read "await_expression" 5 place

/-- What the word `yield` starts. It takes a whole expression, or nothing. -/
def yieldFirst (place : Place) : Reader Node := do
  let s ← start
  word "yield"
  if ← tries "*" then
    Reader.node "yield_expression" s [← read (.expression place)]
  else if !(← place.ended) && startsOperand (← peek) then
    Reader.node "yield_expression" s [← read (.expression place)]
  else Reader.node "yield_expression" s []

/-- An operand. A private name is one where it is looked for in an object. -/
def operand (place : Place) : Reader Node := do
  skipPageComments
  match ← peek with
  | '+' :: '+' :: _ => unary read "update_expression" 2 place
  | '-' :: '-' :: _ => unary read "update_expression" 2 place
  | '#' :: _ =>
    let n ← privateName
    guard ((← peekWord) == "in")
    return n
  | c :: _ =>
    if ['!', '~', '+', '-'].contains c then unary read "unary_expression" 1 place
    else
      match ← peekWord with
      | "typeof" => unary read "unary_expression" 6 place
      | "void" => unary read "unary_expression" 4 place
      | "delete" => unary read "unary_expression" 6 place
      | "await" => awaitFirst read place
      | "yield" => yieldFirst read place
      | _ => assignment read place
  | [] => failure

/-! ## Whole expressions -/

/-- The binary operators that are marks, longer ones before those they start with. -/
def binaryMarks : List (List Char) :=
  [">>>", "===", "!==", "&&", "||", "??", ">>", "<<", "<=", ">=", "==", "!=", "**", "&", "^", "|",
   "+", "-", "*", "/", "%", "<", ">"].map String.toList

/-- The length of the binary operator at the front of a text. -/
def binaryLength? (noIn : Bool) (s : List Char) : Option Nat :=
  match String.ofList (wordOf s) with
  | "" => (binaryMarks.find? (·.isPrefixOf s)).map List.length
  | "in" => if noIn then none else some 2
  | "instanceof" => some 10
  | _ => none

/-- Whether a question mark comes next that starts the branches of a condition. Only the separators of
`isSpace` may stand before it. -/
def seesQuestion : Reader Bool := do
  let i ← get
  match ((i.afterComments.getLast?.getD i.rest).dropWhile isSpace) with
  | '?' :: '?' :: _ => return false
  | '?' :: '.' :: s => return s.head?.any isDigit
  | '?' :: _ => return true
  | _ => return false

/-- An expression without commas. -/
def expression (place : Place) : Reader Node := do
  let first ← read (.operand place)
  let rest ← Reader.many do
    if ← place.ended then return none
    else
      match binaryLength? place.noIn (← peek) with
      | some n =>
        take n
        return some (← read (.operand place))
      | none => return none
  let chain ←
    if rest.isEmpty then pure first
    else Reader.node "binary_expression" first.start (first :: rest)
  if !(← place.ended) && (← seesQuestion) then
    mark "?"
    let yes ← read (.expression {})
    mark ":"
    let no ← read (.expression place)
    Reader.node "ternary_expression" first.start [chain, yes, no]
  else return chain

end DocSignature.JavaScript
