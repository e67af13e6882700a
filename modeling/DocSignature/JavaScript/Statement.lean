import DocSignature.JavaScript.Expression

/-!
# Statements

`statement` reads one statement with what ends it. Which kind it is shows in its first words, except
that an expression may start like a block and that the head of a loop over members or items may start
like any other.

A declaration (`declaration?`) is a statement that may also stand behind `export`.
-/

namespace DocSignature.JavaScript

variable (read : Grammar)

/-- A statement that belongs to the one before it. -/
def bodyStatement : Reader Node := do
  skipPageComments
  read .statement

/-- An expression as a statement. -/
def expressionStatement : Reader Node := do
  let e ← expressions read { ends := true }
  semicolon true
  Reader.node "expression_statement" e.start [e]

/-! ## Declarations -/

/-- What a declaration binds: a name or a pattern. -/
def binding : Reader Node := do
  match ← peek with
  | '[' :: _ => asDestructuring (← array read)
  | '{' :: _ => asDestructuring (← read .object)
  | _ => name "identifier"

/-- One variable and its value, and whether it has one. -/
def declarator : Reader (Node × Bool) := do
  let target ← binding read
  if !(← ended false) && (← tries "=") then
    let value ← read (.expression { ends := true })
    let n ← Reader.node "variable_declarator" target.start [fill "name" target, fill "value" value]
    return (n, true)
  else return (← Reader.node "variable_declarator" target.start [fill "name" target], false)

/-- A declaration of variables behind its first word. -/
def declarators (kind : String) (s : Nat) : Reader Node := do
  let first ← declarator read
  let rest ← Reader.many do
    if ← tries "," then return some (← declarator read) else return none
  semicolon (rest.getLast?.getD first).2
  Reader.node kind s ((first :: rest).map (·.1))

/-- Whether an input starts with a word behind which a statement goes on with what `test` finds. -/
def wordBefore (test : List Char → Bool) (i : Input) : Bool :=
  let behind := i.drop (wordOf i.rest).length
  !semicolonAt true behind && test behind.next.rest

/-- Whether a text starts with a name. -/
def startsName (s : List Char) : Bool :=
  !(wordOf s).isEmpty && !(reserved.contains (String.ofList (wordOf s)))

/-- Whether a text starts with a name or a pattern. -/
def startsBinding (s : List Char) : Bool :=
  startsName s || s.head? == some '[' || s.head? == some '{'

/-- Whether a text starts with a function that has a name. -/
def startsNamedFunction (s : List Char) : Bool :=
  let behind := behindWord s
  wordOf s == "function".toList &&
    startsName (if behind.head? == some '*' then tokenOf (behind.drop 1) else behind)

/-- Whether a text starts with a class that has a name. -/
def startsNamedClass (s : List Char) : Bool :=
  wordOf s == "class".toList && startsName (behindWord s)

/-- Whether a text starts with the word `using` and a name. -/
def startsUsing (s : List Char) : Bool :=
  wordOf s == "using".toList && wordBefore startsName ⟨0, s⟩

/-- A declaration, if one comes next. -/
def declaration? : Reader (Option Node) := do
  let i ← here
  let s := i.offset
  match String.ofList (wordOf i.rest) with
  | "var" =>
    word "var"
    return some (← declarators read "variable_declaration" s)
  | "const" =>
    word "const"
    return some (← declarators read "lexical_declaration" s)
  | "let" =>
    if wordBefore startsBinding i then
      word "let"
      return some (← declarators read "lexical_declaration" s)
    else return none
  | "using" =>
    if startsUsing i.rest then
      word "using"
      return some (← declarators read "using_declaration" s)
    else return none
  | "await" =>
    if wordBefore startsUsing i then
      word "await"
      word "using"
      return some (← declarators read "using_declaration" s)
    else return none
  | "function" =>
    if startsNamedFunction i.rest then return some (← functionDeclaration read s) else return none
  | "async" =>
    if wordBefore startsNamedFunction i then
      word "async"
      return some (← functionDeclaration read s)
    else return none
  | "class" =>
    if startsNamedClass i.rest then
      return some (← classBehind read "class_declaration" s [])
    else return none
  | _ => return none

/-- A class declaration with decorators in front. -/
def decoratedClass (s : Nat) (front : List Node) : Reader Node := do
  guard (startsNamedClass (← peek))
  classBehind read "class_declaration" s front

/-! ## Modules -/

/-- The name of something that a module gives or takes. -/
def moduleName : Reader Unit := do
  if startsString (← peek) then
    let _ ← string
  else if !(← triesWord "default") then
    let _ ← name "identifier"

/-- Something that a module gives or takes, and perhaps another name for it. -/
def specifier : Reader Node := do
  let s ← start
  moduleName
  if ← triesWord "as" then moduleName
  Reader.node "specifier" s []

/-- What a module gives or takes, in braces. No slot is empty but the last. -/
def specifiers : Reader Unit := do
  mark "\x7b"
  let items ← slotsOf "\x7d" specifier
  guard (items.dropLast.all Option.isSome)

/-- The module that something comes from. -/
def fromModule : Reader Unit := do
  word "from"
  let _ ← string

/-- All that a module gives, under one name. -/
def wholeModule : Reader Unit := do
  mark "*"
  word "as"
  moduleName

/-- What a module takes from another. -/
def importClause : Reader Unit := do
  let named : Reader Unit := do if ← sees "*" then wholeModule else specifiers
  if startsName (← peek) then
    let _ ← name "identifier"
    if ← tries "," then named
  else named

/-- An import. -/
def importStatement : Reader Node := do
  let s ← start
  word "import"
  if startsString (← peek) then
    let _ ← string
  else
    importClause
    fromModule
  let attributes ← if ← triesWord "with" then pure [← read .object] else pure []
  semicolon false
  Reader.node "import_statement" s attributes

/-- What is exported by default: a declaration or an expression. -/
def defaultExport : Reader (List Node) := do
  let s ← start
  match ← declaration? read with
  | some d => return [fill "declaration" d]
  | none =>
    let decorated : Reader Node := do
      guard (← sees "@")
      decoratedClass read s (← decorators read)
    let value : Reader Node := do
      let e ← read (.expression { ends := true })
      semicolon true
      return e
    (do return [fill "declaration" (← decorated)]) <|> (do return [fill "value" (← value)])

/-- What is exported, behind the word `export`. -/
def exported : Reader (List Node) := do
  let s ← start
  match ← peek with
  | '*' :: _ =>
    if wordOf (tokenOf ((← peek).drop 1)) == "as".toList then wholeModule else mark "*"
    fromModule
    semicolon false
    return []
  | '{' :: _ =>
    specifiers
    if (← peekWord) == "from" then fromModule
    semicolon false
    return []
  | '@' :: _ => return [fill "declaration" (← decoratedClass read s (← decorators read))]
  | _ =>
    if ← triesWord "default" then defaultExport read
    else
      match ← declaration? read with
      | some d => return [fill "declaration" d]
      | none => failure

/-- An export that starts at an offset with the decorators in front. -/
def exportStatement (s : Nat) (front : List Node) : Reader Node := do
  word "export"
  let items ← exported read
  Reader.node "export_statement" s (front ++ items)

/-! ## Loops -/

/-- The word between what a loop binds and what it runs over, and what it runs over. -/
def loopOver : Reader Node := do
  unless ← triesWord "in" do word "of"
  expressions read {}

/-- The words in front of what a loop binds. -/
def loopWord : Reader String := do
  let w ← peekWord
  if ["var", "let", "const", "using"].contains w then
    word w
    return w
  else if w == "await" then
    word "await"
    word "using"
    return "using"
  else failure

/-- The head of a loop over members or items, up to its closing parenthesis. -/
def memberHead : Reader (List Node) := do
  let bound : Reader (List Node) := do
    let w ← loopWord
    let left ← binding read
    let value ←
      if w == "var" && (← tries "=") then
        pure [fill "value" (← read (.expression { noIn := true }))]
      else pure []
    return fill "left" left :: value
  let place : Reader (List Node) := do
    let left ← read (.operand { noIn := true })
    if ["array", "object"].contains left.kind then return [fill "left" (← asDestructuring left)]
    else
      guard (isAssignable left)
      return [fill "left" left]
  let overBound : Reader (List Node) := do return (← bound) ++ [← loopOver read]
  let overPlace : Reader (List Node) := do return (← place) ++ [← loopOver read]
  let items ← overBound <|> overPlace
  mark ")"
  return items

/-- The head of a loop with a start, a condition and a step, up to its closing parenthesis. -/
def stepHead : Reader (List Node) := do
  let upTo : Reader (List Node) := do
    if ← tries ";" then return []
    else
      let e ← expressions read {}
      mark ";"
      return [e]
  let first ←
    match ← declaration? read with
    | some d =>
      guard (["lexical_declaration", "variable_declaration"].contains d.kind)
      pure [fill "initializer" d]
    | none => upTo
  let condition ← upTo
  let step ← if ← sees ")" then pure [] else pure [← expressions read {}]
  mark ")"
  return first ++ condition ++ step

/-- A loop with the word `for`. -/
def forStatement : Reader Node := do
  let s ← start
  word "for"
  let awaits ← triesWord "await"
  mark "("
  let items : Reader (List Node × String) := do return (← memberHead read, "for_in_statement")
  let steps : Reader (List Node × String) := do
    guard !awaits
    return (← stepHead read, "for_statement")
  let (front, kind) ← items <|> steps
  let body ← bodyStatement read
  Reader.node kind s (front ++ [fill "body" body])

/-- A loop with its condition at the end. The semicolon behind it may always be left out. -/
def doStatement : Reader Node := do
  let s ← start
  word "do"
  let body ← bodyStatement read
  word "while"
  let condition ← parenthesized read
  unless ← ended true do
    let _ ← tries ";"
  Reader.node "do_statement" s [body, condition]

/-! ## Branches and jumps -/

/-- A statement with an expression in parentheses and a body, such as a loop with its condition in
front. -/
def guarded (w kind : String) : Reader Node := do
  let s ← start
  word w
  let e ← parenthesized read
  let body ← bodyStatement read
  Reader.node kind s [e, body]

/-- A condition with one or two branches. -/
def ifStatement : Reader Node := do
  let s ← start
  word "if"
  let condition ← parenthesized read
  let yes ← bodyStatement read
  let no ← if ← triesWord "else" then pure [← bodyStatement read] else pure []
  Reader.node "if_statement" s (condition :: yes :: no)

/-- The cases of a choice. -/
def switchCase? : Reader (Option (List Node)) := do
  skipPageComments
  if ← triesWord "case" then
    let e ← expressions read {}
    mark ":"
    return some (e :: (← statements read))
  else if ← triesWord "default" then
    mark ":"
    return some (← statements read)
  else return none

/-- A choice between cases. -/
def switchStatement : Reader Node := do
  let s ← start
  word "switch"
  let value ← parenthesized read
  mark "\x7b"
  let cases ← Reader.many (switchCase? read)
  mark "\x7d"
  Reader.node "switch_statement" s (value :: cases.flatten)

/-- A block whose errors may be caught. -/
def tryStatement : Reader Node := do
  let s ← start
  word "try"
  let body ← block read
  let handler ←
    if ← triesWord "catch" then
      let parameter ←
        if ← tries "(" then
          let n ← binding read
          mark ")"
          pure [n]
        else pure []
      pure (parameter ++ [← block read])
    else pure []
  let finalizer ← if ← triesWord "finally" then pure [← block read] else pure []
  Reader.node "try_statement" s (body :: handler ++ finalizer)

/-- A jump to a label, or to the nearest loop. -/
def jump (w kind : String) : Reader Node := do
  let s ← start
  word w
  unless ← ended false do
    if startsName (← peek) then
      let _ ← name "statement_identifier"
  semicolon false
  Reader.node kind s []

/-- A return with or without a value. -/
def returnStatement : Reader Node := do
  let s ← start
  word "return"
  if (← ended false) || (← sees ";") then
    semicolon false
    Reader.node "return_statement" s []
  else
    let e ← expressions read { ends := true }
    semicolon true
    Reader.node "return_statement" s [e]

/-- A throw. -/
def throwStatement : Reader Node := do
  let s ← start
  word "throw"
  let e ← expressions read { ends := true }
  semicolon true
  Reader.node "throw_statement" s [e]

/-- A label and its statement. -/
def labeledStatement : Reader Node := do
  let label ← name "statement_identifier"
  mark ":"
  let body ← bodyStatement read
  Reader.node "labeled_statement" label.start [label, body]

/-! ## Any statement -/

/-- What decorators start: a class or an export, or an expression. -/
def decorated : Reader Node := do
  let s ← start
  let declared : Reader Node := do
    let front ← decorators read
    if (← peekWord) == "export" then exportStatement read s front
    else decoratedClass read s front
  declared <|> expressionStatement read

/-- What a word starts that is neither a declaration nor reserved for a statement. -/
def plainStatement : Reader Node := do
  let t ← peek
  if startsLabel t && startsName t && wordOf t != "yield".toList then labeledStatement read
  else expressionStatement read

/-- Whether the word `export` is a name here: nothing that can be exported follows. -/
def exportIsName (i : Input) : Bool :=
  let behind := i.drop 6
  semicolonAt true behind ||
    (behind.next.rest.head?.any fun c => c != '*' && c != '{' && c != '@' && !isNamePart c)

/-- A statement that starts with a word. -/
def wordStatement : Reader Node := do
  let i ← here
  match String.ofList (wordOf i.rest) with
  | "if" => ifStatement read
  | "for" => forStatement read
  | "while" => guarded read "while" "while_statement"
  | "with" => guarded read "with" "with_statement"
  | "do" => doStatement read
  | "switch" => switchStatement read
  | "try" => tryStatement read
  | "break" => jump "break" "break_statement"
  | "continue" => jump "continue" "continue_statement"
  | "debugger" =>
    let n ← leaf "debugger_statement" 8
    semicolon false
    return n
  | "return" => returnStatement read
  | "throw" => throwStatement read
  | "import" =>
    if (behindWord i.rest).head?.any (fun c => c == '(' || c == '.') then expressionStatement read
    else importStatement read
  | "export" =>
    if exportIsName i then expressionStatement read else exportStatement read i.offset []
  | _ =>
    match ← declaration? read with
    | some d => return d
    | none => plainStatement read

/-- A statement. -/
def statement : Reader Node := do
  match ← peek with
  | '{' :: _ =>
    braces (do
      let e ← objectFirst read { ends := true }
      semicolon true
      Reader.node "expression_statement" e.start [e]) (block read)
  | ';' :: _ => leaf "empty_statement" 1
  | '@' :: _ => decorated read
  | t => if (wordOf t).isEmpty then expressionStatement read else wordStatement read

end DocSignature.JavaScript
