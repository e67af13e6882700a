import DocSignature.JavaScript.Literal
import DocSignature.JavaScript.Pattern

/-!
# Phrases

Statements hold expressions and expressions hold statements, so the readers of one depend on those of
the other. They are given to each other as a `Grammar`, which reads any `Phrase`.

This module holds what several phrases share: lists between brackets (`slots`), sequences of
expressions, blocks, parameters and the rest of a function behind its name.
-/

namespace DocSignature.JavaScript

/-- Where an expression stands. -/
structure Place where
  /-- Whether `in` is no operator there, as in the head of a loop. -/
  noIn : Bool := false
  /-- Whether the statement may end behind the expression. -/
  ends : Bool := false

/-- The kinds of phrase that depend on each other. -/
inductive Phrase where
  /-- A statement. -/
  | statement
  /-- An expression without commas. -/
  | expression (place : Place)
  /-- An operand of an expression. -/
  | operand (place : Place)
  /-- What is constructed by `new`. -/
  | constructed
  /-- An object. -/
  | object
  /-- A markup element. -/
  | element

/-- Reads any phrase. -/
abbrev Grammar := Phrase → Reader Node

/-- Whether the statement ends here, if it may. -/
def Place.ended (place : Place) : Reader Bool := do
  if place.ends then JavaScript.ended true else return false

/-! ## Lists -/

/-- The slots between commas up to a closing mark. A slot may be empty. -/
def slotsOf (close : String) (item : Reader Node) : Reader (List (Option Node)) := do
  let slot : Reader (Option Node) := do
    skipPageComments
    if (← sees ",") || (← sees close) then return none else return some (← item)
  let first ← slot
  let rest ← Reader.many do
    if ← tries "," then return some (← slot) else return none
  mark close
  return first :: rest

variable (read : Grammar)

/-- An expression or a spread of one. -/
def spreadable : Reader Node := do
  let s ← start
  if ← tries "..." then
    let e ← read (.expression {})
    Reader.node "spread_element" s [e]
  else read (.expression {})

/-- The slots of a list of expressions up to a closing mark. -/
def slots (close : String) : Reader (List (Option Node)) := slotsOf close (spreadable read)

/-- One expression, or several with commas between them. -/
def expressions (place : Place) : Reader Node := do
  let first ← read (.expression place)
  let rest ← Reader.many do
    if ← place.ended then return none
    else if ← tries "," then return some (← read (.expression place))
    else return none
  if rest.isEmpty then return first
  else Reader.node "sequence_expression" first.start (first :: rest)

/-- Expressions in parentheses. -/
def parenthesized : Reader Node := do
  let s ← start
  mark "("
  let e ← expressions read {}
  mark ")"
  Reader.node "parenthesized_expression" s [e]

/-- The expressions that a function is called with. -/
def arguments : Reader Node := do
  let s ← start
  mark "("
  let items ← slots read ")"
  Reader.node "arguments" s (items.filterMap id)

/-- An array. -/
def array : Reader Node := do
  let s ← start
  mark "["
  let items ← slots read "]"
  Reader.node "array" s (items.filterMap id)

/-! ## Blocks and functions -/

/-- The statements up to a closing brace, a case or the end. Behind a closing brace, comments with the
marks of a page need a place where a semicolon may be left out. -/
def statements : Reader (List Node) := do
  let (items, _) ← Reader.iterate (fun ((items, closed) : List Node × Bool) => do
    if closed && !(← ended true) then guard !(isPageComment (← peek))
    skipPageComments
    let i ← here
    if i.rest.isEmpty || i.rest.head? == some '}' || ["case", "default"].contains (← peekWord) then
      return none
    else
      let n ← read .statement
      return some (n :: items, (i.before (← get).offset).getLast? == some '}')) ([], false)
  return items.reverse

/-- Statements in braces. -/
def block : Reader Node := do
  let s ← start
  mark "\x7b"
  let body ← statements read
  mark "\x7d"
  Reader.node "statement_block" s body

/-- The parameters of a function. -/
def parameters : Reader Node := do
  let s ← start
  mark "("
  let items ← asParameters (← slots read ")")
  Reader.node "formal_parameters" s items

/-- The parameters and the body of a function that starts at an offset. -/
def functionBehind (kind : String) (s : Nat) (front : List Node) : Reader Node := do
  let params ← parameters read
  let body ← block read
  Reader.node kind s (front ++ [fill "parameters" params, fill "body" body])

/-- A function inside an expression, from the word `function` on. -/
def functionExpression (s : Nat) : Reader Node := do
  word "function"
  let kind := if ← tries "*" then "generator_function" else "function_expression"
  if ← sees "(" then functionBehind read kind s []
  else functionBehind read kind s [fill "name" (← name "identifier")]

/-- A function with a name, from the word `function` on. -/
def functionDeclaration (s : Nat) : Reader Node := do
  word "function"
  let kind := if ← tries "*" then "generator_function_declaration" else "function_declaration"
  functionBehind read kind s [fill "name" (← name "identifier")]

end DocSignature.JavaScript
