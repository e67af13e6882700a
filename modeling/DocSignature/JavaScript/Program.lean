import DocSignature.JavaScript.Statement

/-!
# Programs

`tree` is the syntax tree of a source. It is a single fault if the source is no program: if a phrase
in it cannot be read, if something is left behind its statements, or if it holds a null character.

`phrase` ties the readers of phrases to each other. Its first argument bounds how deep they may be
nested, and `program` gives it a bound that no source of that length reaches: of four readers at
work one inside the other, at least one takes a character. Each repetition takes one too.
-/

namespace DocSignature.JavaScript

/-- Reads any phrase, with at most so many readers of phrases at work at once. -/
def phrase : Nat → Grammar
  | 0, _ => failure
  | n + 1, .statement => statement (phrase n)
  | n + 1, .expression place => expression (phrase n) place
  | n + 1, .operand place => operand (phrase n) place
  | n + 1, .constructed => constructed (phrase n)
  | n + 1, .object => object (phrase n)
  | n + 1, .element => element (phrase n)

/-- Skips the line that names an interpreter. -/
def skipInterpreter : Reader Unit := do
  let i ← here
  if "#!".toList.isPrefixOf i.rest then
    set (i.drop (i.rest.takeWhile (· != '\n')).length)

/-- A whole program. The bound on repetition, which is more than the number of characters, bounds
the depth as well. -/
def program : Reader Node := do
  skipInterpreter
  let s ← start
  let items ← statements (phrase (4 * (← read)))
  guard (← peek).isEmpty
  Reader.node "program" s items

/-- The syntax tree of a source with these characters. -/
def tree (s : List Char) : Node :=
  let fault := Node.make Node.errorKind 0 (Utf8.encode s).length none true false []
  if s.contains '\x00' then fault
  else
    match (program.run (s.length + 1)).run ⟨0, s⟩ with
    | some (n, _) => if n.flagged then fault else n
    | none => fault

/-- The syntax tree of a source. -/
def parse (src : Source) : Node := tree (Utf8.decode src.octets)

end DocSignature.JavaScript
