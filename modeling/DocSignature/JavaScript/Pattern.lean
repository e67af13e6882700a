import DocSignature.JavaScript.Token

/-!
# Patterns

What is assigned to and what a parameter binds is written like an expression, so it is read as one and
made a pattern afterwards (`asPattern`). A few members of an object, such as the one in `{ a = 1 }`,
have a meaning in a pattern only. An object that holds one is flagged, and so is everything around it;
as a pattern it is not flagged any more.
-/

namespace DocSignature.JavaScript

/-- Whether a node stands for a place that a value can be put into. -/
def isPlace (n : Node) : Bool :=
  ["identifier", "undefined", "member_expression", "subscript_expression"].contains n.kind

/-- Whether a node is a pattern that takes a value apart. -/
def isDestructuring (n : Node) : Bool := ["array_pattern", "object_pattern"].contains n.kind

/-- The same stretch of source as a node of another kind. -/
def remake (n : Node) (kind : String) (children : List Node) : Node :=
  Node.make kind n.start n.stop n.field true false children

/-- An assignment as a pattern with a default. -/
def asDefault (n : Node) : Option Node :=
  if n.children.head?.any fun left => isPlace left || isDestructuring left then
    some (remake n "assignment_pattern" n.children)
  else none

mutual

/-- The pattern that is written like an expression. Where `bound` is false, a default and a rest are
refused. -/
def asPattern (bound : Bool) : Node → Option Node
  | n@(⟨kind, _, _, _, _, _, _, children⟩) =>
    if isPlace n || isDestructuring n then some n
    else if kind == "array" then (asPatterns true children).map (remake n "array_pattern")
    else if kind == "object" then (asMembers children).map (remake n "object_pattern")
    else if !bound then none
    else if kind == "spread_element" then
      (asPatterns false children).map (remake n "rest_pattern")
    else if kind == "assignment_expression" then asDefault n
    else none

/-- The patterns that are written like expressions. -/
def asPatterns (bound : Bool) : List Node → Option (List Node)
  | [] => some []
  | n :: rest => do
    let p ← asPattern bound n
    let ps ← asPatterns bound rest
    return p :: ps

/-- The member of an object pattern that is written like one of an object. -/
def asMember : Node → Option Node
  | n@(⟨kind, _, _, _, _, _, _, children⟩) =>
    if kind == "object_assignment_pattern" then some n
    else if kind == "shorthand_property_identifier" then
      some (remake n "shorthand_property_identifier_pattern" [])
    else if kind == "spread_element" then
      (asPatterns false children).map (remake n "rest_pattern")
    else if kind == "pair" then (asPair children).map (remake n "pair_pattern")
    else none

/-- The key of a pair, and its value as a pattern. -/
def asPair : List Node → Option (List Node)
  | [key, value] => (asPattern true value).map fun p => [key, p]
  | _ => none

/-- The members of an object pattern that are written like those of an object. -/
def asMembers : List Node → Option (List Node)
  | [] => some []
  | n :: rest => do
    let p ← asMember n
    let ps ← asMembers rest
    return p :: ps

end

/-- An object, which is flagged if one of its members has a meaning in a pattern only. -/
def objectOf (n : Node) : Node :=
  if n.children.any (·.kind == "object_assignment_pattern") then { n with flagged := true } else n

/-- A pattern that takes a value apart. -/
def asDestructuring (n : Node) : Reader Node := do
  match asPattern false n with
  | some p =>
    guard (isDestructuring p)
    return p
  | none => failure

/-- The patterns of parameters, none of which is left out but the last. -/
def asParameters (slots : List (Option Node)) : Reader (List Node) := do
  let slots := if slots.getLast?.any Option.isNone then slots.dropLast else slots
  match slots.mapM id with
  | some items =>
    match asPatterns true items with
    | some ps => return ps
    | none => failure
  | none => failure

end DocSignature.JavaScript
