import DocSignature.Literal.Number
import DocSignature.Literal.Quote

/-!
# Simplifying parameters

`simplify` turns the parameter nodes of a function into `Parameter`s. A plain name, a name with a
default and a rest give one parameter each. A destructured object gives a placeholder, followed by its
members with the placeholder as their parent; objects inside objects have no description.

Placeholders are numbered from the second on, unless one name is reused for all of them.
-/

namespace DocSignature

/-- The name of the `k`-th destructured parameter, counted from one. -/
def placeholder (reuse : Bool) (k : Nat) : String :=
  if reuse || k ≤ 1 then "Unknown" else "Unknown" ++ String.ofList (Numeral.decimal k)

/-- A kind that has no description. -/
def unknown {α : Type} (kind : String) : Except Failure α := .error (.source (.unknownKind kind))

namespace Node

/-- Whether the node is a plain name. -/
def isName (n : Node) : Bool :=
  ["identifier", "shorthand_property_identifier_pattern"].contains n.kind

mutual

/-- The expression inside any number of parentheses. -/
def unwrap : Node → Except Failure Node
  | n@(⟨_, _, _, _, _, _, _, children⟩) =>
    if n.kind == "parenthesized_expression" then unwrapFirst children else .ok n

/-- The expression inside the parentheses around the first member of a list. -/
def unwrapFirst : List Node → Except Failure Node
  | [] => .error (.malformed .emptyParentheses)
  | n :: rest => if n.named && n.kind != "comment" then n.unwrap else unwrapFirst rest

end

end Node

/-- The type and the value of a default. -/
def defaultValue (src : Source) (value : Node) : Except Failure (ParameterType × Default) :=
  match value.kind with
  | "string" => do return (.string, .text (← stringValue src value))
  | "number" => do return (.number, .number (← Number.ofLiteral (value.text src).toList))
  | "array" => .ok (.array, .text "[]")
  | "object" => .ok (.object, .text "\x7b\x7d")
  | kind => unknown kind

/-- A parameter with the name of a node. -/
def namedBy (src : Source) (name : Node) (type : Option ParameterType) (default : Option Default) :
    Except Failure Parameter :=
  (Parameter.make (name.text src) none type default).mapError fun e => .malformed (.descriptor e)

/-- A name with a default. -/
def simplifyDefault (src : Source) (n : Node) : Except Failure Parameter :=
  match n.child? "left", n.child? "right" with
  | some left, some right =>
    if !left.isName then unknown left.kind
    else do
      let value ← right.unwrap
      let (type, default) ← defaultValue src value
      namedBy src left (some type) (some default)
  | _, _ => unknown n.kind

/-- A rest: an array without a default. -/
def simplifyRest (src : Source) (n : Node) : Except Failure Parameter :=
  match n.members with
  | [] => unknown n.kind
  | name :: _ =>
    if name.kind == "identifier" then namedBy src name (some .array) none else unknown name.kind

/-- A parameter that is not destructured. -/
def simplifyPlain (src : Source) (n : Node) : Except Failure Parameter :=
  if n.isName then namedBy src n none none
  else if ["assignment_pattern", "object_assignment_pattern"].contains n.kind then
    simplifyDefault src n
  else if n.kind == "rest_pattern" then simplifyRest src n
  else unknown n.kind

/-- A member of a destructured object: what a pair binds, and any other member itself. -/
def simplifyMember (src : Source) (parent : String) (n : Node) : Except Failure Parameter :=
  let bound := if n.kind == "pair_pattern" then n.child? "value" else some n
  match bound with
  | some value => (simplifyPlain src value).map (·.withParent parent)
  | none => unknown n.kind

/-- The members of a destructured object. -/
def simplifyMembers (src : Source) (parent : String) : List Node → Except Failure (List Parameter)
  | [] => .ok []
  | n :: rest => do
    let p ← simplifyMember src parent n
    let ps ← simplifyMembers src parent rest
    return p :: ps

/-- A destructured object: its placeholder and its members. -/
def simplifyObject (src : Source) (parent : String) (n : Node) :
    Except Failure (List Parameter) := do
  let head ← (Parameter.make parent none (some .object) none).mapError
    fun e => Failure.malformed (.descriptor e)
  let members ← simplifyMembers src parent n.members
  return head :: members

/-- Parameters in order, the next destructured one being the `k`-th. -/
def simplifyFrom (reuse : Bool) (src : Source) (k : Nat) : List Node →
    Except Failure (List Parameter)
  | [] => .ok []
  | n :: rest =>
    if n.kind == "object_pattern" then do
      let block ← simplifyObject src (placeholder reuse k) n
      let params ← simplifyFrom reuse src (k + 1) rest
      return block ++ params
    else do
      let p ← simplifyPlain src n
      let params ← simplifyFrom reuse src k rest
      return p :: params

/-- The parameters of a function, from their nodes. -/
def simplify (reuse : Bool) (src : Source) (params : List Node) : Except Failure (List Parameter) :=
  simplifyFrom reuse src 1 params

end DocSignature
