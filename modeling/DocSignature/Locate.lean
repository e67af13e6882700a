import DocSignature.Tree.Node

/-!
# Locating a function

`locate` finds the function at a cursor line. A node qualifies if it starts on that line or on the
line below, and declares a function in one of three ways: a function declaration, a variable whose
first declarator is a function expression, or an assignment of one to a member. Nodes are visited in
order, outer before inner, and the last that qualifies wins.

A declaration that is the payload of an export statement has the location of that statement. The
payload is the first child in the field `declaration`; no deeper node takes the location over.
-/

namespace DocSignature

/-- A function found in a tree. -/
structure Located where
  /-- The name. -/
  name : String
  /-- Where the declaration starts. -/
  location : Location
  /-- The parameters in order. -/
  params : List Node

namespace Node

/-- Whether the node declares a function by name. -/
def isFunctionDeclaration (n : Node) : Bool :=
  ["function_declaration", "generator_function_declaration"].contains n.kind

/-- Whether the node is a function inside an expression. -/
def isFunctionExpression (n : Node) : Bool :=
  ["function_expression", "function", "generator_function"].contains n.kind

/-- Whether the node declares variables. -/
def isVariableDeclaration (n : Node) : Bool :=
  ["lexical_declaration", "variable_declaration"].contains n.kind

/-- Whether the node assigns a value. -/
def isAssignment (n : Node) : Bool := n.kind == "assignment_expression"

/-- Whether the node starts on a line or on the line below it. -/
def startsNear (n : Node) (src : Source) (line : Int) : Bool :=
  let row : Int := src.row n.start
  row + 1 == line || row == line

/-- The parameters of a function. -/
def parameters (n : Node) : List Node :=
  match n.child? "parameters" with
  | some list => list.members
  | none => []

/-- The name and the function of a declaration. -/
def declared? (n : Node) : Option (Node × Node) :=
  (n.child? "name").map (·, n)

/-- The name and the function of a variable declaration. Only its first declarator counts. -/
def bound? (n : Node) : Option (Node × Node) := do
  let declarator ← n.namedChildren.find? (·.kind == "variable_declarator")
  let name ← declarator.child? "name"
  let value ← declarator.child? "value"
  if name.kind == "identifier" && value.isFunctionExpression then some (name, value) else none

/-- The name and the function of an assignment to a member. -/
def assigned? (n : Node) : Option (Node × Node) := do
  let left ← n.child? "left"
  let right ← n.child? "right"
  let name ← left.child? "property"
  if left.kind == "member_expression" && right.isFunctionExpression then some (name, right) else none

/-- The name and the function of a node that declares one. -/
def function? (n : Node) : Option (Node × Node) :=
  if n.isFunctionDeclaration then n.declared?
  else if n.isVariableDeclaration then n.bound?
  else if n.isAssignment then n.assigned?
  else none

/-- The function that a node itself declares near a line. `exporter` is the export statement whose
payload the node is; an assignment is never one. -/
def located? (src : Source) (line : Int) (exporter : Option Node) (n : Node) : Option Located :=
  match n.function? with
  | some (name, value) =>
    if n.startsNear src line then
      let whole := if n.isAssignment then n else exporter.getD n
      some ⟨name.text src, whole.location src, value.parameters⟩
    else none
  | none => none

/-- The statement that exports the payload among a node's children. -/
def exporter? (n : Node) : Option Node :=
  if n.kind == "export_statement" then some n else none

mutual

/-- The last function near a line in a tree, or `best` if the tree has none. -/
def latest (src : Source) (line : Int) (exporter : Option Node) (best : Option Located) :
    Node → Option Located
  | n@(⟨_, _, _, _, _, _, _, children⟩) =>
    latestAmong src line n.exporter? ((n.located? src line exporter).or best) children

/-- The last function near a line among siblings. Only named ones are searched, and the first in the
field `declaration` is the payload of `exporter`. -/
def latestAmong (src : Source) (line : Int) (exporter : Option Node) (best : Option Located) :
    List Node → Option Located
  | [] => best
  | n :: rest =>
    let payload := n.field == some "declaration"
    let best := if n.named then n.latest src line (if payload then exporter else none) best else best
    latestAmong src line (if payload then none else exporter) best rest

end

end Node

/-- The function at a line of a source with this tree. -/
def locate (src : Source) (root : Node) (line : Int) : Option Located :=
  root.latest src line none none

end DocSignature
