import DocSignature.Source

/-!
# Syntax trees

A `Node` has a kind, the span of octets it covers, the field it fills in its parent, and its children.
Nodes that carry meaning are `named`; punctuation and keywords are not. `missing` marks a node that
the reader of the source had to invent, and `flagged` a node that holds or is a fault.
-/

namespace DocSignature

/-- A node of a syntax tree. -/
structure Node where
  /-- The grammatical kind. -/
  kind : String
  /-- The offset of the first octet. -/
  start : Nat
  /-- The offset behind the last octet. -/
  stop : Nat
  /-- The field that the node fills in its parent. -/
  field : Option String
  /-- Whether the node carries meaning of its own. -/
  named : Bool
  /-- Whether the node is not in the source. -/
  missing : Bool
  /-- Whether there is a fault in the node. -/
  flagged : Bool
  /-- The children in order. -/
  children : List Node
  deriving Inhabited

namespace Node

/-- The kind of a node that covers what could not be read. -/
def errorKind : String := "ERROR"

/-- Whether the node is itself a fault. -/
def isFault (n : Node) : Bool := n.kind == errorKind || n.missing

/-- A node that is flagged exactly if it, or a child, is at fault. -/
def make (kind : String) (start stop : Nat) (field : Option String) (named missing : Bool)
    (children : List Node) : Node where
  kind := kind
  start := start
  stop := stop
  field := field
  named := named
  missing := missing
  flagged := kind == errorKind || missing || children.any (·.flagged)
  children := children

/-- The named children. -/
def namedChildren (n : Node) : List Node := n.children.filter (·.named)

/-- The named children that are not comments. -/
def members (n : Node) : List Node := n.namedChildren.filter (·.kind != "comment")

/-- The first child that fills a field. -/
def child? (n : Node) (field : String) : Option Node := n.children.find? (·.field == some field)

/-- The text of a node. -/
def text (n : Node) (src : Source) : String := src.text n.start n.stop

/-- Where a node starts. -/
def location (n : Node) (src : Source) : Location := src.location n.start

/-! ## Faults -/

mutual

/-- The first fault in a tree, in order, on a path of flagged or missing nodes. -/
def fault? : Node → Option Node
  | n@(⟨_, _, _, _, _, _, _, children⟩) => if n.isFault then some n else faultAmong? children

/-- The first fault among siblings. Those that are neither flagged nor missing are passed over. -/
def faultAmong? : List Node → Option Node
  | [] => none
  | n :: rest =>
    if n.flagged || n.missing then
      match n.fault? with
      | some f => some f
      | none => faultAmong? rest
    else faultAmong? rest

end

end Node

end DocSignature
