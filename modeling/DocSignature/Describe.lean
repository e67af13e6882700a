import DocSignature.Locate
import DocSignature.Simplify

/-!
# Describing a function

`describe` finds the function at a line and gives its signature, with the events that tell of it on
the way. A source with a fault in its tree is refused before anything is looked for.

The tree of a source is what a `Parser` gives. `describeText` takes one, and does not ask how it
works.
-/

namespace DocSignature

/-- What is told of a description. -/
inductive Event where
  /-- The source cannot be read. -/
  | parseFailed (location : Location) (reason : String)
  /-- No function is at the line. -/
  | notFound (line : Int)
  /-- The function found has a parameter without a description. -/
  | unknownKind (function : String) (line : Nat) (kind : String)
  /-- The function found was described. -/
  | located (function : String) (line : Int) (paramCount : Nat)
  deriving DecidableEq, Repr

/-- What came of a description. -/
structure Report where
  /-- The signature, if a function was found, or why there is none. -/
  outcome : Except Failure (Option Signature)
  /-- The events in order. -/
  events : List Event

/-- The location and the reason of the fault that a tree is refused for. -/
def refusal? (src : Source) (root : Node) : Option (Location × String) :=
  if root.flagged then
    let fault := root.fault?.getD root
    let reason := if fault.missing then "missing " ++ fault.kind else SignatureError.invalid
    some (fault.location src, reason)
  else none

/-- The signature of a function that was found. -/
def Located.signature (reuse : Bool) (src : Source) (found : Located) :
    Except Failure Signature := do
  let params ← simplify reuse src found.params
  (Signature.make found.name found.location.above params false).mapError
    fun e => .malformed (.descriptor e)

/-- The events that tell of a function that was found. -/
def Located.events (found : Located) (line : Int) : Except Failure Signature → List Event
  | .ok s => [.located s.name line s.params.length]
  | .error (.source (.unknownKind kind)) =>
    [.unknownKind found.name found.location.line kind]
  | .error _ => []

/-- The function at a line of a source with this tree. -/
def describe (reuse : Bool) (src : Source) (root : Node) (line : Int) : Report :=
  match refusal? src root with
  | some (location, reason) =>
    ⟨.error (.source (.unreadableAt location reason)), [.parseFailed location reason]⟩
  | none =>
    match locate src root line with
    | none => ⟨.ok none, [.notFound line]⟩
    | some found =>
      let outcome := found.signature reuse src
      ⟨outcome.map some, found.events line outcome⟩

/-- A parser: the syntax tree that it gives for each source. -/
abbrev Parser := Source → Node

/-- The function at a line of a source text. -/
def describeText (parse : Parser) (reuse : Bool) (text : String) (line : Int) : Report :=
  describe reuse (.ofString text) (parse (.ofString text)) line

end DocSignature
