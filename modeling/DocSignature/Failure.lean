import DocSignature.Descriptor

/-!
# Failures

A `SignatureError` tells a caller what is wrong with a source: it cannot be read, or a parameter is of
a kind that has no description. `Malformed` lists what only a tree that no source has can run into.
A `Failure` is one or the other.
-/

namespace DocSignature

/-- What is wrong with a source. -/
inductive SignatureError where
  /-- The source cannot be read at this line and column. -/
  | unreadable (line column : Int) (reason : String)
  /-- A parameter or a default value is of a kind that has no description. -/
  | unknownKind (kind : String)
  /-- Anything else. -/
  | other (message : String)
  deriving DecidableEq, Repr

namespace SignatureError

/-- The reason for an unreadable source, unless a better one is known. -/
def invalid : String := "invalid syntax"

/-- The word for the kind of error. -/
def word : SignatureError → String
  | .unreadable .. => "parse_error"
  | .unknownKind _ => "unknown_param_type"
  | .other _ => "signature_error"

/-- The digits of a whole number with its sign. -/
def numeral (n : Int) : String := String.ofList (Json.intText n)

/-- The text of the error. -/
def message : SignatureError → String
  | .unreadable line column reason =>
    reason ++ " at line " ++ numeral line ++ ", column " ++ numeral column
  | .unknownKind kind => "Unknown param type: " ++ kind
  | .other message => message

/-- What the error tells beside its text. -/
def details : SignatureError → List (String × Json)
  | .unreadable line column _ => [("line", .int line), ("column", .int column)]
  | .unknownKind kind => [("kind", .ofString kind)]
  | .other _ => []

/-- The error as an object. -/
def toJson (e : SignatureError) : Json :=
  .ofMembers (("error", .ofString e.word) :: ("message", .ofString e.message) :: e.details)

/-- An unreadable source at a location. -/
def unreadableAt (l : Location) (reason : String) : SignatureError :=
  .unreadable l.line l.column reason

end SignatureError

/-- What a tree that follows the grammar never runs into. -/
inductive Malformed where
  /-- A number that is no numeral. -/
  | numeral
  /-- An escape whose code is no code point. -/
  | codePoint
  /-- An escape whose code does not fit 32 bits with a sign. -/
  | hugeCode
  /-- Parentheses around nothing. -/
  | emptyParentheses
  /-- A descriptor that does not exist. -/
  | descriptor (e : DescriptorError)
  deriving DecidableEq, Repr

/-- Why a function has no description. -/
inductive Failure where
  | source (e : SignatureError)
  | malformed (m : Malformed)
  deriving DecidableEq, Repr

end DocSignature
