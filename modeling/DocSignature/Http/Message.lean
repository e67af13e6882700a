import DocSignature.Failure
import DocSignature.Settings

/-!
# HTTP messages

A `Request` is what a client sends and a `Response` what it gets. A response with a text carries it
whole. A request whose body is refused gets the list of faults, each with its place in the body, and
one whose source is refused gets the error.
-/

namespace DocSignature.Http

/-- What a client sends. -/
structure Request where
  /-- The method. -/
  method : String
  /-- The path, with an optional query behind it. -/
  path : String
  /-- The body. -/
  body : Option String := none
  /-- The type of the body. -/
  contentType : String := "application/json"

/-- What a request to describe a function asks for. -/
structure Query where
  /-- The source. -/
  source : Text
  /-- The line of the cursor. -/
  line : Int
  /-- Whether placeholders are reused, if the request says. -/
  reuse : Option Bool

/-- A step on the way to a place in a body. -/
inductive Place where
  /-- A member of an object, or the body itself. -/
  | key (name : String)
  /-- A position in a text. -/
  | position (n : Nat)
  deriving DecidableEq, Repr

/-- A step as a value: the key or the number. -/
def Place.toJson : Place → Json
  | .key name => .ofString name
  | .position n => .int n

/-- What is wrong with a body, and where. -/
structure BodyFault where
  /-- The way to the place. -/
  place : List Place
  /-- What is wrong there. -/
  fault : FieldFault
  deriving DecidableEq, Repr

/-- A fault as an object: the way to the place, and the word for what is wrong there. -/
def BodyFault.toJson (f : BodyFault) : Json :=
  .ofMembers [("loc", .arr (f.place.map Place.toJson)), ("type", .ofString f.fault.word)]

/-- What a client gets. -/
inductive Response where
  /-- A text with a status. -/
  | text (status : Nat) (body : String)
  /-- The body is refused. -/
  | invalid (faults : List BodyFault)
  /-- The source is refused. -/
  | rejected (e : SignatureError)
  deriving DecidableEq, Repr

namespace Response

/-- The status code. -/
def status : Response → Nat
  | .text status _ => status
  | .invalid _ => 422
  | .rejected _ => 422

/-- A text that tells a detail. -/
def detail (status : Nat) (message : String) : Response :=
  .text status (Json.plain (.ofMembers [("detail", .ofString message)]))

/-- What a response that refuses a body or a source says of it. -/
def json? : Response → Option Json
  | .text _ _ => none
  | .invalid faults => some (.ofMembers [("detail", .arr (faults.map BodyFault.toJson))])
  | .rejected e => some (.ofMembers [("detail", e.toJson)])

end Response

end DocSignature.Http
