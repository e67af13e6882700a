import DocSignature.Location
import DocSignature.Text.Quoted

/-!
# Descriptors

What is said of a function: a `Signature` with its name, the place for its comment and its
`Parameter`s. A parameter of a destructured object names the placeholder it belongs to as its parent.
No name is empty; `Parameter.make` and `Signature.make` refuse one.
-/

namespace DocSignature

/-- The types that a default value tells. -/
inductive ParameterType where
  | string
  | number
  | array
  | object
  deriving DecidableEq, Repr

namespace ParameterType

/-- The word for a type. -/
def word : ParameterType → String
  | .string => "string"
  | .number => "number"
  | .array => "array"
  | .object => "object"

/-- The type that a word names. -/
def ofWord? (w : String) : Option ParameterType :=
  [string, number, array, object].find? fun t => t.word == w

end ParameterType

/-- A number: whole and exact, or in floating point. -/
inductive Number where
  | whole (n : Int)
  | float (x : Binary64)
  deriving DecidableEq, Repr

/-- A default value. -/
inductive Default where
  | text (t : Text)
  | number (n : Number)
  deriving DecidableEq, Repr

/-- A parameter. -/
structure Parameter where
  /-- The name. -/
  name : String
  /-- The destructured parameter it belongs to. -/
  parent : Option String := none
  /-- The type, as far as a default value or a rest tells it. -/
  type : Option ParameterType := none
  /-- The default value. -/
  default : Option Default := none
  /-- The name is not empty. -/
  name_ne : name ≠ ""
  deriving DecidableEq, Repr

/-- A function. -/
structure Signature where
  /-- The name. -/
  name : String
  /-- Where the comment is inserted. -/
  location : Location
  /-- The parameters, those of destructured objects behind their placeholder. -/
  params : List Parameter := []
  /-- Whether a return value is known. -/
  returns : Bool := false
  /-- The name is not empty. -/
  name_ne : name ≠ ""
  deriving DecidableEq, Repr

/-- Why there is no such descriptor. -/
inductive DescriptorError where
  /-- The numbers are no location. -/
  | location (e : LocationError)
  /-- No type has this name. -/
  | unknownType (w : String)
  /-- A parameter has no name. -/
  | namelessParameter
  /-- A function has no name. -/
  | namelessFunction
  deriving DecidableEq, Repr

/-- The text of the error. -/
def DescriptorError.message : DescriptorError → String
  | .location e => e.message
  | .unknownType w => Text.quoted w ++ " is not a valid ParameterType"
  | .namelessParameter => "ParameterDescriptor name cannot be empty"
  | .namelessFunction => "FunctionDescriptor name cannot be empty"

namespace Parameter

/-- A parameter with a name that must not be empty. -/
def make (name : String) (parent : Option String) (type : Option ParameterType)
    (default : Option Default) : Except DescriptorError Parameter :=
  if h : name = "" then .error .namelessParameter
  else .ok { name := name, parent := parent, type := type, default := default, name_ne := h }

/-- The parameter as a member of a destructured one. -/
def withParent (p : Parameter) (parent : String) : Parameter := { p with parent := some parent }

end Parameter

/-- A function with a name that must not be empty. -/
def Signature.make (name : String) (location : Location) (params : List Parameter)
    (returns : Bool) : Except DescriptorError Signature :=
  if h : name = "" then .error .namelessFunction
  else .ok { name := name, location := location, params := params, returns := returns, name_ne := h }

/-! ## As JSON -/

/-- A location as an object. -/
def Location.toJson (l : Location) : Json :=
  .ofMembers [("line", .int l.line), ("column", .int l.column)]

/-- A number as a value. -/
def Number.toJson : Number → Json
  | .whole n => .int n
  | .float x => .float x

/-- A default value as a value. -/
def Default.toJson : Default → Json
  | .text t => .str t
  | .number n => n.toJson

/-- A member that is left out where its value is absent. -/
def optionalMember (key : String) (value : Option Json) : List (String × Json) :=
  match value with
  | some j => [(key, j)]
  | none => []

/-- A parameter as an object. Absent fields are left out. -/
def Parameter.toJson (p : Parameter) : Json :=
  .ofMembers (("name", .ofString p.name) ::
    optionalMember "parent" (p.parent.map .ofString) ++
    optionalMember "type" (p.type.map fun t => .ofString t.word) ++
    optionalMember "defaultValue" (p.default.map Default.toJson))

/-- A function as an object. -/
def Signature.toJson (s : Signature) : Json :=
  .ofMembers [("name", .ofString s.name), ("location", s.location.toJson),
    ("params", .arr (s.params.map Parameter.toJson)),
    ("returns", .ofMembers [("returns", .bool s.returns)])]

end DocSignature
