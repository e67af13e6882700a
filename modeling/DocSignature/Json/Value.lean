import DocSignature.Number.Decimal
import DocSignature.Text.Utf16

/-!
# JSON values

`Json` keeps whole numbers and floating point numbers apart, and its strings are texts, so a lone
surrogate that was written as an escape survives. The members of an object keep their order, and a
repeated key counts with its last value (`Json.get?`).
-/

namespace DocSignature

/-- A JSON value. -/
inductive Json where
  | null
  | bool (b : Bool)
  | int (n : Int)
  | float (x : Binary64)
  | str (t : Text)
  | arr (items : List Json)
  | obj (members : List (Text × Json))

namespace Json

/-- A string value. -/
def ofString (s : String) : Json := .str s

/-- An object with plain keys. -/
def ofMembers (members : List (String × Json)) : Json :=
  .obj (members.map fun m => (Text.ofString m.1, m.2))

/-- The value of a key in an object, the last one if it is repeated. -/
def get? (j : Json) (key : String) : Option Json :=
  match j with
  | .obj members => (members.reverse.find? fun m => m.1 == Text.ofString key).map (·.2)
  | _ => none

end Json

end DocSignature
