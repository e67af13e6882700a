import DocSignature.Http.Message
import DocSignature.Json.Reader

/-!
# The body of a description request

`Query.ofRequest` reads what a request to describe a function asks for. The body is a JSON object with
a `source`, a `line` and `reuse_placeholder`; the last two may be left out. Values are read leniently:
a line may be a truth value, a whole floating point number or a text that spells one, and a truth
value may be a zero, a one or a word. All fields at fault are told, in their order.
-/

namespace DocSignature.Http

/-- Whether the type of a body is JSON: `application/json` or one that ends in `+json`. What stands
behind a semicolon does not count, and no type at all is as good. -/
def isJsonType (contentType : String) : Bool :=
  let name := Text.trim ((contentType.toList.takeWhile (· != ';')).map Char.toLower)
  let main := name.takeWhile (· != '/')
  let sub := (name.dropWhile (· != '/')).drop 1
  contentType.isEmpty ||
    (main == "application".toList && !sub.contains '/' &&
      (sub == "json".toList || "+json".toList.isSuffixOf sub))

/-- The whole number that a floating point value is. -/
def wholeOf (x : Binary64) : Except FieldFault Int :=
  match x with
  | .finite negative size =>
    match size.whole? with
    | some n => .ok (Numeral.withSign negative n)
    | none => .error .intFromFloat
  | _ => .error .finiteNumber

/-- Reads a source. -/
def readSource : Option Json → Except FieldFault Text
  | some (.str t) => .ok t
  | some _ => .error .stringType
  | none => .error .missing

/-- Reads a whole number. -/
def readWhole : Json → Except FieldFault Int
  | .int n => .ok n
  | .bool b => .ok (if b then 1 else 0)
  | .float x => wholeOf x
  | .str t =>
    match (Text.toChars? t).bind intOfText? with
    | some n => .ok n
    | none => .error .intParsing
  | _ => .error .intType

/-- Reads a line: the first if none is given, and none below zero. -/
def readLine : Option Json → Except FieldFault Int
  | none => .ok 1
  | some j =>
    match readWhole j with
    | .ok n => if n < 0 then .error .greaterThanEqual else .ok n
    | .error e => .error e

/-- The truth value that a whole number stands for. -/
def boolOfWhole (n : Int) : Except FieldFault (Option Bool) :=
  if n = 0 then .ok (some false) else if n = 1 then .ok (some true) else .error .boolParsing

/-- Reads a truth value that may be left out. -/
def readChoice : Option Json → Except FieldFault (Option Bool)
  | none => .ok none
  | some .null => .ok none
  | some (.bool b) => .ok (some b)
  | some (.int n) => boolOfWhole n
  | some (.float x) =>
    match wholeOf x with
    | .ok n => boolOfWhole n
    | .error _ => .error .boolType
  | some (.str t) =>
    match (Text.toString? t).bind boolOfText? with
    | some b => .ok (some b)
    | none => .error .boolParsing
  | some _ => .error .boolType

/-- The fault of a field, at its place. -/
def faultAt {α : Type} (name : String) : Except FieldFault α → List BodyFault
  | .ok _ => []
  | .error e => [⟨[.key "body", .key name], e⟩]

namespace Query

/-- Reads the fields of a body. -/
def ofJson (j : Json) : Except (List BodyFault) Query :=
  match j with
  | .obj _ =>
    let source := readSource (j.get? "source")
    let line := readLine (j.get? "line")
    let reuse := readChoice (j.get? "reuse_placeholder")
    match source, line, reuse with
    | .ok source, .ok line, .ok reuse => .ok { source, line, reuse }
    | _, _, _ =>
      .error (faultAt "source" source ++ faultAt "line" line ++ faultAt "reuse_placeholder" reuse)
  | _ => .error [⟨[.key "body"], .modelType⟩]

/-- What a request asks for. -/
def ofRequest (r : Request) : Except (List BodyFault) Query :=
  let body := r.body.getD ""
  if body.isEmpty then .error [⟨[.key "body"], .missing⟩]
  else if !isJsonType r.contentType then .error [⟨[.key "body"], .modelType⟩]
  else
    match Json.read body.toList with
    | .ok j => ofJson j
    | .error n => .error [⟨[.key "body", .position n], .jsonInvalid⟩]

end Query

end DocSignature.Http
