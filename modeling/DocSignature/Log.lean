import DocSignature.Describe
import DocSignature.Settings

/-!
# Log records

A `Record` is one line of the log: a level, the name of the logger, the event and its fields. `Policy`
says which records are written and how; `Policy.lines` writes them, on the console as aligned text or
as JSON objects. The time of a record is not part of it: on the console the word `TIME` holds its
place.
-/

namespace DocSignature

namespace Log

/-- How much a record matters. -/
inductive Level where
  | debug
  | info
  | warning
  | error
  | critical
  deriving DecidableEq, Repr

namespace Level

/-- The rank of a level. -/
def rank : Level → Nat
  | .debug => 10
  | .info => 20
  | .warning => 30
  | .error => 40
  | .critical => 50

/-- The word for a level. -/
def word : Level → String
  | .debug => "debug"
  | .info => "info"
  | .warning => "warning"
  | .error => "error"
  | .critical => "critical"

/-- The level with a name in capitals. -/
def ofName? : String → Option Level
  | "DEBUG" => some .debug
  | "INFO" => some .info
  | "WARN" => some .warning
  | "WARNING" => some .warning
  | "ERROR" => some .error
  | "CRITICAL" => some .critical
  | _ => none

end Level

/-- One record of the log. -/
structure Record where
  /-- How much it matters. -/
  level : Level
  /-- Who tells it. -/
  logger : String
  /-- What happened. -/
  event : Text
  /-- What is told of it. -/
  fields : List (Text × Json)

namespace Record

/-- A record with plain keys. -/
def make (level : Level) (logger event : String) (fields : List (String × Json)) : Record :=
  ⟨level, logger, event, fields.map fun f => (Text.ofString f.1, f.2)⟩

/-- A record as an object. -/
def toJson (r : Record) : Json :=
  .obj (r.fields ++ [((("event" : String) : Text), .str r.event),
    ((("logger" : String) : Text), .ofString r.logger),
    ((("level" : String) : Text), .ofString r.level.word)])

end Record

/-! ## The console -/

/-- Pads a text on the right. -/
def padRight (width : Nat) (s : List Char) : List Char := s ++ List.replicate (width - s.length) ' '

/-- The characters of a text. Surrogates, which have no character, are left out. -/
def chars (t : Text) : List Char := t.filterMap CodePoint.toChar?

mutual

/-- A value as it is shown inside another. -/
def shown : Json → List Char
  | .null => "None".toList
  | .bool b => (if b then "True" else "False").toList
  | .int n => Json.intText n
  | .float x => x.render.toList
  | .str t => (Text.quoted t).toList
  | .arr items => '[' :: shownItems items ++ [']']
  | .obj members => '{' :: shownMembers members ++ ['}']

/-- The items of an array, with commas between them. -/
def shownItems : List Json → List Char
  | [] => []
  | [item] => shown item
  | item :: items => shown item ++ ", ".toList ++ shownItems items

/-- The members of an object, with commas between them. -/
def shownMembers : List (Text × Json) → List Char
  | [] => []
  | [(key, item)] => (Text.quoted key).toList ++ ": ".toList ++ shown item
  | (key, item) :: members =>
    (Text.quoted key).toList ++ ": ".toList ++ shown item ++ ", ".toList ++ shownMembers members

end

/-- The characters that put a text between quotes. -/
def quotedFor : List Char := [' ', '\t', '=', '\r', '\n', '"', '\'']

/-- The value of a field. A text stands as it is unless that would be hard to tell apart. -/
def fieldValue : Json → List Char
  | .str t =>
    if (chars t).any quotedFor.contains then (Text.quoted t).toList else chars t
  | j => shown j

/-- Inserts a field in order of keys, behind those with the same key. -/
def insertField (f : Text × Json) : List (Text × Json) → List (Text × Json)
  | [] => [f]
  | g :: rest => if f.1 < g.1 then f :: g :: rest else g :: insertField f rest

/-- Fields in order of their keys. -/
def sortFields (fields : List (Text × Json)) : List (Text × Json) :=
  fields.foldl (fun sorted f => insertField f sorted) []

/-- Drops white space at the end. -/
def trimEnd (s : List Char) : List Char := (s.reverse.dropWhile Text.isBlank).reverse

/-- A record as a line of the console. -/
def Record.line (r : Record) : String :=
  let fields := (sortFields r.fields).flatMap fun f => ' ' :: chars f.1 ++ '=' :: fieldValue f.2
  String.ofList (trimEnd ("TIME [".toList ++ padRight 9 r.level.word.toList ++ "] ".toList ++
    padRight 30 (chars r.event) ++ " [".toList ++ r.logger.toList ++ ']' :: fields))

/-! ## Policies -/

/-- Which records are written, and how. -/
structure Policy where
  /-- Records below this level are dropped. -/
  threshold : Level
  /-- Whether records are written as JSON objects. -/
  json : Bool
  deriving DecidableEq, Repr

/-- A written record. -/
inductive Line where
  /-- A line of the console. -/
  | text (s : String)
  /-- A JSON object. -/
  | object (j : Json)

namespace Policy

/-- The policy that settings ask for, unless a level or a format is given. An unknown level counts as
`INFO`, and an empty one as none. -/
def ofSettings (s : Settings) (level : Option String) (json : Option Bool) : Policy :=
  let name :=
    match level with
    | some name => if name.isEmpty then s.logLevel else name
    | none => s.logLevel
  ⟨(Level.ofName? (capitals name)).getD .info, json.getD s.jsonLogs⟩

/-- Writes a record. -/
def line (p : Policy) (r : Record) : Line := if p.json then .object r.toJson else .text r.line

/-- Writes the records that matter. -/
def lines (p : Policy) (records : List Record) : List Line :=
  (records.filter fun r => p.threshold.rank ≤ r.level.rank).map p.line

end Policy

end Log

/-- The record of an event. -/
def Event.record : Event → Log.Record
  | .parseFailed location reason =>
    .make .debug "jsdoc_parser.parsers.source" "source_parse_failed"
      [("line", .int location.line), ("column", .int location.column), ("reason", .ofString reason)]
  | .notFound line => .make .debug service "function_not_found" [("line", .int line)]
  | .unknownKind function line kind =>
    .make .warning service "unknown_param_type"
      [("function", .ofString function), ("line", .int line), ("kind", .ofString kind)]
  | .located function line count =>
    .make .debug service "function_located"
      [("function", .ofString function), ("line", .int line), ("param_count", .int count)]
where
  /-- The logger of descriptions. -/
  service : String := "jsdoc_parser.services.signature_service"

end DocSignature
