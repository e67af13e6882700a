import DocSignature.Json.Value

/-!
# Settings

`Settings` come from an `Environment`, the variables of a process in the order in which they were
set, by a `SettingsReader`. `Settings.read` is the reader of the program. It reads a field from the
variable with its name behind a common beginning, in any case of letters; of several such variables
the last counts. Where the process has none, one that a `.env` file sets counts. `Settings.read` is
given these as an environment of their own, and gives the settings or every field that cannot be
read, in the order of the fields.

A `SettingsCache` keeps what a reader gave, and does not ask how it reads.
-/

namespace DocSignature

/-! ## Environments -/

/-- The variables of a process and their values, in the order in which they were first set. -/
abbrev Environment := List (String × String)

namespace Environment

/-- Sets a variable. One that is set already keeps its place. -/
def set (env : Environment) (key value : String) : Environment :=
  if env.any (·.1 == key) then env.map fun v => if v.1 == key then (key, value) else v
  else env ++ [(key, value)]

/-- Removes a variable. -/
def unset (env : Environment) (key : String) : Environment := env.filter (·.1 != key)

/-- The value of a variable whose name is given in lower case. -/
def lookup? (env : Environment) (name : String) : Option String :=
  (env.reverse.find? fun v => v.1.map Char.toLower == name).map (·.2)

end Environment

/-! ## Values -/

/-- What is wrong with a value. -/
inductive FieldFault where
  /-- Nothing is given, and something must be. -/
  | missing
  /-- A text that is no whole number. -/
  | intParsing
  /-- A number with a fraction where a whole one must stand. -/
  | intFromFloat
  /-- Neither a number nor a text that could be one. -/
  | intType
  /-- A number that is no finite one. -/
  | finiteNumber
  /-- A number below the least that is allowed. -/
  | greaterThanEqual
  /-- A text or a number that is no truth value. -/
  | boolParsing
  /-- Neither a truth value nor something that could be one. -/
  | boolType
  /-- Not a text. -/
  | stringType
  /-- A value that none of the allowed ones is. -/
  | valueError
  /-- Not an object. -/
  | modelType
  /-- A text that is not JSON. -/
  | jsonInvalid
  deriving DecidableEq, Repr

/-- The word for a fault. -/
def FieldFault.word : FieldFault → String
  | .missing => "missing"
  | .intParsing => "int_parsing"
  | .intFromFloat => "int_from_float"
  | .intType => "int_type"
  | .finiteNumber => "finite_number"
  | .greaterThanEqual => "greater_than_equal"
  | .boolParsing => "bool_parsing"
  | .boolType => "bool_type"
  | .stringType => "string_type"
  | .valueError => "value_error"
  | .modelType => "model_attributes_type"
  | .jsonInvalid => "json_invalid"

/-- Drops a fraction of zeros. -/
def dropZeroFraction (s : List Char) : List Char :=
  let fraction := s.dropWhile (· != '.')
  if (fraction.drop 1).all (· == '0') then s.takeWhile (· != '.') else s

/-- Drops zeros in front of a number, with the separators among them. The last zero stays where no
other digit follows. -/
def dropLeadingZeros (s : List Char) : List Char :=
  if s.head? != some '0' then s
  else
    let zeros := s.takeWhile fun c => c == '0' || c == '_'
    match s.drop zeros.length with
    | d :: rest =>
      if Decimal.isDigit d then d :: rest else zeros.drop (zeros.length - 1) ++ d :: rest
    | [] => zeros.drop (zeros.length - 1)

/-- The whole number that a text spells: blanks may stand around it, a sign before it, a `_` between
two digits, zeros in front of it unless it is negative, and a fraction of zeros behind it. -/
def intOfText? (s : List Char) : Option Int :=
  match Text.trim s with
  | '-' :: s =>
    let digits := dropZeroFraction s
    -- A separator may follow the minus sign.
    let digits := if digits.head? == some '_' then digits.drop 1 else digits
    let bare := digits.filter (· != '_')
    if bare.head? == some '0' && decide (1 < bare.length) then none
    else (Numeral.whole? 10 digits).map (Numeral.withSign true)
  | '+' :: s => (Numeral.whole? 10 (dropZeroFraction (dropLeadingZeros s))).map (Numeral.withSign false)
  | s => (Numeral.whole? 10 (dropZeroFraction (dropLeadingZeros s))).map (Numeral.withSign false)

/-- The words for yes. -/
def yesWords : List String := ["1", "true", "t", "yes", "y", "on"]

/-- The words for no. -/
def noWords : List String := ["0", "false", "f", "no", "n", "off"]

/-- The truth value that a word stands for, in any case of letters. -/
def boolOfText? (s : String) : Option Bool :=
  let word := s.map Char.toLower
  if yesWords.contains word then some true
  else if noWords.contains word then some false
  else none

/-- A letter as a capital. Letters of ASCII have one, and the letter `ı` has the capital `I`; no
other character becomes a capital of ASCII that occurs in the name of a level. -/
def capital (c : Char) : Char := if c == 'ı' then 'I' else c.toUpper

/-- A word in capitals, as far as the names of levels need them. -/
def capitals (s : String) : String := s.map capital

/-! ## Settings -/

/-- What a process is set to do. -/
structure Settings where
  appName : String := "jsdoc-parser"
  debug : Bool := false
  logLevel : String := "INFO"
  jsonLogs : Bool := false
  host : String := "0.0.0.0"
  port : Int := 8000
  maxSourceBytes : Int := 1000000
  reusePlaceholder : Bool := false
  deriving DecidableEq, Repr

/-- The fields that cannot be read, each with what is wrong. -/
abbrev FieldFaults := List (String × FieldFault)

namespace Settings

/-- What the name of each variable begins with. -/
def common : String := "jsdoc_parser_"

/-- The names of the fields. -/
def fieldNames : List String :=
  ["app_name", "debug", "log_level", "json_logs", "host", "port", "max_source_bytes",
   "reuse_placeholder"]

/-- The names of the levels. -/
def levels : List String := ["DEBUG", "INFO", "WARNING", "ERROR", "CRITICAL"]

/-- Reads a field from its variable, or takes what it is without one. -/
def field {α : Type} (env : Environment) (name : String) (fallback : α)
    (read : String → Except FieldFault α) : Except FieldFault α :=
  match env.lookup? (common ++ name) with
  | some value => read value
  | none => .ok fallback

/-- Reads a truth value. -/
def readBool (s : String) : Except FieldFault Bool :=
  match boolOfText? s with
  | some b => .ok b
  | none => .error .boolParsing

/-- Reads a whole number. -/
def readInt (s : String) : Except FieldFault Int :=
  match intOfText? s.toList with
  | some n => .ok n
  | none => .error .intParsing

/-- Reads the name of a level. -/
def readLevel (s : String) : Except FieldFault String :=
  let name := capitals s
  if levels.contains name then .ok name else .error .valueError

/-- The fault of a field, if it has one. -/
def faultOf {α : Type} (name : String) : Except FieldFault α → FieldFaults
  | .ok _ => []
  | .error e => [(name, e)]

/-- The settings of an environment, or all fields that cannot be read. `file` holds the variables
that a `.env` file sets. -/
def read (file env : Environment) : Except FieldFaults Settings :=
  let env := file ++ env
  let default : Settings := {}
  let appName := field env "app_name" default.appName .ok
  let debug := field env "debug" default.debug readBool
  let logLevel := field env "log_level" default.logLevel readLevel
  let jsonLogs := field env "json_logs" default.jsonLogs readBool
  let host := field env "host" default.host .ok
  let port := field env "port" default.port readInt
  let maxSourceBytes := field env "max_source_bytes" default.maxSourceBytes readInt
  let reusePlaceholder := field env "reuse_placeholder" default.reusePlaceholder readBool
  match appName, debug, logLevel, jsonLogs, host, port, maxSourceBytes, reusePlaceholder with
  | .ok appName, .ok debug, .ok logLevel, .ok jsonLogs, .ok host, .ok port, .ok maxSourceBytes,
      .ok reusePlaceholder =>
    .ok { appName, debug, logLevel, jsonLogs, host, port, maxSourceBytes, reusePlaceholder }
  | _, _, _, _, _, _, _, _ =>
    .error (faultOf "app_name" appName ++ faultOf "debug" debug ++ faultOf "log_level" logLevel ++
      faultOf "json_logs" jsonLogs ++ faultOf "host" host ++ faultOf "port" port ++
      faultOf "max_source_bytes" maxSourceBytes ++ faultOf "reuse_placeholder" reusePlaceholder)

/-- The settings as an object, each field under its name. -/
def toJson (s : Settings) : Json :=
  .ofMembers [("app_name", .ofString s.appName), ("debug", .bool s.debug),
    ("log_level", .ofString s.logLevel), ("json_logs", .bool s.jsonLogs),
    ("host", .ofString s.host), ("port", .int s.port),
    ("max_source_bytes", .int s.maxSourceBytes), ("reuse_placeholder", .bool s.reusePlaceholder)]

end Settings

/-- How settings are read: the settings of each environment, or the fields that cannot be read. -/
abbrev SettingsReader := Environment → Except FieldFaults Settings

/-! ## The cache -/

/-- Settings are read once: an environment, and the settings that were read from it or an earlier
one. -/
structure SettingsCache where
  /-- The variables as they are now. -/
  env : Environment := []
  /-- The settings that were read last, until they are forgotten. -/
  cached : Option Settings := none

namespace SettingsCache

/-- The settings, read now unless they were read before. Only settings that could be read are
kept. -/
def settings (read : SettingsReader) (c : SettingsCache) :
    Except FieldFaults Settings × SettingsCache :=
  match c.cached with
  | some s => (.ok s, c)
  | none =>
    match read c.env with
    | .ok s => (.ok s, { c with cached := some s })
    | .error e => (.error e, c)

/-- Forgets the settings. -/
def clear (c : SettingsCache) : SettingsCache := { c with cached := none }

end SettingsCache

end DocSignature
