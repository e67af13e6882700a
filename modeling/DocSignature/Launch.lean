import DocSignature.Settings

/-!
# Launching the server

A `Launch` says what server is started and how: the factory of the application, the address, whether
the code is watched for changes, and how much is logged.
-/

namespace DocSignature

/-- How the server is started. -/
structure Launch where
  /-- The factory of the application. -/
  factory : String := "jsdoc_parser.api.app:create_app"
  /-- The address. -/
  host : String
  /-- The port. -/
  port : Int
  /-- Whether changes of the code restart the server. -/
  reload : Bool
  /-- The level of the log, in lower case. -/
  logLevel : String
  /-- Whether each access is logged. -/
  accessLog : Bool
  deriving DecidableEq, Repr

/-- The launch that settings ask for. -/
def Launch.ofSettings (s : Settings) : Launch where
  host := s.host
  port := s.port
  reload := s.debug
  logLevel := s.logLevel.map Char.toLower
  accessLog := s.debug

/-- The launch in an environment, or the fields that cannot be read. -/
def Launch.ofEnvironment (read : SettingsReader) (env : Environment) : Except FieldFaults Launch :=
  (read env).map Launch.ofSettings

/-- A launch as an object, each field under its name. -/
def Launch.toJson (l : Launch) : Json :=
  .ofMembers [("factory", .ofString l.factory), ("host", .ofString l.host), ("port", .int l.port),
    ("reload", .bool l.reload), ("log_level", .ofString l.logLevel),
    ("access_log", .bool l.accessLog)]

end DocSignature
