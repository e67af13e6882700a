import DocSignature.Http.Message
import DocSignature.Json.Writer
import DocSignature.Log
import DocSignature.Session

/-!
# The application

An `App` answers requests: whether it is well (`/health`), whether it is there (`/live`), and the
function at a line of a source (`/api/v1/signatures`). Its settings are read once, when it is made,
and an answer depends on nothing but them and the request. Beside the response, `App.respond` gives
the records of the log. The body of a request is read as the `Libraries` of the application say.
-/

namespace DocSignature.Http

/-- What an application is given to work with. -/
structure Libraries extends DocSignature.Libraries where
  /-- What a request to describe a function asks for, or what is wrong with its body. -/
  query : Request → Except (List BodyFault) Query

/-- The version of the application. -/
def version : String := "0.1.0"

/-- An application. -/
structure App where
  /-- What it is set to do. -/
  settings : Settings
  /-- Why the grammar cannot be loaded, if it cannot. -/
  grammarFault : Option String := none

/-- What the application can be asked for. -/
inductive Route where
  | health
  | live
  | signatures
  deriving DecidableEq, Repr

namespace Route

/-- The path of a route. -/
def path : Route → String
  | .health => "/health"
  | .live => "/live"
  | .signatures => "/api/v1/signatures"

/-- The method of a route. -/
def method : Route → String
  | .signatures => "POST"
  | _ => "GET"

/-- Replaces each percent sign with two hexadecimal digits by the character with that code. -/
def unescapePath : List Char → List Char
  | '%' :: a :: b :: s =>
    match Numeral.digitIn? 16 a, Numeral.digitIn? 16 b with
    | some x, some y => Char.ofNat (16 * x + y) :: unescapePath s
    | _, _ => '%' :: unescapePath (a :: b :: s)
  | c :: s => c :: unescapePath s
  | [] => []

/-- The path that counts: without the query, from a slash on, without slashes at its end. -/
def canonical (path : String) : String :=
  let s := path.toList.takeWhile fun c => c != '?' && c != '#'
  let s := unescapePath s
  let s := if s.head? == some '/' then s else '/' :: s
  String.ofList (s.reverse.dropWhile (· == '/')).reverse

/-- The route of a path. -/
def ofPath? (path : String) : Option Route :=
  [health, live, signatures].find? fun r => r.path == canonical path

end Route

namespace App

/-- The logger of the application itself. -/
def logger : String := "jsdoc_parser.api.app"

/-- The application that an environment asks for. -/
def ofEnvironment (read : SettingsReader) (env : Environment) (grammarFault : Option String) :
    Except FieldFaults App :=
  (read env).map fun settings => { settings, grammarFault }

/-- How the application logs. -/
def policy (a : App) : Log.Policy := .ofSettings a.settings none none

/-- The records of an application that is made and started. -/
def startRecords (a : App) : List Log.Record :=
  [.make .info logger "application_configured"
    [("debug", .bool a.settings.debug), ("reuse_placeholder", .bool a.settings.reusePlaceholder)],
   .make .info logger "application_starting" [("version", .ofString version)]]

/-- The records of an application that stops. -/
def stopRecords : List Log.Record := [.make .info logger "application_stopped" []]

/-- The record of a source that is refused. -/
def rejection (e : SignatureError) : Log.Record :=
  .make .info "jsdoc_parser.api.routes.signatures" "signature_request_rejected"
    [("error", .ofString e.word), ("message", .ofString e.message)]

/-- Tells whether the application is well. -/
def health (a : App) : Response :=
  let grammar :=
    match a.grammarFault with
    | some fault => "unhealthy: " ++ fault
    | none => "healthy"
  .text 200 (Json.plain (.ofMembers
    [("status", .ofString (if a.grammarFault.isSome then "degraded" else "healthy")),
     ("version", .ofString version), ("grammar", .ofString grammar)]))

/-- Tells that the application is there. -/
def live : Response := .text 200 (Json.plain (.ofMembers [("alive", .bool true)]))

/-- What a request runs into that the application does not foresee. -/
def serverError : Response := .text 500 "Internal Server Error"

/-- The refusal of a source that is too large. -/
def tooLarge (size : Nat) (limit : Int) : Response :=
  .detail 413 ("Source is " ++ SignatureError.numeral size ++ " bytes; limit is " ++
    SignatureError.numeral limit)

/-- The response that shows what came of a description. -/
def ofOutcome : Except Failure (Option Signature) → Response
  | .ok found =>
    let function := (found.map Signature.toJson).getD .null
    .text 200 (Json.ascii (.ofMembers [("function", function)]))
  | .error (.source e) => .rejected e
  | .error (.malformed _) => serverError

/-- The record of a description that is refused. -/
def rejections : Except Failure (Option Signature) → List Log.Record
  | .error (.source e) => [rejection e]
  | _ => []

/-- Describes the function that a query asks for. -/
def describe (parse : Parser) (a : App) (q : Query) : Response × List Log.Record :=
  match Text.toString? q.source with
  | none => (serverError, [])
  | some text =>
    let size := (Utf8.encode text.toList).length
    if a.settings.maxSourceBytes < size then (tooLarge size a.settings.maxSourceBytes, [])
    else
      let report := describeText parse (q.reuse.getD a.settings.reusePlaceholder) text q.line
      (ofOutcome report.outcome, report.events.map Event.record ++ rejections report.outcome)

/-- The response on a route. -/
def onRoute (libs : Libraries) (a : App) (r : Request) : Route → Response × List Log.Record
  | .health => (a.health, [])
  | .live => (live, [])
  | .signatures =>
    match libs.query r with
    | .ok q => a.describe libs.parse q
    | .error faults => (.invalid faults, [])

/-- A response without its text, as a request for the head alone gets it. -/
def withoutText : Response → Response
  | .text status _ => .text status ""
  | response => response

/-- The response to a request, and the records of the log. -/
def respond (libs : Libraries) (a : App) (r : Request) : Response × List Log.Record :=
  let method := r.method.map Char.toUpper
  let refused (response : Response) : Response × List Log.Record :=
    (if method == "HEAD" then withoutText response else response, [])
  match Route.ofPath? r.path with
  | none => refused (.detail 404 "Not Found")
  | some route =>
    if route.method == method then a.onRoute libs r route
    else refused (.detail 405 "Method Not Allowed")

end App

end DocSignature.Http
