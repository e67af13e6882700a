import DocSignature.Describe
import DocSignature.Settings

/-!
# Sessions

A `Session` is a process that describes functions: its environment with the settings read from it,
and the services it has made. A service keeps the choice of placeholders it was made with, and is
known by how many were made before it. `Session.step` carries out one `Request` and `Session.run` a
list of them. How sources are parsed and settings are read is for `Libraries` to say.

Settings are read only where a choice is left open, and then before any source is looked at.
-/

namespace DocSignature

/-- What a session is given to work with. -/
structure Libraries where
  /-- The parser of sources. -/
  parse : Parser
  /-- How settings are read. -/
  settings : SettingsReader

namespace Session

/-- What a session is asked to do. -/
inductive Request where
  /-- Sets a variable of the environment. -/
  | setVariable (key value : String)
  /-- Removes a variable of the environment. -/
  | unsetVariable (key : String)
  /-- Forgets the settings that were read. -/
  | clear
  /-- Shows the settings. -/
  | settings
  /-- Makes a service, with placeholders reused or not, or as the settings say. -/
  | makeService (reuse : Option Bool)
  /-- Describes a function with the service of a number, or with the one made last. -/
  | describe (text : String) (line : Int) (service : Option Nat := none)
  /-- Describes a function on its own. -/
  | describeOnce (text : String) (line : Int) (reuse : Option Bool)

/-- What a session answers. -/
inductive Answer where
  /-- Done. -/
  | done
  /-- The settings. -/
  | settings (s : Settings)
  /-- The settings cannot be read. -/
  | invalid (faults : FieldFaults)
  /-- No such service was made. -/
  | noService
  /-- What came of a description. -/
  | report (r : Report)

end Session

/-- A process that describes functions. -/
structure Session where
  /-- The environment and the settings read from it. -/
  cache : SettingsCache := {}
  /-- Whether each service reuses placeholders, in the order in which they were made. -/
  services : List Bool := []

namespace Session

variable (libs : Libraries)

/-- The choice that is made, or the one that the settings say. -/
def choice (s : Session) : Option Bool → Except FieldFaults Bool × Session
  | some reuse => (.ok reuse, s)
  | none =>
    let (settings, cache) := s.cache.settings libs.settings
    (settings.map (·.reusePlaceholder), { s with cache })

/-- Whether the service of a number, or the one made last, reuses placeholders. -/
def service? (s : Session) : Option Nat → Option Bool
  | some k => s.services[k]?
  | none => s.services.getLast?

/-- Carries out a request. -/
def step (s : Session) : Request → Answer × Session
  | .setVariable key value =>
    (.done, { s with cache := { s.cache with env := s.cache.env.set key value } })
  | .unsetVariable key => (.done, { s with cache := { s.cache with env := s.cache.env.unset key } })
  | .clear => (.done, { s with cache := s.cache.clear })
  | .settings =>
    match s.cache.settings libs.settings with
    | (.ok settings, cache) => (.settings settings, { s with cache })
    | (.error faults, cache) => (.invalid faults, { s with cache })
  | .makeService reuse =>
    match s.choice libs reuse with
    | (.ok reuse, s) => (.done, { s with services := s.services ++ [reuse] })
    | (.error faults, s) => (.invalid faults, s)
  | .describe text line service =>
    match s.service? service with
    | some reuse => (.report (describeText libs.parse reuse text line), s)
    | none => (.noService, s)
  | .describeOnce text line reuse =>
    match s.choice libs reuse with
    | (.ok reuse, s) => (.report (describeText libs.parse reuse text line), s)
    | (.error faults, s) => (.invalid faults, s)

/-- Carries out requests in order. -/
def run (s : Session) : List Request → List Answer × Session
  | [] => ([], s)
  | r :: rest =>
    let (answer, s) := s.step libs r
    let (answers, s) := s.run rest
    (answer :: answers, s)

end Session

end DocSignature
