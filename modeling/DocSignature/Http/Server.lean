import DocSignature.Http.App

/-!
# Serving requests

A `Server` is a running process that answers one request after another. It starts only in an
environment whose settings can be read (`Server.start`). From then on it does not hold on to the
settings it saw: a request to describe a function looks them up again, in the cache that all requests
share, and leaves the cache as the lookup left it. `Server.step` answers one request and `Server.run`
a list of them.
-/

namespace DocSignature.Http

/-- Whether a request reads the settings: one to describe a function does, and no other. -/
def Request.readsSettings (r : Request) : Bool :=
  Route.ofPath? r.path == some .signatures &&
    Route.signatures.method == r.method.map Char.toUpper

/-- A process that answers requests. -/
structure Server where
  /-- The environment and the settings read from it. -/
  cache : SettingsCache
  /-- Why the grammar cannot be loaded, if it cannot. -/
  grammarFault : Option String := none

namespace Server

variable (libs : Libraries)

/-- Starts a server, or tells the fields of the settings that cannot be read. -/
def start (env : Environment) (grammarFault : Option String) : Except FieldFaults Server :=
  match SettingsCache.settings libs.settings { env } with
  | (.ok _, cache) => .ok { cache, grammarFault }
  | (.error faults, _) => .error faults

/-- Answers a request. -/
def step (s : Server) (r : Request) : (Response × List Log.Record) × Server :=
  if r.readsSettings then
    match s.cache.settings libs.settings with
    | (.ok settings, cache) =>
      (App.respond libs { settings, grammarFault := s.grammarFault } r, { s with cache })
    | (.error _, cache) => ((App.serverError, []), { s with cache })
  else
    -- The settings do not matter here, so those of an empty environment do.
    (App.respond libs { settings := {}, grammarFault := s.grammarFault } r, s)

/-- Answers requests in order. -/
def run (s : Server) : List Request → List (Response × List Log.Record) × Server
  | [] => ([], s)
  | r :: rest =>
    let (answer, s) := s.step libs r
    let (answers, s) := s.run rest
    (answer :: answers, s)

end Server

end DocSignature.Http
