import DocSignature.Http.Server
import DocSignature.Http.Standard
import DocSignature.Proofs.ParsedTree
import DocSignature.Proofs.Response

/-!
# Serving is describing

A server looks its settings up at each request, so what it answers could hang on the requests
before. It does not : `Server.Serves` says that the lookup finds the settings of an application, a
start makes it so (`Server.start_serves`), and a request leaves it so and is answered as the
application answers it (`Server.step_eq`). A run therefore answers each request on its own
(`Server.run_eq`).

`Shows` says what a response has to be for what came of a description. The main statement,
`server_answers_as_session`, puts both together : a request to describe a function is refused for
its size, or its response shows what a session comes to that is asked for the same description. It
holds of any `Libraries`, as far as their parser follows the grammar (`Parser.FollowsGrammar`).

The parser of `standard` does so on every text (`JavaScript.parse_followsGrammar`), and its reader of
bodies reads a body in plain words as what it asks for (`Query.ofRequest_of_asks`).
-/

namespace DocSignature

theorem SettingsCache.settings_of_cached {c : SettingsCache} {s : Settings}
    (h : c.cached = some s) (read : SettingsReader) : c.settings read = (.ok s, c) := by
  simp only [settings, h]

/-- Where a parser follows the grammar, a caller is told what came of a description. -/
theorem Parser.FollowsGrammar.told_outcome {parse : Parser} {text : String}
    (h : parse.FollowsGrammar (.ofString text)) (reuse : Bool) (line : Int) :
    Told (describeText parse reuse text line).outcome := by
  by_cases hflagged : (parse (.ofString text)).flagged
  · -- The tree is refused, for whatever it holds.
    obtain ⟨⟨location, reason⟩, hrefusal⟩ :=
      Option.isSome_iff_exists.mp (isSome_refusal?_iff.mpr hflagged)
    rw [describeText, outcome_of_refusal hrefusal]
    exact .unreadable location reason
  · exact outcome_told (h hflagged) reuse line

namespace Http

variable {libs : Libraries}

/-! ## Settings that no request changes -/

namespace App

/-- No route but that of descriptions reads the settings. -/
theorem onRoute_congr {a b : App} (hfault : a.grammarFault = b.grammarFault) (r : Request) :
    ∀ {route : Route}, route ≠ .signatures → a.onRoute libs r route = b.onRoute libs r route
  | .health, _ => by simp only [onRoute, health, hfault]
  | .live, _ => rfl
  | .signatures, h => absurd rfl h

/-- A request that does not read the settings is answered alike whatever they are. -/
theorem respond_of_not_readsSettings {r : Request} (h : r.readsSettings = false) {a b : App}
    (hfault : a.grammarFault = b.grammarFault) : a.respond libs r = b.respond libs r := by
  cases hroute : Route.ofPath? r.path with
  | none => simp only [respond, hroute]
  | some route =>
    by_cases hsignatures : route = .signatures
    · -- The path is right, so the method is not, and the request is refused.
      subst hsignatures
      have hmethod : (Route.signatures.method == r.method.map Char.toUpper) = false := by
        simpa [Request.readsSettings, hroute] using h
      simp only [respond, hroute, hmethod, Bool.false_eq_true, if_false]
    · simp only [respond, hroute, onRoute_congr hfault r hsignatures]

theorem respond_of_post {r : Request} (hroute : Route.ofPath? r.path = some .signatures)
    (hmethod : r.method.map Char.toUpper = "POST") (a : App) :
    a.respond libs r = a.onRoute libs r .signatures := by
  have heq : (Route.signatures.method == r.method.map Char.toUpper) = true := by
    rw [hmethod]
    rfl
  simp only [respond, hroute, heq, if_true]

end App

namespace Server

variable {s : Server} {app : App}

/-- The server answers for an application : the settings that it looks up are those of the
application, and so is the fault of the grammar. -/
structure Serves (s : Server) (app : App) : Prop where
  cached : s.cache.cached = some app.settings
  grammarFault : s.grammarFault = app.grammarFault

theorem start_serves {env : Environment} {fault : Option String}
    (h : start libs env fault = .ok s) :
    ∃ app, libs.settings env = .ok app.settings ∧ s.Serves app := by
  unfold start SettingsCache.settings at h
  cases hread : libs.settings env with
  | error faults => simp [hread] at h
  | ok settings =>
    refine ⟨⟨settings, fault⟩, rfl, ?_⟩
    simp only [hread, Except.ok.injEq] at h
    subst h
    exact ⟨rfl, rfl⟩

/-- A request is answered as the application answers it, and leaves the server as it was. -/
theorem step_eq (h : s.Serves app) (r : Request) : s.step libs r = (app.respond libs r, s) := by
  unfold step
  split
  · have happ : (⟨app.settings, s.grammarFault⟩ : App) = app := by rw [h.grammarFault]
    simp only [SettingsCache.settings_of_cached h.cached, happ]
  · next hr =>
    rw [App.respond_of_not_readsSettings (by simpa using hr) h.grammarFault]

/-- Each request of a run is answered on its own. -/
theorem run_eq (h : s.Serves app) (rs : List Request) :
    s.run libs rs = (rs.map (app.respond libs), s) := by
  induction rs with
  | nil => rfl
  | cons r rest ih => simp only [run, step_eq h, ih, List.map_cons]

theorem getElem?_run (h : s.Serves app) (before after : List Request) (r : Request) :
    (s.run libs (before ++ r :: after)).1[before.length]? = some (app.respond libs r) := by
  simp [run_eq h]

end Server

/-! ## Responses and descriptions -/

/-- What came of a description, as a response shows it : the signature or its absence, written in
ASCII with whole numbers of any length, or the error in full. -/
inductive Shows : Except Failure (Option Signature) → Response → Prop
  | function (s : Signature) :
      Shows (.ok (some s)) (.text 200 (Json.ascii (.ofMembers [("function", s.toJson)])))
  | nothing : Shows (.ok none) (.text 200 (Json.ascii (.ofMembers [("function", .null)])))
  | rejected {e : SignatureError} {response : Response} (hstatus : response.status = 422)
      (hjson : response.json? = some (.ofMembers [("detail", e.toJson)])) :
      Shows (.error (.source e)) response

namespace App

variable {a : App} {q : Query} {text : String} {parse : Parser}

theorem describe_of_large (htext : q.source = Text.ofString text)
    (h : a.settings.maxSourceBytes < (Utf8.encode text.toList).length) :
    (a.describe parse q).1.status = 413 := by
  simp only [describe, htext, Text.toString?_ofString, h, if_true]
  rfl

theorem describe_of_fits (htext : q.source = Text.ofString text)
    (h : ((Utf8.encode text.toList).length : Int) ≤ a.settings.maxSourceBytes) :
    (a.describe parse q).1 =
      ofOutcome
        (describeText parse (q.reuse.getD a.settings.reusePlaceholder) text q.line).outcome := by
  simp only [describe, htext, Text.toString?_ofString, if_neg (not_lt.mpr h)]

theorem status_ofOutcome_ne_tooLarge :
    ∀ outcome : Except Failure (Option Signature), (ofOutcome outcome).status ≠ 413
  | .ok _ => by simp [ofOutcome, Response.status]
  | .error (.source _) => by simp [ofOutcome, Response.status]
  | .error (.malformed _) => by simp [ofOutcome, serverError, Response.status]

theorem status_describe_eq_tooLarge_iff (htext : q.source = Text.ofString text) :
    (a.describe parse q).1.status = 413 ↔
      a.settings.maxSourceBytes < (Utf8.encode text.toList).length := by
  refine ⟨fun hstatus => ?_, describe_of_large htext⟩
  by_contra hfits
  rw [describe_of_fits htext (not_lt.mp hfits)] at hstatus
  exact status_ofOutcome_ne_tooLarge _ hstatus

/-- What a caller is told is shown. -/
theorem shows_ofOutcome {outcome : Except Failure (Option Signature)} (h : Told outcome) :
    Shows outcome (ofOutcome outcome) := by
  cases h with
  | ok found =>
    cases found with
    | none => exact .nothing
    | some s => exact .function s
  | unreadable location reason => exact .rejected rfl rfl
  | unknownKind kind => exact .rejected rfl rfl

end App

/-! ## Requests in plain words -/

/-- An object spells a query : its source is a text, its line a whole number that is not negative,
and its choice of placeholders a truth value. The line may be left out for the first one, and the
choice, which may also be null, for none. -/
structure Query.SpelledBy (q : Query) (j : Json) : Prop where
  source : j.get? "source" = some (.str q.source)
  line : j.get? "line" = some (.int q.line) ∨ j.get? "line" = none ∧ q.line = 1
  line_nonneg : 0 ≤ q.line
  reuse : (∃ b, j.get? "reuse_placeholder" = some (.bool b) ∧ q.reuse = some b) ∨
    (j.get? "reuse_placeholder" = some .null ∨ j.get? "reuse_placeholder" = none) ∧ q.reuse = none

/-- A request asks for a query in plain words : its body is of the type of JSON, and the object in
it spells the query. -/
def Request.Asks (r : Request) (q : Query) : Prop :=
  r.contentType = "application/json" ∧
    ∃ body j, r.body = some body ∧ Json.read body.toList = .ok j ∧ q.SpelledBy j

namespace Query

variable {q : Query} {j : Json}

theorem readLine_of_spelledBy (h : q.SpelledBy j) : readLine (j.get? "line") = .ok q.line := by
  rcases h.line with hline | ⟨hline, hone⟩
  · simp only [hline, readLine, readWhole, if_neg (not_lt.mpr h.line_nonneg)]
  · rw [hline, hone]
    rfl

theorem readChoice_of_spelledBy (h : q.SpelledBy j) :
    readChoice (j.get? "reuse_placeholder") = .ok q.reuse := by
  rcases h.reuse with ⟨b, hchoice, hreuse⟩ | ⟨hchoice | hchoice, hreuse⟩ <;>
    rw [hchoice, hreuse] <;> rfl

theorem ofJson_of_spelledBy (h : q.SpelledBy j) : ofJson j = .ok q := by
  cases j with
  | obj members =>
    have hsource : readSource ((Json.obj members).get? "source") = .ok q.source := by
      rw [h.source]
      rfl
    simp only [ofJson, hsource, readLine_of_spelledBy h, readChoice_of_spelledBy h]
  | _ => exact absurd h.source (by simp [Json.get?])

/-- A request in plain words is read as what it asks for. -/
theorem ofRequest_of_asks {r : Request} (h : r.Asks q) : ofRequest r = .ok q := by
  obtain ⟨htype, body, j, hbody, hread, hspelled⟩ := h
  have hjson : isJsonType "application/json" = true := by decide +kernel
  have hempty : body.isEmpty = false := by
    rw [Bool.eq_false_iff]
    intro hempty
    rw [String.isEmpty_iff.mp hempty] at hread
    cases hread
  simp only [ofRequest, hbody, htype, Option.getD_some, hempty, hjson, hread,
    ofJson_of_spelledBy hspelled, Bool.not_true, Bool.false_eq_true, if_false]

end Query

/-- The request to describe the function at a line of a source, with a choice of placeholders. -/
def Request.describing (text : String) (line : Nat) (reuse : Option Bool) : Request where
  method := Route.signatures.method
  path := Route.signatures.path
  body := some (Json.ascii (.ofMembers [("source", .ofString text), ("line", .int line),
    ("reuse_placeholder", reuse.elim .null .bool)]))

/-- Every source, line and choice can be asked for : what is written as the body of a request is
what is read from it. -/
theorem Request.asks_describing (text : String) (line : Nat) (reuse : Option Bool) :
    (Request.describing text line reuse).Asks ⟨Text.ofString text, line, reuse⟩ := by
  refine ⟨rfl, _, _, rfl, Json.read_ascii (Json.canonical_ofMembers ?_), ?_⟩
  · simp only [List.forall_mem_cons, List.not_mem_nil, false_implies, implies_true, and_true]
    refine ⟨Json.canonical_ofString text, .int line, ?_⟩
    cases reuse with
    | none => exact .null
    | some b => exact .bool b
  · constructor
    case line => exact Or.inl (by simp [Json.get?_ofMembers])
    case line_nonneg => exact Int.natCast_nonneg line
    case source =>
      rw [Json.get?_ofMembers]
      rfl
    case reuse => cases reuse <;> simp [Json.get?_ofMembers]

/-! ## Servers and sessions -/

/-- In an environment whose settings can be read, a request to describe a function of a source gets
one answer, whatever was asked before and whatever is asked after. The status is 413 exactly if the
source has more bytes than the settings allow, whatever is in it. Otherwise, if the parser follows
the grammar on the source, the response shows what a session comes to that describes the same line
with the placeholders that the request chooses, or the settings if it does not : the signature or
its absence with the status 200, or the error with the status 422. -/
theorem server_answers_as_session (libs : Libraries) (env : Environment) (fault : Option String)
    (server : Server) (hstart : Server.start libs env fault = .ok server) (r : Request)
    (hroute : Route.ofPath? r.path = some .signatures)
    (hmethod : r.method.map Char.toUpper = "POST") (q : Query) (hq : libs.query r = .ok q)
    (text : String) (htext : q.source = Text.ofString text) :
    ∃ settings answer, libs.settings env = .ok settings ∧
      (∀ before after, (server.run libs (before ++ r :: after)).1[before.length]? = some answer) ∧
      (answer.1.status = 413 ↔ settings.maxSourceBytes < (Utf8.encode text.toList).length) ∧
      ((Utf8.encode text.toList).length ≤ settings.maxSourceBytes →
        libs.parse.FollowsGrammar (.ofString text) → ∀ session : Session, ∃ report,
          (session.step libs.toLibraries (.describeOnce text q.line
            (some (q.reuse.getD settings.reusePlaceholder)))).1 = .report report ∧
          Shows report.outcome answer.1) := by
  obtain ⟨app, hread, serves⟩ := Server.start_serves hstart
  have hrespond : app.respond libs r = app.describe libs.parse q := by
    rw [App.respond_of_post hroute hmethod]
    simp only [App.onRoute, hq]
  refine ⟨app.settings, app.describe libs.parse q, hread, fun before after => ?_,
    App.status_describe_eq_tooLarge_iff htext, fun hfits hgrammar session => ⟨_, rfl, ?_⟩⟩
  · rw [← hrespond]
    exact Server.getElem?_run serves before after r
  · rw [App.describe_of_fits htext hfits]
    exact App.shows_ofOutcome (hgrammar.told_outcome _ _)

theorem standard_query_of_asks {r : Request} {q : Query} (h : r.Asks q) :
    standard.query r = .ok q :=
  Query.ofRequest_of_asks h

/-- An environment that allows sources of twenty-five bytes. -/
def narrow : Environment := [("JSDOC_PARSER_MAX_SOURCE_BYTES", "25")]

theorem read_narrow : standard.settings narrow = .ok { maxSourceBytes := 25 } := by decide +kernel

theorem start_narrow :
    Server.start standard narrow none = .ok ⟨⟨narrow, some { maxSourceBytes := 25 }⟩, none⟩ := by
  simp only [Server.start, SettingsCache.settings, read_narrow]

/-- A source of twenty-six bytes in which no function can be read. -/
def openSource : String := "\n\nfunction f(((((((((((((("

/-- A source of twenty-five bytes with a function of two objects at its third line. -/
def pairSource : String := "\n\nfunction f(\x7ba\x7d, \x7bb\x7d) \x7b\x7d"

/-- The names in a signature : that of the function, and those of its parameters with the parameters
that they belong to. -/
def namesOf (s : Signature) : String × List (String × Option String) :=
  (s.name, s.params.map fun p => (p.name, p.parent))

/-- The placeholders of both objects have the same name if they are reused. -/
theorem outcome_pairSource :
    ∃ s, (describeText JavaScript.parse true pairSource 3).outcome = .ok (some s) ∧
      namesOf s = ("f", [("Unknown", none), ("a", some "Unknown"), ("Unknown", none),
        ("b", some "Unknown")]) := by
  have hnames : ((describeText JavaScript.parse true pairSource 3).outcome.toOption.bind id).map
      namesOf = some ("f", [("Unknown", none), ("a", some "Unknown"), ("Unknown", none),
        ("b", some "Unknown")]) := by
    decide +kernel
  generalize (describeText JavaScript.parse true pairSource 3).outcome = outcome at hnames ⊢
  rcases outcome with e | _ | s
  · cases hnames
  · cases hnames
  · exact ⟨s, rfl, Option.some.inj hnames⟩

/-- The source that is too large is refused whatever is in it. In the other one the function is
described that the line is for, with the placeholders that the request chooses and not with those of
the settings. Both are so at any place in a run. -/
theorem server_answers_narrow :
    ∃ server, Server.start standard narrow none = .ok server ∧ ∀ before after,
      (server.run standard (before ++ .describing openSource 3 none :: after)).1[
        before.length]?.map (·.1.status) = some 413 ∧
      ∃ s, namesOf s = ("f", [("Unknown", none), ("a", some "Unknown"), ("Unknown", none),
          ("b", some "Unknown")]) ∧
        (server.run standard (before ++ .describing pairSource 3 (some true) :: after)).1[
          before.length]?.map (·.1) =
            some (.text 200 (Json.ascii (.ofMembers [("function", s.toJson)]))) := by
  have hroute : Route.ofPath? Route.signatures.path = some .signatures := by decide +kernel
  have hmethod : Route.signatures.method.map Char.toUpper = "POST" := by decide +kernel
  refine ⟨_, start_narrow, fun before after => ⟨?_, ?_⟩⟩
  · obtain ⟨settings, answer, hread, hanswer, hlarge, -⟩ :=
      server_answers_as_session standard narrow none _ start_narrow
        (.describing openSource 3 none) hroute hmethod _
        (standard_query_of_asks (Request.asks_describing openSource 3 none)) openSource rfl
    obtain rfl := Except.ok.inj (read_narrow.symm.trans hread)
    rw [hanswer, Option.map_some, hlarge.mpr (by decide +kernel)]
  · obtain ⟨settings, answer, hread, hanswer, -, hfits⟩ :=
      server_answers_as_session standard narrow none _ start_narrow
        (.describing pairSource 3 (some true)) hroute hmethod _
        (standard_query_of_asks (Request.asks_describing pairSource 3 (some true))) pairSource rfl
    obtain rfl := Except.ok.inj (read_narrow.symm.trans hread)
    obtain ⟨report, hreport, hshows⟩ :=
      hfits (by decide +kernel) (JavaScript.parse_followsGrammar pairSource) {}
    obtain rfl := Session.Answer.report.inj hreport
    obtain ⟨s, houtcome, hnames⟩ := outcome_pairSource
    refine ⟨s, hnames, ?_⟩
    rw [hanswer, Option.map_some]
    generalize answer.1 = response at hshows ⊢
    change Shows (describeText JavaScript.parse true pairSource 3).outcome response at hshows
    rw [houtcome] at hshows
    cases hshows
    rfl

end Http

end DocSignature
