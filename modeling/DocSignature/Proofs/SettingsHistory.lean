import DocSignature.Http.Standard
import Mathlib.Data.List.Infix

/-!
# Settings over a session

Requests of a session share one cache, which some of them read, some pass by and some empty, while
the environment changes under it. `Session.Seen` says what a read sees from the history alone : the
settings of the environment as it was at the first read since the last clearing that could be made
(`Session.FirstRead`), and if no read since then could be made (`Session.NoneRead`), what can be
read of the environment as it is. There is exactly one such answer (`Session.Seen.unique`).

`Session.Remembers` ties the cache to the history. A request keeps the tie
(`Session.Remembers.step`), so a run does (`Session.remembers_run`), and each read answers to what
is seen (`Session.answers_step`). Services are only ever added (`Session.services_run`), so one
keeps what it was made with.
-/

namespace DocSignature

namespace SettingsCache

/-- What a read of the settings sees : the settings that were kept, or what can be read now. -/
def seen (read : SettingsReader) (c : SettingsCache) : Except FieldFaults Settings :=
  match c.cached with
  | some settings => .ok settings
  | none => read c.env

/-- A read keeps the settings that it sees, and nothing if they cannot be read. -/
theorem settings_eq (read : SettingsReader) (c : SettingsCache) :
    c.settings read = (c.seen read, { c with cached := (c.seen read).toOption }) := by
  obtain ⟨env, cached⟩ := c
  cases cached with
  | some settings => rfl
  | none =>
    simp only [settings, seen]
    cases read env <;> rfl

end SettingsCache

namespace Session

/-- A session that begins in an environment. -/
def start (env : Environment) : Session := { cache := { env } }

/-! ## Histories -/

namespace Request

/-- Whether a request reads the settings : it shows them, or leaves the choice of placeholders to
them. -/
def readsSettings : Request → Bool
  | .settings => true
  | .makeService none => true
  | .describeOnce _ _ none => true
  | _ => false

/-- The environment that a request leaves. -/
def environment (env : Environment) : Request → Environment
  | .setVariable key value => env.set key value
  | .unsetVariable key => env.unset key
  | _ => env

theorem ne_clear_of_readsSettings {r : Request} (h : r.readsSettings) : r ≠ .clear := by
  rintro rfl
  simp [readsSettings] at h

theorem environment_of_readsSettings {r : Request} (h : r.readsSettings) (env : Environment) :
    r.environment env = env := by
  match r with
  | .settings => rfl
  | .makeService none => rfl
  | .describeOnce _ _ none => rfl

end Request

/-- The environment after a history. -/
def environmentAfter (env : Environment) (history : List Request) : Environment :=
  history.foldl Request.environment env

/-- No read since the last clearing could be made : the environment was invalid at each. -/
def NoneRead (read : SettingsReader) (env : Environment) (history : List Request) : Prop :=
  ∀ before r after, history = before ++ r :: after → r.readsSettings → Request.clear ∉ after →
    ∃ faults, read (environmentAfter env before) = .error faults

/-- The settings are those of the environment at the first read since the last clearing that could
be made. -/
def FirstRead (read : SettingsReader) (env : Environment) (history : List Request)
    (settings : Settings) : Prop :=
  ∃ before r after, history = before ++ r :: after ∧ r.readsSettings ∧ Request.clear ∉ after ∧
    NoneRead read env before ∧ read (environmentAfter env before) = .ok settings

/-- What a read sees after a history. -/
inductive Seen (read : SettingsReader) (env : Environment) (history : List Request) :
    Except FieldFaults Settings → Prop
  /-- The settings of the first read since the last clearing. -/
  | kept {settings : Settings} (h : FirstRead read env history settings) :
      Seen read env history (.ok settings)
  /-- What can be read now, as there was no such read. -/
  | fresh (h : NoneRead read env history) :
      Seen read env history (read (environmentAfter env history))

variable {read : SettingsReader} {env : Environment} {history : List Request} {r : Request}
  {settings : Settings}

/-- An entry of a list with one entry added is the new one, or stood in the list before. -/
theorem append_singleton_eq_split {α : Type} {l before after : List α} {a b : α}
    (h : l ++ [a] = before ++ b :: after) : (before = l ∧ b = a ∧ after = []) ∨
      ∃ between, after = between ++ [a] ∧ l = before ++ b :: between := by
  rcases List.append_eq_append_iff.mp h with ⟨middle, rfl, htail⟩ | ⟨middle, rfl, htail⟩
  · obtain ⟨rfl, hb⟩ | ⟨-, hb⟩ := List.singleton_eq_append_iff.mp htail
    · obtain ⟨rfl, rfl⟩ := List.cons.inj hb
      exact Or.inl ⟨List.append_nil l, rfl, rfl⟩
    · cases hb
  · cases middle with
    | nil =>
      obtain ⟨rfl, rfl⟩ := List.cons.inj htail
      exact Or.inl ⟨(List.append_nil before).symm, rfl, rfl⟩
    | cons c between =>
      obtain ⟨rfl, rfl⟩ := List.cons.inj htail
      exact Or.inr ⟨between, rfl, rfl⟩

theorem environmentAfter_append (env : Environment) (history : List Request) (r : Request) :
    environmentAfter env (history ++ [r]) = r.environment (environmentAfter env history) := by
  rw [environmentAfter, List.foldl_append]
  rfl

theorem noneRead_nil (read : SettingsReader) (env : Environment) : NoneRead read env [] := by
  intro before r after h
  simp at h

theorem noneRead_append_clear (read : SettingsReader) (env : Environment)
    (history : List Request) : NoneRead read env (history ++ [.clear]) := by
  intro before r after h hr hclear
  rcases append_singleton_eq_split h with ⟨-, rfl, -⟩ | ⟨between, rfl, -⟩
  · simp [Request.readsSettings] at hr
  · simp at hclear

theorem NoneRead.append (h : NoneRead read env history)
    (hr : r.readsSettings →
      ∃ faults, read (environmentAfter env history) = .error faults) :
    NoneRead read env (history ++ [r]) := by
  intro before q after hsplit hq hclear
  rcases append_singleton_eq_split hsplit with ⟨rfl, rfl, -⟩ | ⟨between, rfl, hhistory⟩
  · exact hr hq
  · exact h before q between hhistory hq fun hmem => hclear (List.mem_append_left _ hmem)

theorem NoneRead.firstRead (h : NoneRead read env history) (hr : r.readsSettings)
    (hread : read (environmentAfter env history) = .ok settings) :
    FirstRead read env (history ++ [r]) settings :=
  ⟨history, r, [], rfl, hr, List.not_mem_nil, h, hread⟩

theorem FirstRead.append (h : FirstRead read env history settings) (hr : r ≠ .clear) :
    FirstRead read env (history ++ [r]) settings := by
  obtain ⟨before, q, after, rfl, hq, hclear, hnone, hread⟩ := h
  refine ⟨before, q, after ++ [r], by simp, hq, ?_, hnone, hread⟩
  simp [hclear, hr.symm]

theorem FirstRead.not_noneRead (h : FirstRead read env history settings) :
    ¬NoneRead read env history := by
  intro hnone
  obtain ⟨before, q, after, hsplit, hq, hclear, -, hread⟩ := h
  obtain ⟨faults, hfaults⟩ := hnone before q after hsplit hq hclear
  rw [hread] at hfaults
  cases hfaults

theorem FirstRead.unique {other : Settings} (h : FirstRead read env history settings)
    (h' : FirstRead read env history other) : other = settings := by
  obtain ⟨before, q, after, rfl, hq, hclear, hnone, hread⟩ := h
  obtain ⟨before', q', after', hsplit, hq', hclear', hnone', hread'⟩ := h'
  -- Of two different reads the later one would have the earlier one before it.
  rcases List.append_eq_append_iff.mp hsplit with ⟨between, rfl, h⟩ | ⟨between, rfl, h⟩
  · cases between with
    | nil =>
      rw [List.append_nil, hread, Except.ok.injEq] at hread'
      exact hread'.symm
    | cons p between =>
      obtain ⟨rfl, rfl⟩ := List.cons.inj h
      obtain ⟨faults, hfaults⟩ := hnone' before q between rfl hq
        fun hmem => hclear (List.mem_append_left _ hmem)
      rw [hread] at hfaults
      cases hfaults
  · cases between with
    | nil =>
      rw [List.append_nil, hread', Except.ok.injEq] at hread
      exact hread
    | cons p between =>
      obtain ⟨rfl, rfl⟩ := List.cons.inj h
      obtain ⟨faults, hfaults⟩ := hnone before' q' between rfl hq'
        fun hmem => hclear' (List.mem_append_left _ hmem)
      rw [hread'] at hfaults
      cases hfaults

/-- A read sees one thing. -/
theorem Seen.unique {x y : Except FieldFaults Settings} (hx : Seen read env history x)
    (hy : Seen read env history y) : x = y := by
  cases hx with
  | kept hx =>
    cases hy with
    | kept hy => rw [hy.unique hx]
    | fresh hy => exact absurd hy hx.not_noneRead
  | fresh hx =>
    cases hy with
    | kept hy => exact absurd hx hy.not_noneRead
    | fresh hy => rfl

/-! ## The cache and the history -/

/-- The cache holds what the history says. -/
structure Remembers (read : SettingsReader) (env : Environment) (history : List Request)
    (c : SettingsCache) : Prop where
  environment : c.env = environmentAfter env history
  kept : ∀ settings, c.cached = some settings → FirstRead read env history settings
  fresh : c.cached = none → NoneRead read env history

namespace Remembers

variable {c : SettingsCache}

theorem seen (h : Remembers read env history c) : Seen read env history (c.seen read) := by
  unfold SettingsCache.seen
  cases hcached : c.cached with
  | some settings => exact .kept (h.kept settings hcached)
  | none =>
    rw [h.environment]
    exact .fresh (h.fresh hcached)

theorem keep (h : Remembers read env history c) (hr : r.readsSettings) :
    Remembers read env (history ++ [r]) { c with cached := (c.seen read).toOption } := by
  have henv : c.env = environmentAfter env (history ++ [r]) := by
    rw [environmentAfter_append, Request.environment_of_readsSettings hr, h.environment]
  have hseen := h.seen
  generalize (c.seen read) = seen at hseen
  cases hseen with
  | @kept settings hfirst =>
    refine ⟨henv, fun other hother => ?_, nofun⟩
    obtain rfl : settings = other := Option.some.inj hother
    exact hfirst.append (Request.ne_clear_of_readsSettings hr)
  | fresh hnone =>
    cases hread : read (environmentAfter env history) with
    | ok settings =>
      refine ⟨henv, fun other hother => ?_, nofun⟩
      obtain rfl : settings = other := Option.some.inj hother
      exact hnone.firstRead hr hread
    | error faults =>
      exact ⟨henv, nofun, fun _ => hnone.append fun _ => ⟨faults, hread⟩⟩

theorem pass (h : Remembers read env history c) (hr : r.readsSettings = false)
    (hclear : r ≠ .clear) :
    Remembers read env (history ++ [r]) { c with env := r.environment c.env } where
  environment := by rw [environmentAfter_append, h.environment]
  kept settings hcached := (h.kept settings hcached).append hclear
  fresh hcached := (h.fresh hcached).append fun hreads => absurd hreads (by simp [hr])

theorem clear (h : Remembers read env history c) :
    Remembers read env (history ++ [.clear]) c.clear where
  environment := by
    rw [environmentAfter_append, ← h.environment]
    rfl
  kept settings hcached := nomatch hcached
  fresh _ := noneRead_append_clear read env history

end Remembers

variable (libs : Libraries)

/-- A request that reads the settings keeps what it sees. -/
theorem cache_of_readsSettings (s : Session) (hr : r.readsSettings) :
    (s.step libs r).2.cache =
      { s.cache with cached := (s.cache.seen libs.settings).toOption } := by
  match r with
  | .settings =>
    simp only [step, SettingsCache.settings_eq]
    cases s.cache.seen libs.settings <;> rfl
  | .makeService none =>
    simp only [step, choice, SettingsCache.settings_eq]
    cases s.cache.seen libs.settings <;> rfl
  | .describeOnce text line none =>
    simp only [step, choice, SettingsCache.settings_eq]
    cases s.cache.seen libs.settings <;> rfl

/-- A request that neither reads nor clears changes at most the environment. -/
theorem cache_of_not_readsSettings (s : Session) (hr : r.readsSettings = false)
    (hclear : r ≠ .clear) :
    (s.step libs r).2.cache = { s.cache with env := r.environment s.cache.env } := by
  match r with
  | .setVariable key value => rfl
  | .unsetVariable key => rfl
  | .clear => exact absurd rfl hclear
  | .makeService (some reuse) => rfl
  | .describe text line service =>
    rw [step]
    split <;> rfl
  | .describeOnce text line (some reuse) => rfl

theorem Remembers.step {s : Session} (h : Remembers libs.settings env history s.cache)
    (r : Request) : Remembers libs.settings env (history ++ [r]) (s.step libs r).2.cache := by
  by_cases hr : r.readsSettings
  · rw [cache_of_readsSettings libs s hr]
    exact h.keep hr
  · by_cases hclear : r = .clear
    · rw [hclear]
      exact h.clear
    · rw [cache_of_not_readsSettings libs s (by simpa using hr) hclear]
      exact h.pass (by simpa using hr) hclear

theorem run_append_singleton (s : Session) (history : List Request) (r : Request) :
    (s.run libs (history ++ [r])).2 = ((s.run libs history).2.step libs r).2 := by
  induction history generalizing s with
  | nil => rfl
  | cons q rest ih => exact ih (s.step libs q).2

/-- The cache of a session holds what the history says. -/
theorem remembers_run (env : Environment) (history : List Request) :
    Remembers libs.settings env history ((start env).run libs history).2.cache := by
  induction history using List.reverseRecOn with
  | nil => exact ⟨rfl, nofun, fun _ => noneRead_nil libs.settings env⟩
  | append_singleton history r ih =>
    rw [run_append_singleton]
    exact ih.step libs r

/-! ## Answers -/

/-- How a request that reads the settings answers to what it sees. If they cannot be read, that is
all it tells : no source was looked at. -/
inductive Answers (parse : Parser) : Request → Except FieldFaults Settings → Answer → Prop
  | settings (settings : Settings) : Answers parse .settings (.ok settings) (.settings settings)
  | makeService (settings : Settings) : Answers parse (.makeService none) (.ok settings) .done
  | describeOnce (text : String) (line : Int) (settings : Settings) :
      Answers parse (.describeOnce text line none) (.ok settings)
        (.report (describeText parse settings.reusePlaceholder text line))
  | invalid {r : Request} (hr : r.readsSettings) (faults : FieldFaults) :
      Answers parse r (.error faults) (.invalid faults)

theorem answers_step (s : Session) (hr : r.readsSettings) :
    Answers libs.parse r (s.cache.seen libs.settings) (s.step libs r).1 := by
  match r with
  | .settings =>
    simp only [step, SettingsCache.settings_eq]
    cases s.cache.seen libs.settings with
    | ok settings => exact .settings settings
    | error faults => exact .invalid rfl faults
  | .makeService none =>
    simp only [step, choice, SettingsCache.settings_eq]
    cases s.cache.seen libs.settings with
    | ok settings => exact .makeService settings
    | error faults => exact .invalid rfl faults
  | .describeOnce text line none =>
    simp only [step, choice, SettingsCache.settings_eq]
    cases s.cache.seen libs.settings with
    | ok settings => exact .describeOnce text line settings
    | error faults => exact .invalid rfl faults

/-- A service is made with the choice of the request, or with that of the settings that are seen. -/
theorem services_of_makeService {s : Session} {choice : Option Bool}
    (h : (s.step libs (.makeService choice)).1 = .done) : ∃ reuse,
      (s.step libs (.makeService choice)).2.services = s.services ++ [reuse] ∧
        (choice = some reuse ∨ choice = none ∧
          ∃ settings, s.cache.seen libs.settings = .ok settings ∧
            settings.reusePlaceholder = reuse) := by
  cases choice with
  | some reuse => exact ⟨reuse, rfl, Or.inl rfl⟩
  | none =>
    cases hseen : s.cache.seen libs.settings with
    | ok settings =>
      refine ⟨settings.reusePlaceholder, ?_, Or.inr ⟨rfl, settings, rfl, rfl⟩⟩
      simp only [step, Session.choice, SettingsCache.settings_eq, hseen]
      rfl
    | error faults =>
      simp [step, Session.choice, SettingsCache.settings_eq, hseen, Except.map] at h

theorem services_step (s : Session) (r : Request) : s.services <+: (s.step libs r).2.services := by
  have hchoice (reuse : Option Bool) : (s.choice libs reuse).2.services = s.services := by
    cases reuse with
    | some reuse => rfl
    | none => simp only [choice]
  cases r with
  | setVariable key value => exact List.prefix_rfl
  | unsetVariable key => exact List.prefix_rfl
  | clear => exact List.prefix_rfl
  | settings =>
    rw [step]
    split <;> exact List.prefix_rfl
  | makeService reuse =>
    rw [← hchoice reuse, step]
    split
    · next h =>
      rw [h]
      exact List.prefix_append _ _
    · next h => rw [h]
  | describe text line service =>
    rw [step]
    split <;> exact List.prefix_rfl
  | describeOnce text line reuse =>
    rw [← hchoice reuse, step]
    split <;> next h => rw [h]

theorem services_run (s : Session) (requests : List Request) :
    s.services <+: (s.run libs requests).2.services := by
  induction requests generalizing s with
  | nil => exact List.prefix_rfl
  | cons r rest ih => exact (services_step libs s r).trans (ih (s.step libs r).2)

theorem step_describe {s : Session} {k : ℕ} {reuse : Bool} (h : s.services[k]? = some reuse)
    (text : String) (line : Int) :
    s.step libs (.describe text line (some k)) =
      (.report (describeText libs.parse reuse text line), s) := by
  simp only [step, service?, h]

/-- After any history, a request that reads the settings sees those of the environment as it was at
the first read since the last clearing that could be made, and if there was none, what can be read
of the environment as it is. It answers to what it sees, and the cache keeps just that. A request
that makes its own choice of placeholders does not read the settings and leaves the cache alone. A
service that was made describes with the choice it was made with, whatever follows. -/
theorem session_reads_by_history (env : Environment) (history : List Request) :
    let s := ((start env).run libs history).2
    (∀ r, r.readsSettings → ∃ seen, (∀ x, Seen libs.settings env history x ↔ x = seen) ∧
      Answers libs.parse r seen (s.step libs r).1 ∧
      (s.step libs r).2.cache.cached = seen.toOption) ∧
    (∀ reuse, s.step libs (.makeService (some reuse)) =
      (.done, { s with services := s.services ++ [reuse] })) ∧
    (∀ text line reuse, s.step libs (.describeOnce text line (some reuse)) =
      (.report (describeText libs.parse reuse text line), s)) ∧
    ∀ choice, (s.step libs (.makeService choice)).1 = .done → ∃ reuse,
      (choice = some reuse ∨ choice = none ∧
        ∃ settings, Seen libs.settings env history (.ok settings) ∧
          settings.reusePlaceholder = reuse) ∧
      ∀ after text line, (((s.step libs (.makeService choice)).2.run libs after).2.step libs
        (.describe text line (some s.services.length))).1 =
          .report (describeText libs.parse reuse text line) := by
  intro s
  have hseen : Seen libs.settings env history (s.cache.seen libs.settings) :=
    (remembers_run libs env history).seen
  refine ⟨fun r hr => ?_, fun _ => rfl, fun _ _ _ => rfl, fun choice hdone => ?_⟩
  · refine ⟨s.cache.seen libs.settings,
      fun x => ⟨fun hx => hx.unique hseen, fun hx => hx ▸ hseen⟩, answers_step libs s hr, ?_⟩
    rw [cache_of_readsSettings libs s hr]
  · obtain ⟨reuse, hservices, hchoice⟩ := services_of_makeService libs hdone
    refine ⟨reuse, ?_, fun after text line => ?_⟩
    · refine hchoice.imp id fun ⟨hnone, settings, hsettings, hreuse⟩ =>
        ⟨hnone, settings, ?_, hreuse⟩
      rw [← hsettings]
      exact hseen
    · obtain ⟨more, hmore⟩ := services_run libs (s.step libs (.makeService choice)).2 after
      have hservice :
          (((s.step libs (.makeService choice)).2.run libs after).2.services)[s.services.length]? =
            some reuse := by
        rw [← hmore, hservices]
        simp
      rw [step_describe libs hservice]

/-- The names of the parameters in an answer that gives a signature. -/
def Answer.names? : Answer → Option (List String)
  | .report ⟨.ok (some s), _⟩ => some (s.params.map (·.name))
  | _ => none

/-- The variable that says whether placeholders are reused. -/
def reuseVariable : String := "JSDOC_PARSER_REUSE_PLACEHOLDER"

/-- The variable is set and read, and then set to something else. -/
def changedVariable : List Request :=
  [.setVariable reuseVariable "yes", .settings, .setVariable reuseVariable "no"]

/-- A function of two objects. -/
def twoObjects : String := "function f(\x7ba\x7d, \x7bb\x7d) \x7b\x7d"

/-- What the reading keeps. -/
theorem firstRead_changedVariable :
    FirstRead Http.standard.settings [] changedVariable { reusePlaceholder := true } := by
  have hread : Http.standard.settings [(reuseVariable, "yes")] =
      .ok { reusePlaceholder := true } := by decide +kernel
  have hnone : NoneRead Http.standard.settings [] [.setVariable reuseVariable "yes"] :=
    (noneRead_nil _ _).append nofun
  exact ⟨_, .settings, [.setVariable reuseVariable "no"], rfl, rfl, by simp, hnone, hread⟩

/-- A service that is made then goes by what was kept, even when that is forgotten. What is
described on its own goes by the variable as it is by then. -/
theorem session_of_changedVariable :
    let libs := Http.standard.toLibraries
    let made := (((start []).run libs changedVariable).2.step libs (.makeService none)).2
    let cleared := (made.run libs [.clear]).2
    (cleared.step libs (.describe twoObjects 1 (some 0))).1.names? =
        some ["Unknown", "a", "Unknown", "b"] ∧
      (cleared.step libs (.describeOnce twoObjects 1 none)).1.names? =
        some ["Unknown", "a", "Unknown2", "b"] := by
  intro libs made cleared
  constructor
  · obtain ⟨hreads, -, -, hmakes⟩ := session_reads_by_history libs [] changedVariable
    obtain ⟨seen, hseen, hanswer, -⟩ := hreads (.makeService none) rfl
    obtain rfl := (hseen _).mp (.kept firstRead_changedVariable)
    have hdone : (((start []).run libs changedVariable).2.step libs (.makeService none)).1 =
        .done := by
      generalize (((start []).run libs changedVariable).2.step libs (.makeService none)).1 = answer
        at hanswer
      cases hanswer
      rfl
    obtain ⟨reuse, hchoice, hdescribe⟩ := hmakes none hdone
    obtain ⟨settings, hsettings, rfl⟩ := (hchoice.resolve_left nofun).2
    obtain rfl := Except.ok.inj ((hseen _).mp hsettings)
    have hservices : ((start []).run libs changedVariable).2.services.length = 0 := by
      decide +kernel
    have hnames : (Answer.report (describeText libs.parse true twoObjects 1)).names? =
        some ["Unknown", "a", "Unknown", "b"] := by decide +kernel
    have hreport := hdescribe [.clear] twoObjects 1
    rw [hservices] at hreport
    exact (congrArg Answer.names? hreport).trans hnames
  · have hcleared : cleared =
        ((start []).run libs (changedVariable ++ [.makeService none] ++ [.clear])).2 := by
      rw [run_append_singleton, run_append_singleton]
      rfl
    obtain ⟨hreads, -⟩ :=
      session_reads_by_history libs [] (changedVariable ++ [.makeService none] ++ [.clear])
    obtain ⟨seen, hseen, hanswer, -⟩ := hreads (.describeOnce twoObjects 1 none) rfl
    obtain rfl := (hseen _).mp (.fresh (noneRead_append_clear _ _ _))
    have hread : libs.settings
        (environmentAfter [] (changedVariable ++ [.makeService none] ++ [.clear])) = .ok {} := by
      decide +kernel
    have hnames : (Answer.report (describeText libs.parse false twoObjects 1)).names? =
        some ["Unknown", "a", "Unknown2", "b"] := by decide +kernel
    rw [hread, ← hcleared] at hanswer
    generalize (cleared.step libs (.describeOnce twoObjects 1 none)).1 = answer at hanswer ⊢
    cases hanswer
    exact hnames

end Session

end DocSignature
