import DocSignature.Log
import DocSignature.Proofs.DescriptorJson
import DocSignature.Proofs.FirstFault
import DocSignature.Proofs.Support

/-!
# What is told of a description

A description tells at most one event. `Tells` lists the ways in which it ends, each with its
outcome and its events, and `describe_tells` says that there is no other way on a tree that follows
the grammar. Of the two errors that parameters run into only one is told : an escape past the last
code point in the default of a parameter ends a description in silence, and nothing else does
(`Node.DefaultPart`, `UnsupportedParameter.exists_part`).

The main statement, `events_tell_outcome`, reads the outcome off the events, and back. Nothing is
lost when the events are written down, since different events have different records
(`Event.record_injective`).
-/

namespace DocSignature

/-! ## Strings among defaults -/

/-- The parts of the strings that are defaults in a parameter : of the parameter itself, of members
of an object, or of the values of pairs. -/
inductive Node.DefaultPart : Node → Node → Prop
  | default {n right value part : Node} (kind : n.kind ∈ defaultKinds)
      (hright : n.child? "right" = some right) (inside : right.Inside value)
      (string : value.kind = "string") (hpart : part ∈ value.namedChildren) : DefaultPart n part
  | member {n m part : Node} (kind : n.kind = "object_pattern") (hm : m ∈ n.members)
      (below : DefaultPart m part) : DefaultPart n part
  | pair {n value part : Node} (kind : n.kind = "pair_pattern")
      (hvalue : n.child? "value" = some value) (below : DefaultPart value part) : DefaultPart n part

theorem Leftmost.exists_mem {ι : Type} {S : ι → Prop} {R : ι → SignatureError → Prop} {l : List ι}
    {e : SignatureError} (h : Leftmost S R l e) : ∃ n ∈ l, R n e := by
  obtain ⟨before, n, after, rfl, -, hn⟩ := h
  exact ⟨n, by simp, hn⟩

section Parts

variable {src : Source} {n : Node} {l : Location} {reason : String}

theorem UnsupportedPlain.exists_part (h : UnsupportedPlain src n (.unreadableAt l reason)) :
    ∃ part, n.DefaultPart part ∧ UnsupportedPart src part (.unreadableAt l reason) := by
  cases h with
  | default kind hleft hright name inside unsupported =>
    cases unsupported with
    | string string hparts =>
      obtain ⟨part, hpart, hbeyond⟩ := hparts.exists_mem
      exact ⟨part, .default kind hright inside string hpart, hbeyond⟩

theorem UnsupportedMember.exists_part (h : UnsupportedMember src n (.unreadableAt l reason)) :
    ∃ part, n.DefaultPart part ∧ UnsupportedPart src part (.unreadableAt l reason) := by
  cases h with
  | pair kind hvalue unsupported =>
    obtain ⟨part, hpart, hbeyond⟩ := unsupported.exists_part
    exact ⟨part, .pair kind hvalue hpart, hbeyond⟩
  | plain kind unsupported => exact unsupported.exists_part

/-- A parameter that makes a source unreadable does so by a part of a string. -/
theorem UnsupportedParameter.exists_part
    (h : UnsupportedParameter src n (.unreadableAt l reason)) :
    ∃ part, n.DefaultPart part ∧ UnsupportedPart src part (.unreadableAt l reason) := by
  cases h with
  | object kind hmembers =>
    obtain ⟨m, hm, unsupported⟩ := hmembers.exists_mem
    obtain ⟨part, hpart, hbeyond⟩ := unsupported.exists_part
    exact ⟨part, .member kind hm hpart, hbeyond⟩
  | plain kind unsupported => exact unsupported.exists_part

end Parts

/-! ## How descriptions end -/

/-- What comes of a description at a line, with what is told of it. -/
inductive Tells (src : Source) (root : Node) (line : Int) : Report → Prop
  | refused {location : Location} {reason : String}
      (refusal : refusal? src root = some (location, reason)) :
      Tells src root line
        ⟨.error (.source (.unreadableAt location reason)), [.parseFailed location reason]⟩
  | nothing (sound : ¬root.flagged) : Tells src root line ⟨.ok none, [.notFound line]⟩
  | unknown {found : Located} {kind : String} (sound : ¬root.flagged)
      (hfound : locate src root line = some found) :
      Tells src root line ⟨.error (.source (.unknownKind kind)),
        [.unknownKind found.name found.location.line kind]⟩
  | described {s : Signature} (sound : ¬root.flagged) :
      Tells src root line ⟨.ok (some s), [.located s.name line s.params.length]⟩
  | silent {found : Located} {n part : Node} (sound : ¬root.flagged)
      (hfound : locate src root line = some found) (hn : n ∈ found.params)
      (hpart : n.DefaultPart part) (kind : part.kind = "escape_sequence")
      (beyond : BeyondText (part.text src).toList) :
      Tells src root line
        ⟨.error (.source (.unreadableAt (part.location src) "invalid unicode escape")), []⟩

/-- A signature fails for its parameters, if a caller is told. -/
theorem Located.simplify_eq_error {reuse : Bool} {src : Source} {found : Located}
    {e : SignatureError} (h : found.signature reuse src = .error (.source e)) :
    simplify reuse src found.params = .error (.source e) := by
  rw [Located.signature] at h
  cases hparams : simplify reuse src found.params with
  | error f =>
    rw [hparams] at h
    rw [show f = .source e from Except.error.inj h]
  | ok params =>
    rw [hparams] at h
    cases hmake : Signature.make found.name found.location.above params false with
    | error e => simp [hmake, bind, Except.bind, Except.mapError] at h
    | ok s => simp [hmake, bind, Except.bind, Except.mapError] at h

/-- The parameters of a function make a source unreadable only by a part of a string. -/
theorem Located.exists_part {reuse : Bool} {src : Source} {root : Node} {line : Int}
    {found : Located} {l : Location} {reason : String} (h : Grammatical src root)
    (hfound : locate src root line = some found)
    (herror : found.signature reuse src = .error (.source (.unreadableAt l reason))) :
    ∃ n ∈ found.params, ∃ part, n.DefaultPart part ∧
      UnsupportedPart src part (.unreadableAt l reason) := by
  obtain ⟨_, p, _, k, -, -, hf, -⟩ := locate_iff_isLast.mp hfound
  obtain ⟨-, hparams⟩ := hf.name_ne_and_contains h.tokenized
  have hdecides : Decides (simplify reuse src found.params) _ _ :=
    simplifyFrom_decides h reuse hparams
  obtain ⟨e, hleftmost, heq⟩ := hdecides.error_iff.mp (Located.simplify_eq_error herror)
  obtain ⟨rfl⟩ := Failure.source.inj heq
  obtain ⟨n, hn, unsupported⟩ := hleftmost.exists_mem
  exact ⟨n, hn, unsupported.exists_part⟩

/-- A tree that is refused need not follow the grammar. -/
theorem describe_tells {src : Source} {root : Node} (h : ¬root.flagged → Grammatical src root)
    (reuse : Bool) (line : Int) : Tells src root line (describe reuse src root line) := by
  unfold describe
  split
  · next location reason hrefusal => exact .refused hrefusal
  · next hrefusal =>
    have sound : ¬root.flagged := by
      intro flagged
      have hsome : (refusal? src root).isSome := isSome_refusal?_iff.mpr flagged
      simp [hrefusal] at hsome
    split
    · exact .nothing sound
    · next found hfound =>
      have told := signature_told (h sound).tokenized reuse hfound
      cases hsignature : found.signature reuse src with
      | ok s => exact .described sound
      | error f =>
        rw [hsignature] at told
        cases told with
        | unknownKind kind => exact .unknown sound hfound
        | unreadable l reason =>
          obtain ⟨n, hn, part, hpart, hbeyond⟩ := Located.exists_part (h sound) hfound hsignature
          generalize SignatureError.unreadableAt l reason = e at hbeyond
          cases hbeyond with
          | beyond kind beyond => exact .silent sound hfound hn hpart kind beyond

/-! ## Records -/

theorem Json.ofString_inj {s t : String} : Json.ofString s = Json.ofString t ↔ s = t := by
  rw [Json.ofString, Json.ofString, Json.str.injEq, Text.ofString_injective.eq_iff]

/-- A record has the event and the fields that it is made of. -/
theorem Log.Record.make_inj {level level' : Log.Level} {logger logger' event event' : String}
    {fields fields' : List (String × Json)} :
    make level logger event fields = make level' logger' event' fields' ↔
      level = level' ∧ logger = logger' ∧ event = event' ∧ fields = fields' := by
  have hfield : Function.Injective fun f : String × Json => (Text.ofString f.1, f.2) := by
    rintro ⟨key, value⟩ ⟨key', value'⟩ h
    obtain ⟨hkey, hvalue⟩ := Prod.mk.inj h
    exact Prod.ext (Text.ofString_injective hkey) hvalue
  rw [make, make, Log.Record.mk.injEq, Text.ofString_injective.eq_iff,
    hfield.list_map.eq_iff]

/-- Different events have different records. -/
theorem Event.record_injective : Function.Injective Event.record := by
  have hlocation {l m : Location} (hline : l.line = m.line) (hcolumn : l.column = m.column) :
      l = m := by
    cases l
    cases m
    simp_all
  intro a b h
  cases a <;> cases b
  case parseFailed.parseFailed l reason m reason' =>
    simp only [Event.record, Log.Record.make_inj, List.cons.injEq, Prod.mk.injEq, Json.int.injEq,
      Nat.cast_inj, Json.ofString_inj, true_and, and_true] at h
    rw [hlocation h.1 h.2.1, h.2.2]
  all_goals simp_all [Event.record, Log.Record.make_inj, Json.ofString_inj]

/-! ## Events and outcomes -/

/-- The outcome of a description at a line is told by its events, and tells them. -/
structure Report.Telling (src : Source) (root : Node) (line : Int) (r : Report) : Prop where
  /-- Of a flagged root it is told that the source cannot be read. -/
  flagged_iff : root.flagged ↔ ∃ l reason, r.events = [.parseFailed l reason]
  /-- That has the location and the reason of the error. -/
  parseFailed : ∀ l reason, r.events = [.parseFailed l reason] →
    r.outcome = .error (.source (.unreadableAt l reason))
  /-- Where there is no function, the line is told. -/
  none_iff : r.outcome = .ok none ↔ ∃ l, r.events = [.notFound l]
  /-- That is the line of the description. -/
  notFound : ∀ l, r.events = [.notFound l] → l = line
  /-- A kind without a description is told. -/
  unknown_iff : (∃ kind, r.outcome = .error (.source (.unknownKind kind))) ↔
    ∃ name l kind, r.events = [.unknownKind name l kind]
  /-- That has the kind, and the name and the line of the function that is found. -/
  unknownKind : ∀ name l kind, r.events = [.unknownKind name l kind] →
    r.outcome = .error (.source (.unknownKind kind)) ∧
      ∃ found, locate src root line = some found ∧ name = found.name ∧ l = found.location.line
  /-- A signature is told. -/
  some_iff : (∃ s, r.outcome = .ok (some s)) ↔ ∃ name l count, r.events = [.located name l count]
  /-- That has its name, the line of the description, and the number of all its parameters. -/
  located : ∀ name l count, r.events = [.located name l count] →
    l = line ∧ ∃ s, r.outcome = .ok (some s) ∧ name = s.name ∧ count = s.params.length
  /-- An escape past the last code point is not told. -/
  escape_iff : (∃ l, r.outcome = .error (.source (.unreadableAt l "invalid unicode escape"))) ↔
    r.events = []
  /-- Silence means such an escape, in a string that is a default of the function that is found. -/
  silent : r.events = [] → ∃ found n part, locate src root line = some found ∧ n ∈ found.params ∧
    n.DefaultPart part ∧ part.kind = "escape_sequence" ∧ BeyondText (part.text src).toList ∧
    r.outcome = .error (.source (.unreadableAt (part.location src) "invalid unicode escape"))

/-- A fault in the tree is no escape. -/
theorem reason_ne_of_refusal {src : Source} {root : Node} {l : Location} {reason : String}
    (h : refusal? src root = some (l, reason)) : reason ≠ "invalid unicode escape" := by
  unfold refusal? at h
  split at h
  · obtain ⟨-, rfl⟩ := Prod.mk.inj (Option.some.inj h)
    split
    · exact missing_append_ne (by decide) _
    · decide
  · simp at h

theorem Tells.telling {src : Source} {root : Node} {line : Int} {r : Report}
    (h : Tells src root line r) : r.Telling src root line := by
  cases h with
  | refused refusal =>
    have flagged : root.flagged := isSome_refusal?_iff.mp (by rw [refusal]; rfl)
    have hreason := reason_ne_of_refusal refusal
    constructor <;> simp [flagged, hreason, SignatureError.unreadableAt]
  | nothing sound => constructor <;> simp [sound]
  | unknown sound hfound =>
    constructor <;> simp [sound, hfound, SignatureError.unreadableAt]
  | described sound => constructor <;> simp [sound]
  | silent sound hfound hn hpart kind beyond =>
    constructor
    case escape_iff => exact iff_of_true ⟨_, rfl⟩ rfl
    case silent => exact fun _ => ⟨_, _, _, hfound, hn, hpart, kind, beyond, rfl⟩
    all_goals simp [sound, SignatureError.unreadableAt]

/-- On a tree that follows the grammar, unless it is refused anyway, a description tells what came
of it in one event, or ends in silence because of an escape past the last code point; and what is
written down of an event tells it. -/
theorem events_tell_outcome (src : Source) (root : Node)
    (h : ¬root.flagged → Grammatical src root) (reuse : Bool) (line : Int) :
    (describe reuse src root line).Telling src root line ∧ Function.Injective Event.record :=
  ⟨(describe_tells h reuse line).telling, Event.record_injective⟩

/-- Nothing is told of a function whose first default holds an escape past the last code point. -/
theorem events_escapedDefault : Grammatical escapedDefaultSource escapedDefault ∧
    (describe false escapedDefaultSource escapedDefault 1).events = [] ∧
    ∃ l, (describe false escapedDefaultSource escapedDefault 1).outcome =
      .error (.source (.unreadableAt l "invalid unicode escape")) := by
  have hsilent : (describe false escapedDefaultSource escapedDefault 1).events = [] := by
    decide +kernel
  obtain ⟨telling, -⟩ := events_tell_outcome escapedDefaultSource escapedDefault
    (fun _ => grammatical_escapedDefault) false 1
  exact ⟨grammatical_escapedDefault, hsilent, telling.escape_iff.mpr hsilent⟩

end DocSignature
