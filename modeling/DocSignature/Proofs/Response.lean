import DocSignature.Http.App
import DocSignature.Proofs.DescriptorJson
import DocSignature.Proofs.JsonRoundTrip

/-!
# Responses that can be read back

The defaults of a signature are joined texts and numbers that are whole, or finite and canonical
(`Default.Canonical`, `defaultCanonical_of_outcome`). So the object of a signature is a canonical
value (`Signature.canonical_toJson`), and the body of a response shows the signature in full :
reading it gives back the object, and the object the signature (`response_reads_back`).
-/

namespace DocSignature

/-! ## Defaults -/

/-- A default is a joined text, a whole number, or a finite number that is not whole and of which no
other has the same value. -/
inductive Default.Canonical : Default → Prop
  | text {t : Text} (h : Text.Joined t) : Canonical (.text t)
  | whole (n : Int) : Canonical (.number (.whole n))
  | float (negative : Bool) {size : Magnitude} (h : size.Canonical)
      (hfraction : size.whole? = none) : Canonical (.number (.float (.finite negative size)))

theorem Decimal.Reading.canonical_toBinary64 (r : Reading) : r.toBinary64.Canonical := by
  cases r with
  | finite negative d =>
    simp only [toBinary64]
    split
    · next size hsize => exact canonical_of_round hsize
    · trivial
  | infinity negative => trivial
  | nan => trivial

namespace Number

theorem canonical_ofBinary64 {x : Binary64} (hx : x.Canonical) {n : Number}
    (h : ofBinary64 x = .ok n) : (Default.number n).Canonical := by
  cases x with
  | finite negative size =>
    simp only [ofBinary64] at h
    split at h
    · rw [← Except.ok.inj h]
      exact .whole _
    · next hfraction =>
      rw [← Except.ok.inj h]
      exact .float negative hx hfraction
  | infinity negative => exact absurd h (by simp [ofBinary64])
  | nan => exact absurd h (by simp [ofBinary64])

theorem canonical_ofWhole {w : Option ℕ} {n : Number} (h : ofWhole w = .ok n) :
    (Default.number n).Canonical := by
  cases w with
  | none => exact absurd h (by simp [ofWhole])
  | some w =>
    rw [← Except.ok.inj h]
    exact .whole w

theorem canonical_ofDecimal {s : List Char} {n : Number} (h : ofDecimal s = .ok n) :
    (Default.number n).Canonical := by
  unfold ofDecimal at h
  split at h
  · next reading _ => exact canonical_ofBinary64 reading.canonical_toBinary64 h
  · exact absurd h (by simp)

theorem canonical_ofPlain {s : List Char} {n : Number} (h : ofPlain s = .ok n) :
    (Default.number n).Canonical := by
  unfold ofPlain at h
  split at h
  · split at h
    · exact canonical_ofWhole h
    · split at h
      · exact canonical_ofWhole h
      · exact canonical_ofDecimal h
  · exact canonical_ofDecimal h

theorem canonical_ofLiteral {s : List Char} {n : Number} (h : ofLiteral s = .ok n) :
    (Default.number n).Canonical := by
  unfold ofLiteral at h
  dsimp only at h
  split at h
  · exact absurd h (by simp)
  · exact canonical_ofPlain h

end Number

section Simplify

variable {src : Source}

theorem joined_stringValue {literal : Node} {t : Text} (h : stringValue src literal = .ok t) :
    Text.Joined t := by
  obtain ⟨s, -, rfl⟩ := map_eq_ok_iff.mp h
  exact Text.joined_joinPairs s

theorem canonical_defaultValue {value : Node} {typed : ParameterType × Default}
    (h : defaultValue src value = .ok typed) : typed.2.Canonical := by
  unfold defaultValue at h
  split at h
  · obtain ⟨t, ht, h⟩ := bind_eq_ok_iff.mp h
    rw [← pure_eq_ok_iff.mp h]
    exact .text (joined_stringValue ht)
  · obtain ⟨n, hn, h⟩ := bind_eq_ok_iff.mp h
    rw [← pure_eq_ok_iff.mp h]
    exact Number.canonical_ofLiteral hn
  · rw [← Except.ok.inj h]
    exact .text (Text.joined_ofString _)
  · rw [← Except.ok.inj h]
    exact .text (Text.joined_ofString _)
  · exact absurd h unknown_ne_ok

/-- The default of a parameter, if it has one, is canonical. -/
def Parameter.DefaultCanonical (p : Parameter) : Prop := ∀ v ∈ p.default, v.Canonical

theorem Parameter.default_of_make {name : String} {parent : Option String}
    {type : Option ParameterType} {default : Option Default} {p : Parameter}
    (h : Parameter.make name parent type default = .ok p) : p.default = default := by
  unfold Parameter.make at h
  split at h
  · exact absurd h (by simp)
  · rw [← Except.ok.inj h]

theorem default_of_namedBy {name : Node} {type : Option ParameterType} {default : Option Default}
    {p : Parameter} (h : namedBy src name type default = .ok p) : p.default = default :=
  Parameter.default_of_make (mapError_eq_ok_iff.mp h)

theorem defaultCanonical_of_none {p : Parameter} (h : p.default = none) : p.DefaultCanonical := by
  intro v hv
  simp [h] at hv

theorem defaultCanonical_simplifyDefault {n : Node} {p : Parameter}
    (h : simplifyDefault src n = .ok p) : p.DefaultCanonical := by
  unfold simplifyDefault at h
  split at h
  · split at h
    · exact absurd h unknown_ne_ok
    · obtain ⟨value, -, h⟩ := bind_eq_ok_iff.mp h
      obtain ⟨typed, htyped, h⟩ := bind_eq_ok_iff.mp h
      intro v hv
      rw [default_of_namedBy h, Option.mem_some_iff] at hv
      rw [← hv]
      exact canonical_defaultValue htyped
  · exact absurd h unknown_ne_ok

theorem defaultCanonical_simplifyRest {n : Node} {p : Parameter} (h : simplifyRest src n = .ok p) :
    p.DefaultCanonical := by
  unfold simplifyRest at h
  split at h
  · exact absurd h unknown_ne_ok
  · split at h
    · exact defaultCanonical_of_none (default_of_namedBy h)
    · exact absurd h unknown_ne_ok

theorem defaultCanonical_simplifyPlain {n : Node} {p : Parameter}
    (h : simplifyPlain src n = .ok p) : p.DefaultCanonical := by
  unfold simplifyPlain at h
  split_ifs at h
  · exact defaultCanonical_of_none (default_of_namedBy h)
  · exact defaultCanonical_simplifyDefault h
  · exact defaultCanonical_simplifyRest h
  · exact absurd h unknown_ne_ok

theorem defaultCanonical_simplifyMember {parent : String} {n : Node} {p : Parameter}
    (h : simplifyMember src parent n = .ok p) : p.DefaultCanonical := by
  unfold simplifyMember at h
  dsimp only at h
  split at h
  · obtain ⟨q, hq, rfl⟩ := map_eq_ok_iff.mp h
    have hdefault : q.DefaultCanonical := defaultCanonical_simplifyPlain hq
    exact hdefault
  · exact absurd h unknown_ne_ok

theorem defaultCanonical_simplifyMembers {parent : String} :
    ∀ {l : List Node} {ps : List Parameter}, simplifyMembers src parent l = .ok ps →
      ∀ p ∈ ps, p.DefaultCanonical
  | [], ps, h => by
    rw [← Except.ok.inj h]
    simp
  | n :: rest, ps, h => by
    obtain ⟨q, hq, h⟩ := bind_eq_ok_iff.mp h
    obtain ⟨qs, hqs, h⟩ := bind_eq_ok_iff.mp h
    rw [← pure_eq_ok_iff.mp h, List.forall_mem_cons]
    exact ⟨defaultCanonical_simplifyMember hq, defaultCanonical_simplifyMembers hqs⟩

theorem defaultCanonical_simplifyObject {parent : String} {n : Node} {ps : List Parameter}
    (h : simplifyObject src parent n = .ok ps) : ∀ p ∈ ps, p.DefaultCanonical := by
  obtain ⟨head, hhead, h⟩ := bind_eq_ok_iff.mp h
  obtain ⟨qs, hqs, h⟩ := bind_eq_ok_iff.mp h
  rw [← pure_eq_ok_iff.mp h, List.forall_mem_cons]
  exact ⟨defaultCanonical_of_none (Parameter.default_of_make (mapError_eq_ok_iff.mp hhead)),
    defaultCanonical_simplifyMembers hqs⟩

theorem defaultCanonical_simplifyFrom {reuse : Bool} :
    ∀ {k : ℕ} {l : List Node} {ps : List Parameter}, simplifyFrom reuse src k l = .ok ps →
      ∀ p ∈ ps, p.DefaultCanonical
  | _, [], ps, h => by
    rw [← Except.ok.inj h]
    simp
  | k, n :: rest, ps, h => by
    rw [simplifyFrom] at h
    split at h
    · obtain ⟨block, hblock, h⟩ := bind_eq_ok_iff.mp h
      obtain ⟨qs, hqs, h⟩ := bind_eq_ok_iff.mp h
      rw [← pure_eq_ok_iff.mp h, List.forall_mem_append]
      exact ⟨defaultCanonical_simplifyObject hblock, defaultCanonical_simplifyFrom hqs⟩
    · obtain ⟨q, hq, h⟩ := bind_eq_ok_iff.mp h
      obtain ⟨qs, hqs, h⟩ := bind_eq_ok_iff.mp h
      rw [← pure_eq_ok_iff.mp h, List.forall_mem_cons]
      exact ⟨defaultCanonical_simplifyPlain hq, defaultCanonical_simplifyFrom hqs⟩

/-- The defaults in a signature are canonical. -/
theorem defaultCanonical_of_outcome {reuse : Bool} {root : Node} {line : Int} {d : Signature}
    (h : (describe reuse src root line).outcome = .ok (some d)) :
    ∀ p ∈ d.params, p.DefaultCanonical := by
  obtain ⟨-, found, -, hsig⟩ := outcome_eq_ok_some_iff.mp h
  exact defaultCanonical_simplifyFrom (Located.signature_eq_ok_iff.mp hsig).2.2.1

end Simplify

/-! ## Objects -/

theorem Json.canonical_ofString (s : String) : (Json.ofString s).Canonical :=
  .str (Text.joined_ofString s)

theorem Json.canonical_ofMembers {members : List (String × Json)}
    (h : ∀ m ∈ members, m.2.Canonical) : (Json.ofMembers members).Canonical := by
  refine .obj (fun m hm => ?_) fun m hm => ?_
  · obtain ⟨n, -, rfl⟩ := List.mem_map.mp hm
    exact Text.joined_ofString n.1
  · obtain ⟨n, hn, rfl⟩ := List.mem_map.mp hm
    exact h n hn

theorem canonical_of_mem_optionalMember {key : String} {value : Option Json}
    (h : ∀ j ∈ value, j.Canonical) : ∀ m ∈ optionalMember key value, m.2.Canonical := by
  intro m hm
  cases value with
  | none => simp [optionalMember] at hm
  | some j =>
    rw [List.mem_singleton.mp hm]
    exact h j rfl

theorem Default.Canonical.toJson {v : Default} (h : v.Canonical) : v.toJson.Canonical := by
  cases h with
  | text h => exact .str h
  | whole n => exact .int n
  | float negative h hfraction => exact .float h

theorem Parameter.canonical_toJson {p : Parameter} (h : p.DefaultCanonical) :
    p.toJson.Canonical := by
  refine Json.canonical_ofMembers ?_
  simp only [List.forall_mem_append, List.forall_mem_cons]
  refine ⟨⟨⟨Json.canonical_ofString p.name, canonical_of_mem_optionalMember fun j hj => ?_⟩,
    canonical_of_mem_optionalMember fun j hj => ?_⟩, canonical_of_mem_optionalMember fun j hj => ?_⟩
  · obtain ⟨parent, -, rfl⟩ := Option.mem_map.mp hj
    exact Json.canonical_ofString parent
  · obtain ⟨t, -, rfl⟩ := Option.mem_map.mp hj
    exact Json.canonical_ofString t.word
  · obtain ⟨v, hv, rfl⟩ := Option.mem_map.mp hj
    exact (h v hv).toJson

theorem Signature.canonical_toJson {s : Signature} (h : ∀ p ∈ s.params, p.DefaultCanonical) :
    s.toJson.Canonical := by
  have hlocation : s.location.toJson.Canonical := by
    refine Json.canonical_ofMembers ?_
    simp only [List.forall_mem_cons, List.not_mem_nil, false_imp_iff, implies_true, and_true]
    exact ⟨.int _, .int _⟩
  have hparams : (Json.arr (s.params.map Parameter.toJson)).Canonical := by
    refine .arr fun j hj => ?_
    obtain ⟨p, hp, rfl⟩ := List.mem_map.mp hj
    exact Parameter.canonical_toJson (h p hp)
  have hreturns : (Json.ofMembers [("returns", .bool s.returns)]).Canonical := by
    refine Json.canonical_ofMembers ?_
    simpa using Json.Canonical.bool s.returns
  refine Json.canonical_ofMembers ?_
  simp only [List.forall_mem_cons, List.not_mem_nil, false_imp_iff, implies_true, and_true]
  exact ⟨Json.canonical_ofString s.name, hlocation, hparams, hreturns⟩

/-! ## Responses -/

/-- A signature comes with a body in ASCII. Reading the body gives the object of the signature,
and the object the signature itself. No number in it is infinite or none at all. -/
theorem response_reads_back (reuse : Bool) (src : Source) (root : Node) (line : Int) (d : Signature)
    (h : (describe reuse src root line).outcome = .ok (some d)) :
    ∃ body, Http.App.ofOutcome (describe reuse src root line).outcome = .text 200 body ∧
      (∀ c ∈ body.toList, c.toNat < 128) ∧
      Json.read body.toList = .ok (.ofMembers [("function", d.toJson)]) ∧
      ((Json.ofMembers [("function", d.toJson)]).get? "function").bind Signature.ofJson? = some d ∧
      ∀ p ∈ d.params, ∀ x, p.default = some (.number (.float x)) →
        ∃ negative size, x = .finite negative size ∧ size.whole? = none := by
  have hdefaults := defaultCanonical_of_outcome h
  have hcanonical : (Json.ofMembers [("function", d.toJson)]).Canonical := by
    refine Json.canonical_ofMembers ?_
    simpa using Signature.canonical_toJson hdefaults
  refine ⟨Json.ascii (.ofMembers [("function", d.toJson)]), by rw [h]; rfl, ?_,
    Json.read_ascii hcanonical, ?_, fun p hp x hx => ?_⟩
  · rw [Json.ascii, String.toList_ofList]
    exact Json.toNat_lt_of_mem_write _
  · simp [Json.get?_ofMembers, Signature.ofJson?_toJson]
  · cases hdefaults p hp _ hx with
    | float negative _ hfraction => exact ⟨negative, _, rfl, hfraction⟩

/-- The source of `pairDefault`. -/
def pairDefaultSource : Source :=
  .ofString "function f(a = \"\\uD83D\\uDE00\\uD800\", b = 0.1) \x7b\x7d"

/-- A function with a default of two escapes that are one character, and one that is half of one. -/
def pairDefault : Node :=
  .make "program" 0 48 none true false
    [.make "function_declaration" 0 48 none true false
      [.make "identifier" 9 10 (some "name") true false [],
        .make "formal_parameters" 10 45 (some "parameters") true false
          [.make "assignment_pattern" 11 35 none true false
            [.make "identifier" 11 12 (some "left") true false [],
              .make "string" 15 35 (some "right") true false
                [.make "escape_sequence" 16 22 none true false [],
                  .make "escape_sequence" 22 28 none true false [],
                  .make "escape_sequence" 28 34 none true false []]],
            .make "assignment_pattern" 37 44 none true false
              [.make "identifier" 37 38 (some "left") true false [],
                .make "number" 41 44 (some "right") true false []]]]]

/-- The signature of the function in `pairDefault`. -/
def pairSignature : Signature where
  name := "f"
  location := pairDefaultSource.location 0
  params :=
    [{ name := "a", type := some .string, default := some (.text (.ofUnits [0x1F600, 0xD800])),
       name_ne := by decide },
     { name := "b", type := some .number,
       default := some (.number (.float (.finite false ⟨0x1999999999999A, -56⟩))),
       name_ne := by decide }]
  name_ne := by decide

/-- The pair, the half and the fraction are read back. -/
theorem response_pairDefault :
    (describe false pairDefaultSource pairDefault 1).outcome = .ok (some pairSignature) ∧
      ∃ body, Http.App.ofOutcome (describe false pairDefaultSource pairDefault 1).outcome =
          .text 200 body ∧
        (∀ c ∈ body.toList, c.toNat < 128) ∧
        Json.read body.toList = .ok (.ofMembers [("function", pairSignature.toJson)]) ∧
        ((Json.ofMembers [("function", pairSignature.toJson)]).get? "function").bind
          Signature.ofJson? = some pairSignature ∧
        ∀ p ∈ pairSignature.params, ∀ x, p.default = some (.number (.float x)) →
          ∃ negative size, x = .finite negative size ∧ size.whole? = none := by
  have h : (describe false pairDefaultSource pairDefault 1).outcome = .ok (some pairSignature) := by
    decide +kernel
  exact ⟨h, response_reads_back false pairDefaultSource pairDefault 1 pairSignature h⟩

end DocSignature
