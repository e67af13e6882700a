import DocSignature.Proofs.Relocation

/-!
# Comments in a tree

Loose comments are of no account : a tree with some of them left out, wherever they stand, is
refused for the same reason, has the same functions, and is described in the same way
(`describe_without_comments`). Leaving them out is copying in place, so this is what a copy says
where neither octets nor lines move.

Only the parts of a string literal stay : a comment among them would be a part of its value.
-/

namespace DocSignature

namespace Node

theorem Thinned.any_flagged {d : Nat} {whole : Bool} {l l' : List Node}
    (h : Thinned (Copy d) whole l l') : l'.any (·.flagged) = l.any (·.flagged) := by
  induction h with
  | nil => rfl
  | keep head _ ih => rw [List.any_cons, List.any_cons, head.flagged, ih]
  | leave loose _ ih => rw [List.any_cons, loose.flagged, ih, Bool.false_or]

/-- Where flags come from faults, they come out the same without loose comments. -/
theorem Copy.make {d : Nat} {kind : String} {start stop : Nat} {field : Option String}
    {named missing : Bool} {l l' : List Node} (h : Thinned (Copy d) (kind == "string") l l') :
    Copy d (.make kind start stop field named missing l)
      (.make kind (start + d) (stop + d) field named missing l') := by
  unfold Node.make
  rw [h.any_flagged]
  exact .mk ⟨kind, start, stop, field, named, missing, _, l⟩ h

end Node

/-! ## Copies in place -/

theorem Signature.Below.eq {found : Location} {s t : Signature} (h : Signature.Below 0 found s t) :
    t = s := by
  obtain ⟨name, location, params, returns, name_ne⟩ := s
  obtain ⟨rfl, rfl, rfl, hlocation, hdown⟩ := h
  obtain rfl : t.location = location := hdown.trans hlocation.symm
  rfl

section InPlace

variable {src : Source} {n m : Node}

theorem refusal?_inPlace (h : Node.Copy 0 n m) : refusal? src m = refusal? src n := by
  rw [refusal?_copy (.refl src) h]
  exact Option.map_id'

theorem locate_inPlace (h : Node.Copy 0 n m) (line : Int) :
    Option.Rel (Located.Copy 0 0) (locate src n line) (locate src m line) := by
  have hlocate := locate_copy (.refl src) line h
  rwa [Int.natCast_zero, Int.add_zero] at hlocate

theorem simplify_inPlace (reuse : Bool) {l l' : List Node}
    (h : List.Forall₂ (Node.Copy 0) l l') : simplify reuse src l' = simplify reuse src l :=
  (simplify_copy (.refl src) reuse h).eq_of_below_zero

theorem signature_inPlace (reuse : Bool) {f g : Located} (h : Located.Copy 0 0 f g) :
    g.signature reuse src = f.signature reuse src :=
  ((signature_copy (.refl src) reuse h).imp fun _ _ below => below.eq.symm).eq_of_below_zero

theorem events_inPlace {f g : Located} (h : Located.Copy 0 0 f g) (line : Int) :
    g.events line = f.events line := by
  funext outcome
  unfold Located.events
  rw [h.name, h.location]
  rfl

theorem describe_inPlace (h : Node.Copy 0 n m) (reuse : Bool) (line : Int) :
    describe reuse src m line = describe reuse src n line := by
  have hlocate : Option.Rel (Located.Copy 0 0) (locate src n line) (locate src m line) :=
    locate_inPlace h line
  unfold describe
  rw [refusal?_inPlace h]
  generalize locate src n line = found, locate src m line = found' at hlocate ⊢
  cases hlocate with
  | none => rfl
  | some hfound => simp only [signature_inPlace reuse hfound, events_inPlace hfound]

end InPlace

/-- Leaving loose comments out of a tree changes nothing : not whether and why it is refused, not
the name, the location and the parameters of the function at a line, and not its description with
all that is told on the way. -/
theorem describe_without_comments (src : Source) {root bare : Node} (h : Node.Copy 0 root bare) :
    refusal? src bare = refusal? src root ∧
    (∀ line, Option.Rel
      (fun f g => g.name = f.name ∧ g.location = f.location ∧
        List.Forall₂ (Node.Copy 0) f.params g.params ∧
        ∀ reuse, simplify reuse src g.params = simplify reuse src f.params)
      (locate src root line) (locate src bare line)) ∧
    ∀ reuse line, describe reuse src bare line = describe reuse src root line := by
  refine ⟨refusal?_inPlace h, fun line => ?_, describe_inPlace h⟩
  exact (locate_inPlace h line).imp fun f g hfound => ⟨hfound.name, hfound.location, hfound.params,
    fun reuse => simplify_inPlace reuse hfound.params⟩

/-- The source of `commented`. -/
def commentedSource : Source := .ofString "/**/ function g(x /*y*/ = (/*z*/ 1)) \x7b\x7d"

/-- A function with comments before it, around the equals sign of a default and in parentheses. -/
def commented : Node :=
  .make "program" 0 39 none true false
    [.make "comment" 0 4 none true false [],
      .make "function_declaration" 5 39 none true false
        [.make "identifier" 14 15 (some "name") true false [],
          .make "formal_parameters" 15 36 (some "parameters") true false
            [.make "assignment_pattern" 16 35 none true false
              [.make "identifier" 16 17 (some "left") true false [],
                .make "comment" 18 23 none true false [],
                .make "parenthesized_expression" 26 35 (some "right") true false
                  [.make "comment" 27 32 none true false [],
                    .make "number" 33 34 none true false []]]]]]

/-- The tree of `commented` without its comments. -/
def uncommented : Node :=
  .make "program" 0 39 none true false
    [.make "function_declaration" 5 39 none true false
      [.make "identifier" 14 15 (some "name") true false [],
        .make "formal_parameters" 15 36 (some "parameters") true false
          [.make "assignment_pattern" 16 35 none true false
            [.make "identifier" 16 17 (some "left") true false [],
              .make "parenthesized_expression" 26 35 (some "right") true false
                [.make "number" 33 34 none true false []]]]]]

theorem copy_uncommented : Node.Copy 0 commented uncommented := by
  have loose (start stop : Nat) : (Node.make "comment" start stop none true false []).IsLoose :=
    ⟨rfl, rfl, rfl, rfl, by simp [Node.make, Node.errorKind]⟩
  refine .make (.leave (loose 0 4) (.keep (.make ?_) .nil))
  refine .keep (.refl _) (.keep (.make (.keep (.make ?_) .nil)) .nil)
  refine .keep (.refl _) (.leave (loose 18 23) (.keep (.make ?_) .nil))
  exact .leave (loose 27 32) (.keep (.refl _) .nil)

/-- The signature of the function in `commented`. -/
def commentedSignature : Signature where
  name := "g"
  location := commentedSource.location 5
  params := [{ name := "x", type := some .number, default := some (.number (.whole 1)),
               name_ne := by decide }]
  name_ne := by decide

/-- The default behind the comments is found, as it is without them. -/
theorem describe_uncommented : Node.Copy 0 commented uncommented ∧
    (describe false commentedSource uncommented 1).outcome = .ok (some commentedSignature) ∧
    describe false commentedSource uncommented 1 = describe false commentedSource commented 1 :=
  ⟨copy_uncommented, by decide +kernel,
    (describe_without_comments commentedSource copy_uncommented).2.2 false 1⟩

end DocSignature
