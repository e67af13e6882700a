import DocSignature.Proofs.LastFunction
import DocSignature.Proofs.NumberLiteral
import DocSignature.Proofs.Outcome

/-!
# Descriptions always end well

On a tree that follows the grammar a description gives a signature, gives none, or fails in one of
the two ways that a caller is told : the source cannot be read, or a parameter has no description.
`Told` says so of any step. It is kept by chains (`Told.bind`), so that each function on the way
needs one lemma about itself : number literals (`Number.ofLiteral_told`), string literals
(`stringValue_told`), parameters (`simplify_told`), and the whole (`outcome_told`).
-/

namespace DocSignature

/-- A result, or a failure that a caller is told. -/
inductive Told {α : Type} : Except Failure α → Prop
  | ok (a : α) : Told (.ok a)
  | unreadable (location : Location) (reason : String) :
      Told (.error (.source (.unreadableAt location reason)))
  | unknownKind (kind : String) : Told (.error (.source (.unknownKind kind)))

namespace Told

variable {α β : Type}

theorem bind {x : Except Failure α} {f : α → Except Failure β} (hx : Told x)
    (hf : ∀ a, x = .ok a → Told (f a)) : Told (x >>= f) := by
  cases hx with
  | ok a => exact hf a rfl
  | unreadable location reason => exact .unreadable location reason
  | unknownKind kind => exact .unknownKind kind

theorem map {x : Except Failure α} (hx : Told x) (f : α → β) : Told (x.map f) := by
  cases hx with
  | ok a => exact .ok (f a)
  | unreadable location reason => exact .unreadable location reason
  | unknownKind kind => exact .unknownKind kind

end Told

/-! ## Number literals -/

namespace Number

theorem ofPlain_told (l : NumberLiteral) : Told (ofPlain l.text) := by
  by_cases h : l.Overflows
  · rw [ofPlain_of_overflows h]
    exact .unknownKind _
  · obtain ⟨n, hn⟩ := ofPlain_eq_ok h
    rw [hn]
    exact .ok n

theorem ofLiteral_told {s : List Char} (h : NumberText s) : Told (ofLiteral s) := by
  obtain ⟨l, hl | hl⟩ := h
  · rw [ofLiteral_eq hl]
    exact ofPlain_told l
  · rw [ofLiteral_bigint hl]
    exact .unknownKind _

end Number

section Tree

variable {src : Source} {root : Node} (h : Tokenized src root)

include h

/-! ## String literals -/

theorem partValue_told {part : Node} (hpart : root.Contains part) : Told (partValue src part) := by
  unfold partValue
  dsimp only
  split
  · next hkind =>
    rcases (h.escape part hpart (by simpa using hkind)).meaning with ⟨t, ht⟩ | hbeyond
    · rw [ht]
      exact .ok t
    · rw [hbeyond]
      exact .unreadable _ _
  · exact .ok _

theorem partValues_told :
    ∀ {parts : List Node}, (∀ part ∈ parts, root.Contains part) → Told (partValues src parts)
  | [], _ => .ok []
  | part :: rest, hparts => by
    refine (partValue_told h (hparts part List.mem_cons_self)).bind fun t _ => ?_
    refine (partValues_told fun q hq => hparts q (List.mem_cons_of_mem part hq)).bind fun ts _ => ?_
    exact .ok _

theorem stringValue_told {literal : Node} (hliteral : root.Contains literal) :
    Told (stringValue src literal) :=
  (partValues_told h fun _ hq => hliteral.namedChildren hq).map _

/-! ## Parameters -/

omit h in
theorem Node.unwrapFirst_eq (l : List Node) : Node.unwrapFirst l =
    match (l.filter (·.named)).filter (·.kind != "comment") with
    | [] => .error (.malformed .emptyParentheses)
    | c :: _ => c.unwrap := by
  induction l with
  | nil => simp [Node.unwrapFirst]
  | cons c rest ih =>
    rw [Node.unwrapFirst]
    by_cases hn : c.named
    · by_cases hk : c.kind != "comment"
      · simp [hn, hk]
      · simp [hn, hk, ih]
    · simp [hn, ih]

omit h in
/-- One layer of parentheses is taken off at a time. -/
theorem Node.unwrap_eq (n : Node) : n.unwrap =
    if n.kind = "parenthesized_expression" then
      match n.members with
      | [] => .error (.malformed .emptyParentheses)
      | c :: _ => c.unwrap
    else .ok n := by
  obtain ⟨_, _, _, _, _, _, _, children⟩ := n
  simp only [Node.unwrap, beq_iff_eq, Node.unwrapFirst_eq]
  rfl

/-- There is an expression inside any number of parentheses. -/
theorem exists_unwrap {n : Node} (hn : root.Contains n) :
    ∃ m, n.unwrap = .ok m ∧ root.Contains m := by
  induction n using Node.induction with
  | step n ih =>
    rw [Node.unwrap_eq]
    split_ifs with hkind
    · cases hm : n.members with
      | nil => exact absurd hm (h.parentheses n hn hkind)
      | cons c rest =>
        have hc : c ∈ n.members := by simp [hm]
        have hchild : c ∈ n.children := (List.mem_filter.mp (List.mem_filter.mp hc).1).1
        exact ih c hchild (hn.members hc)
    · exact ⟨n, rfl, hn⟩

omit h in
theorem namedBy_told {name : Node} (hname : name.text src ≠ "") (type : Option ParameterType)
    (default : Option Default) : Told (namedBy src name type default) := by
  rw [namedBy, Parameter.make, dif_neg hname]
  exact .ok _

theorem text_ne_of_isName {n : Node} (hn : root.Contains n) (hname : n.isName) :
    n.text src ≠ "" :=
  h.name n hn (Or.inl hname)

theorem defaultValue_told {value : Node} (hvalue : root.Contains value) :
    Told (defaultValue src value) := by
  unfold defaultValue
  split
  · exact (stringValue_told h hvalue).bind fun _ _ => .ok _
  · next hkind => exact (Number.ofLiteral_told (h.number value hvalue hkind)).bind fun _ _ => .ok _
  · exact .ok _
  · exact .ok _
  · exact .unknownKind _

theorem simplifyDefault_told {n : Node} (hn : root.Contains n) : Told (simplifyDefault src n) := by
  unfold simplifyDefault
  split
  · next left right hleft hright =>
    split
    · exact .unknownKind _
    · next hname =>
      obtain ⟨value, hvalue, hcontains⟩ := exists_unwrap h (hn.child? hright)
      rw [hvalue]
      refine (defaultValue_told h hcontains).bind fun typed _ => ?_
      exact namedBy_told (text_ne_of_isName h (hn.child? hleft) (by simpa using hname)) _ _
  · exact .unknownKind _

theorem simplifyRest_told {n : Node} (hn : root.Contains n) : Told (simplifyRest src n) := by
  unfold simplifyRest
  split
  · exact .unknownKind _
  · next name rest hmembers =>
    split
    · next hkind =>
      have hname : name.isName := by
        rw [beq_iff_eq] at hkind
        simp [Node.isName, hkind]
      exact namedBy_told (text_ne_of_isName h (hn.members (by simp [hmembers])) hname) _ _
    · exact .unknownKind _

theorem simplifyPlain_told {n : Node} (hn : root.Contains n) : Told (simplifyPlain src n) := by
  unfold simplifyPlain
  split_ifs with hname hdefault hrest
  · exact namedBy_told (text_ne_of_isName h hn hname) _ _
  · exact simplifyDefault_told h hn
  · exact simplifyRest_told h hn
  · exact .unknownKind _

theorem simplifyMember_told (parent : String) {n : Node} (hn : root.Contains n) :
    Told (simplifyMember src parent n) := by
  unfold simplifyMember
  dsimp only
  split
  · next value hvalue =>
    refine Told.map ?_ _
    split_ifs at hvalue with hpair
    · exact simplifyPlain_told h (hn.child? hvalue)
    · rw [← Option.some.inj hvalue]
      exact simplifyPlain_told h hn
  · exact .unknownKind _

theorem simplifyMembers_told (parent : String) :
    ∀ {l : List Node}, (∀ n ∈ l, root.Contains n) → Told (simplifyMembers src parent l)
  | [], _ => .ok []
  | n :: rest, hl => by
    refine (simplifyMember_told h parent (hl n List.mem_cons_self)).bind fun p _ => ?_
    refine (simplifyMembers_told parent fun m hm => hl m (List.mem_cons_of_mem n hm)).bind
      fun ps _ => ?_
    exact .ok _

omit h in
theorem placeholder_ne (reuse : Bool) (k : Nat) : placeholder reuse k ≠ "" := by
  unfold placeholder
  split_ifs
  · decide
  · intro hempty
    have := congrArg String.length hempty
    simp at this

theorem simplifyObject_told {parent : String} (hparent : parent ≠ "") {n : Node}
    (hn : root.Contains n) : Told (simplifyObject src parent n) := by
  rw [simplifyObject, Parameter.make, dif_neg hparent]
  exact (simplifyMembers_told h parent fun m hm => hn.members hm).bind fun ps _ => .ok _

theorem simplifyFrom_told (reuse : Bool) :
    ∀ {k : Nat} {l : List Node}, (∀ n ∈ l, root.Contains n) → Told (simplifyFrom reuse src k l)
  | _, [], _ => .ok []
  | k, n :: rest, hl => by
    have hrest : ∀ m ∈ rest, root.Contains m := fun m hm => hl m (List.mem_cons_of_mem n hm)
    have hn := hl n List.mem_cons_self
    rw [simplifyFrom]
    split
    · refine (simplifyObject_told h (placeholder_ne reuse k) hn).bind fun block _ => ?_
      exact (simplifyFrom_told reuse hrest).bind fun params _ => .ok _
    · refine (simplifyPlain_told h hn).bind fun p _ => ?_
      exact (simplifyFrom_told reuse hrest).bind fun params _ => .ok _

theorem simplify_told (reuse : Bool) {params : List Node}
    (hparams : ∀ n ∈ params, root.Contains n) : Told (simplify reuse src params) :=
  simplifyFrom_told h reuse hparams

/-! ## The whole -/

omit h in
/-- The nodes of a function that is declared in a tree are in the tree, and its name has a field of
names. -/
theorem Node.Declares.contains {n name value : Node} (hn : root.Contains n)
    (hd : n.Declares name value) :
    root.Contains name ∧ root.Contains value ∧
      (name.field = some "name" ∨ name.field = some "property") := by
  cases hd with
  | declaration kind hname =>
    exact ⟨hn.child? hname, hn, Or.inl (Node.field_of_child? hname)⟩
  | binding kind hfirst hname plain hvalue function =>
    have hdeclarator := hn.namedChildren (List.mem_of_find?_eq_some hfirst)
    exact ⟨hdeclarator.child? hname, hdeclarator.child? hvalue,
      Or.inl (Node.field_of_child? hname)⟩
  | assignment kind hleft member hname hvalue function =>
    exact ⟨(hn.child? hleft).child? hname, hn.child? hvalue,
      Or.inr (Node.field_of_child? hname)⟩

/-- A function that is found has a name, and its parameters are in the tree. -/
theorem FunctionAt.name_ne_and_contains {p : Position} {l : Int} {f : Located}
    (hf : FunctionAt src root p l f) : f.name ≠ "" ∧ ∀ n ∈ f.params, root.Contains n := by
  obtain ⟨hn, declares, -⟩ := hf
  obtain ⟨hname, hvalue, hfield⟩ := declares.contains ⟨p, hn⟩
  refine ⟨h.name _ hname (Or.inr hfield), fun m hm => ?_⟩
  rw [← Node.parameters_eq] at hm
  unfold Node.parameters at hm
  split at hm
  · next list hlist => exact (hvalue.child? hlist).members hm
  · simp at hm

theorem signature_told (reuse : Bool) {line : Int} {found : Located}
    (hfound : locate src root line = some found) : Told (found.signature reuse src) := by
  obtain ⟨_, p, _, l, -, -, hf, -⟩ := locate_iff_isLast.mp hfound
  obtain ⟨hname, hparams⟩ := hf.name_ne_and_contains h
  refine (simplify_told h reuse hparams).bind fun params _ => ?_
  rw [Signature.make, dif_neg hname]
  exact .ok _

theorem outcome_told (reuse : Bool) (line : Int) :
    Told (describe reuse src root line).outcome := by
  unfold describe
  split
  · next location reason hr => exact .unreadable location reason
  · split
    · exact .ok none
    · next found hfound => exact (signature_told h reuse hfound).map some

end Tree

/-- What a parser gives for a source is refused, or made of the tokens of the grammar. -/
def Parser.FollowsGrammar (parse : Parser) (src : Source) : Prop :=
  ¬(parse src).flagged → Tokenized src (parse src)

/-- On a tree that follows the grammar a description gives a signature or none, or fails because
the source cannot be read at some location or because a kind has no description. Nothing else
comes of it, and the insertion point of a function that is found exists. -/
theorem describe_ends_well (src : Source) (root : Node) (h : Grammatical src root) (reuse : Bool)
    (line : Int) :
    ((describe reuse src root line).outcome = .ok none ∨
      (∃ s, (describe reuse src root line).outcome = .ok (some s)) ∨
      (∃ location reason, (describe reuse src root line).outcome =
        .error (.source (.unreadableAt location reason))) ∨
      ∃ kind, (describe reuse src root line).outcome = .error (.source (.unknownKind kind))) ∧
    ∀ found, locate src root line = some found →
      Location.insertionPoint found.location.line found.location.column =
        .ok found.location.above := by
  refine ⟨?_, fun found _ => found.location.insertionPoint_self⟩
  have told := outcome_told h.tokenized reuse line
  generalize (describe reuse src root line).outcome = outcome at told ⊢
  cases told with
  | ok found =>
    cases found with
    | none => exact Or.inl rfl
    | some s => exact Or.inr (Or.inl ⟨s, rfl⟩)
  | unreadable location reason => exact Or.inr (Or.inr (Or.inl ⟨location, reason, rfl⟩))
  | unknownKind kind => exact Or.inr (Or.inr (Or.inr ⟨kind, rfl⟩))

/-- The source of `escapedDefault`. -/
def escapedDefaultSource : Source :=
  .ofString "function f(a = (\"\\u\x7b110000\x7d\"), b = 0_7) \x7b\x7d"

/-- A function whose first default, in parentheses, holds an escape past the last code point. -/
def escapedDefault : Node :=
  .make "program" 0 42 none true false
    [.make "function_declaration" 0 42 none true false
      [.make "identifier" 9 10 (some "name") true false [],
        .make "formal_parameters" 10 39 (some "parameters") true false
          [.make "assignment_pattern" 11 29 none true false
            [.make "identifier" 11 12 (some "left") true false [],
              .make "parenthesized_expression" 15 29 (some "right") true false
                [.make "string" 16 28 none true false
                  [.make "escape_sequence" 17 27 none true false []]]],
            .make "assignment_pattern" 31 38 none true false
              [.make "identifier" 31 32 (some "left") true false [],
                .make "number" 35 38 (some "right") true false []]]]]

theorem grammatical_escapedDefault : Grammatical escapedDefaultSource escapedDefault := by
  have hescape : EscapeText (escapedDefaultSource.text 17 27).toList := by
    have htext : (escapedDefaultSource.text 17 27).toList =
        '\\' :: 'u' :: '{' :: (['1', '1', '0', '0', '0', '0'] ++ ['}']) := by decide +kernel
    rw [htext]
    exact .braces (List.all_iff_forall_prop.mp (by decide)) (by decide)
  have hnumber : NumberText (escapedDefaultSource.text 35 38).toList := by
    refine ⟨.decimal ⟨['0', '7'], none, none, List.all_iff_forall_prop.mp (by decide), by simp,
      by simp⟩, Or.inl ?_⟩
    decide +kernel
  have hname (start stop : Nat) (field : Option String)
      (h : escapedDefaultSource.text start stop ≠ "") :
      Grammatical escapedDefaultSource (.make "identifier" start stop field true false []) :=
    .of_plain h (by simp [Node.make]) (by simp [Node.make])
  refine .of_plain (by decide +kernel) (by decide) (List.forall_mem_singleton.mpr ?_)
  refine .of_plain (by decide +kernel) (by decide) (List.forall_mem_cons.mpr
    ⟨hname 9 10 _ (by decide +kernel), List.forall_mem_singleton.mpr ?_⟩)
  refine .of_plain (by decide +kernel) (by decide) (List.forall_mem_cons.mpr
    ⟨?_, List.forall_mem_singleton.mpr ?_⟩)
  · refine .of_plain (by decide +kernel) (by decide) (List.forall_mem_cons.mpr
      ⟨hname 11 12 _ (by decide +kernel), List.forall_mem_singleton.mpr ?_⟩)
    refine .of_children (by decide +kernel)
      (by simp [Node.make, Node.members, Node.namedChildren]) (by simp [Node.make])
      (by simp [Node.make]) (List.forall_mem_singleton.mpr ?_)
    refine .of_plain (by decide +kernel) (by decide) (List.forall_mem_singleton.mpr ?_)
    exact .of_children (by decide +kernel) (by simp [Node.make]) (fun _ => hescape)
      (by simp [Node.make]) (by simp [Node.make])
  · refine .of_plain (by decide +kernel) (by decide) (List.forall_mem_cons.mpr
      ⟨hname 31 32 _ (by decide +kernel), List.forall_mem_singleton.mpr ?_⟩)
    exact .of_children (by decide +kernel) (by simp [Node.make]) (by simp [Node.make])
      (fun _ => hnumber) (by simp [Node.make])

/-- Such a default is a failure of the source. -/
theorem describe_escapedDefault : Grammatical escapedDefaultSource escapedDefault ∧
    (((describe false escapedDefaultSource escapedDefault 1).outcome = .ok none ∨
      (∃ s, (describe false escapedDefaultSource escapedDefault 1).outcome = .ok (some s)) ∨
      (∃ location reason, (describe false escapedDefaultSource escapedDefault 1).outcome =
        .error (.source (.unreadableAt location reason))) ∨
      ∃ kind, (describe false escapedDefaultSource escapedDefault 1).outcome =
        .error (.source (.unknownKind kind))) ∧
    ∀ found, locate escapedDefaultSource escapedDefault 1 = some found →
      Location.insertionPoint found.location.line found.location.column =
        .ok found.location.above) :=
  ⟨grammatical_escapedDefault,
    describe_ends_well escapedDefaultSource escapedDefault grammatical_escapedDefault false 1⟩

end DocSignature
