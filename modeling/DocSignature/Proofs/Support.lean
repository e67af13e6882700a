import DocSignature.Proofs.Totality

/-!
# Parameters that have a description

`SupportedParameter` tells from the nodes alone which parameters have a description : plain names,
names with a literal for their default, rests of a plain name, and objects whose members are such.
`UnsupportedParameter` tells which have none, with the error that says why. On a tree that follows
the grammar the two exclude each other and leave no third case.

`Decides` says of a step that it gives a result exactly on what is supported, and fails on the rest
with the error that belongs to it. Each function on the way has one lemma of this kind, and a list
of nodes fails at the leftmost that is unsupported (`Leftmost`, `Decides.cons`). The main statement,
`simplify_decided_leftmost`, says so of whole parameter lists.
-/

namespace DocSignature

/-! ## Steps that decide -/

/-- A step gives a result where `S` holds and fails with the errors that `R` tells, and one of the
two is the case. -/
structure Decides {α : Type} (x : Except Failure α) (S : Prop) (R : SignatureError → Prop) :
    Prop where
  ok : S → ∃ a, x = .ok a
  error : ∀ e, R e → x = .error (.source e)
  total : S ∨ ∃ e, R e

/-- The leftmost entry of a list that has no description has none because of an error. -/
def Leftmost {ι : Type} (S : ι → Prop) (R : ι → SignatureError → Prop) (l : List ι)
    (e : SignatureError) : Prop :=
  ∃ before n after, l = before ++ n :: after ∧ (∀ m ∈ before, S m) ∧ R n e

theorem leftmost_cons_iff {ι : Type} {S : ι → Prop} {R : ι → SignatureError → Prop} {n : ι}
    {rest : List ι} {e : SignatureError} :
    Leftmost S R (n :: rest) e ↔ R n e ∨ S n ∧ Leftmost S R rest e := by
  constructor
  · rintro ⟨before, m, after, hsplit, hbefore, he⟩
    cases before with
    | nil =>
      obtain ⟨rfl, rfl⟩ := List.cons.inj hsplit
      exact Or.inl he
    | cons k before =>
      obtain ⟨rfl, rfl⟩ := List.cons.inj hsplit
      obtain ⟨hn, hbefore⟩ := List.forall_mem_cons.mp hbefore
      exact Or.inr ⟨hn, before, m, after, rfl, hbefore, he⟩
  · rintro (he | ⟨hn, before, m, after, rfl, hbefore, he⟩)
    · exact ⟨[], n, rest, rfl, by simp, he⟩
    · exact ⟨n :: before, m, after, rfl, List.forall_mem_cons.mpr ⟨hn, hbefore⟩, he⟩

namespace Decides

variable {α β γ : Type} {x : Except Failure α} {S : Prop} {R : SignatureError → Prop}

theorem ok_iff (h : Decides x S R) : (∃ a, x = .ok a) ↔ S := by
  refine ⟨fun ⟨a, ha⟩ => h.total.resolve_right ?_, h.ok⟩
  rintro ⟨e, he⟩
  rw [h.error e he] at ha
  cases ha

theorem error_iff (h : Decides x S R) {f : Failure} :
    x = .error f ↔ ∃ e, R e ∧ f = .source e := by
  constructor
  · intro hf
    rcases h.total with hs | ⟨e, he⟩
    · obtain ⟨a, ha⟩ := h.ok hs
      rw [hf] at ha
      cases ha
    · rw [h.error e he] at hf
      exact ⟨e, he, (Except.error.inj hf).symm⟩
  · rintro ⟨e, he, rfl⟩
    exact h.error e he

/-- What has no description has one error. -/
theorem not_iff (h : Decides x S R) : ¬S ↔ ∃! e, R e := by
  constructor
  · intro hs
    obtain ⟨e, he⟩ := h.total.resolve_left hs
    refine ⟨e, he, fun e' he' => ?_⟩
    have heq := (h.error e' he').symm.trans (h.error e he)
    exact Failure.source.inj (Except.error.inj heq)
  · rintro ⟨e, he, -⟩ hs
    obtain ⟨a, ha⟩ := h.ok hs
    rw [h.error e he] at ha
    cases ha

theorem congr {S' : Prop} {R' : SignatureError → Prop} (h : Decides x S R) (hS : S' ↔ S)
    (hR : ∀ e, R' e ↔ R e) : Decides x S' R' := by
  obtain rfl : S' = S := propext hS
  obtain rfl : R' = R := funext fun e => propext (hR e)
  exact h

/-- A step that gives a result is followed by one that always does. -/
theorem bind_ok {f : α → Except Failure β} (h : Decides x S R) (hf : ∀ a, ∃ b, f a = .ok b) :
    Decides (x >>= f) S R where
  ok hs := by
    obtain ⟨a, rfl⟩ := h.ok hs
    exact hf a
  error e he := by
    rw [h.error e he]
    rfl
  total := h.total

theorem map (h : Decides x S R) (f : α → β) : Decides (x.map f) S R :=
  h.bind_ok fun a => ⟨f a, rfl⟩

/-- Entries are decided from left to right. -/
theorem cons {ι : Type} {S : ι → Prop} {R : ι → SignatureError → Prop} {n : ι} {rest : List ι}
    {y : Except Failure β} {g : α → β → γ} (hx : Decides x (S n) (R n))
    (hy : Decides y (∀ m ∈ rest, S m) (Leftmost S R rest)) :
    Decides (x >>= fun a => y >>= fun b => pure (g a b)) (∀ m ∈ n :: rest, S m)
      (Leftmost S R (n :: rest)) where
  ok hs := by
    obtain ⟨hn, hrest⟩ := List.forall_mem_cons.mp hs
    obtain ⟨a, rfl⟩ := hx.ok hn
    obtain ⟨b, rfl⟩ := hy.ok hrest
    exact ⟨g a b, rfl⟩
  error e he := by
    rcases leftmost_cons_iff.mp he with he | ⟨hn, he⟩
    · rw [hx.error e he]
      rfl
    · obtain ⟨a, rfl⟩ := hx.ok hn
      rw [hy.error e he]
      rfl
  total := by
    rcases hx.total with hn | ⟨e, he⟩
    · rcases hy.total with hrest | ⟨e, he⟩
      · exact Or.inl (List.forall_mem_cons.mpr ⟨hn, hrest⟩)
      · exact Or.inr ⟨e, leftmost_cons_iff.mpr (Or.inr ⟨hn, he⟩)⟩
    · exact Or.inr ⟨e, leftmost_cons_iff.mpr (Or.inl he)⟩

theorem nil {ι : Type} {S : ι → Prop} {R : ι → SignatureError → Prop} (a : α) :
    Decides (.ok a) (∀ m ∈ ([] : List ι), S m) (Leftmost S R []) where
  ok _ := ⟨a, rfl⟩
  error e he := by
    obtain ⟨before, n, after, hsplit, -⟩ := he
    simp at hsplit
  total := Or.inl (by simp)

end Decides

/-! ## Defaults -/

/-- The expression inside any number of parentheses. The first member of parentheses counts. -/
inductive Node.Inside : Node → Node → Prop
  | bare {n : Node} (kind : n.kind ≠ "parenthesized_expression") : Inside n n
  | layer {n c value : Node} (kind : n.kind = "parenthesized_expression")
      (first : n.members.head? = some c) (inside : Inside c value) : Inside n value

/-- A part of a string has a meaning : it is no escape past the last code point. -/
def SupportedPart (src : Source) (part : Node) : Prop :=
  ¬(part.kind = "escape_sequence" ∧ BeyondText (part.text src).toList)

/-- A part of a string has none, with the error that says where. -/
inductive UnsupportedPart (src : Source) (part : Node) : SignatureError → Prop
  | beyond (kind : part.kind = "escape_sequence") (beyond : BeyondText (part.text src).toList) :
      UnsupportedPart src part (.unreadableAt (part.location src) "invalid unicode escape")

/-- A default that has a description : an array, an object, a string without an escape past the last
code point, or a number literal that does not overflow and has no `n` behind it. -/
inductive SupportedDefault (src : Source) (value : Node) : Prop
  | array (kind : value.kind = "array")
  | object (kind : value.kind = "object")
  | string (kind : value.kind = "string")
      (parts : ∀ part ∈ value.namedChildren, SupportedPart src part)
  | number {l : NumberLiteral} (kind : value.kind = "number")
      (literal : (value.text src).toList.filter (· != '_') = l.text) (finite : ¬l.Overflows)

/-- A default that has none, with the error that says why. -/
inductive UnsupportedDefault (src : Source) (value : Node) : SignatureError → Prop
  | kind (kind : value.kind ∉ ["array", "object", "string", "number"]) :
      UnsupportedDefault src value (.unknownKind value.kind)
  | string {e : SignatureError} (kind : value.kind = "string")
      (part : Leftmost (SupportedPart src) (UnsupportedPart src) value.namedChildren e) :
      UnsupportedDefault src value e
  | bigint {l : NumberLiteral} (kind : value.kind = "number")
      (literal : (value.text src).toList.filter (· != '_') = l.text ++ ['n']) :
      UnsupportedDefault src value (.unknownKind "bigint")
  | overflow {l : NumberLiteral} (kind : value.kind = "number")
      (literal : (value.text src).toList.filter (· != '_') = l.text) (overflows : l.Overflows) :
      UnsupportedDefault src value (.unknownKind "number")

/-! ## Parameters -/

/-- The kinds of plain names. -/
def nameKinds : List String := ["identifier", "shorthand_property_identifier_pattern"]

/-- The kinds of names with a default. -/
def defaultKinds : List String := ["assignment_pattern", "object_assignment_pattern"]

/-- A parameter that has a description without being destructured : a name, a name with a supported
default, or a rest of a name. -/
inductive SupportedPlain (src : Source) (n : Node) : Prop
  | name (kind : n.kind ∈ nameKinds)
  | default {left right value : Node} (kind : n.kind ∈ defaultKinds)
      (hleft : n.child? "left" = some left) (hright : n.child? "right" = some right)
      (name : left.kind ∈ nameKinds) (inside : right.Inside value)
      (supported : SupportedDefault src value)
  | rest {name : Node} (kind : n.kind = "rest_pattern") (first : n.members.head? = some name)
      (plain : name.kind = "identifier")

/-- A parameter that is not destructured and has none, with the error that says why. -/
inductive UnsupportedPlain (src : Source) (n : Node) : SignatureError → Prop
  | kind (kind : n.kind ∉ nameKinds ++ defaultKinds ++ ["rest_pattern"]) :
      UnsupportedPlain src n (.unknownKind n.kind)
  | incomplete (kind : n.kind ∈ defaultKinds)
      (absent : n.child? "left" = none ∨ n.child? "right" = none) :
      UnsupportedPlain src n (.unknownKind n.kind)
  | pattern {left right : Node} (kind : n.kind ∈ defaultKinds)
      (hleft : n.child? "left" = some left) (hright : n.child? "right" = some right)
      (name : left.kind ∉ nameKinds) : UnsupportedPlain src n (.unknownKind left.kind)
  | default {left right value : Node} {e : SignatureError} (kind : n.kind ∈ defaultKinds)
      (hleft : n.child? "left" = some left) (hright : n.child? "right" = some right)
      (name : left.kind ∈ nameKinds) (inside : right.Inside value)
      (unsupported : UnsupportedDefault src value e) : UnsupportedPlain src n e
  | emptyRest (kind : n.kind = "rest_pattern") (empty : n.members = []) :
      UnsupportedPlain src n (.unknownKind n.kind)
  | restPattern {first : Node} (kind : n.kind = "rest_pattern")
      (hfirst : n.members.head? = some first) (pattern : first.kind ≠ "identifier") :
      UnsupportedPlain src n (.unknownKind first.kind)

/-- A member of a destructured object that has a description : of a pair its value, of any other
member itself. -/
inductive SupportedMember (src : Source) (n : Node) : Prop
  | pair {value : Node} (kind : n.kind = "pair_pattern") (hvalue : n.child? "value" = some value)
      (supported : SupportedPlain src value)
  | plain (kind : n.kind ≠ "pair_pattern") (supported : SupportedPlain src n)

/-- A member of a destructured object that has none, with the error that says why. -/
inductive UnsupportedMember (src : Source) (n : Node) : SignatureError → Prop
  | bare (kind : n.kind = "pair_pattern") (absent : n.child? "value" = none) :
      UnsupportedMember src n (.unknownKind n.kind)
  | pair {value : Node} {e : SignatureError} (kind : n.kind = "pair_pattern")
      (hvalue : n.child? "value" = some value) (unsupported : UnsupportedPlain src value e) :
      UnsupportedMember src n e
  | plain {e : SignatureError} (kind : n.kind ≠ "pair_pattern")
      (unsupported : UnsupportedPlain src n e) : UnsupportedMember src n e

/-- A parameter that has a description. Only a parameter, and no member of one, may be an object. -/
inductive SupportedParameter (src : Source) (n : Node) : Prop
  | object (kind : n.kind = "object_pattern") (members : ∀ m ∈ n.members, SupportedMember src m)
  | plain (kind : n.kind ≠ "object_pattern") (supported : SupportedPlain src n)

/-- A parameter that has none, with the error that says why. Of an object that is the error of its
leftmost member that has none. -/
inductive UnsupportedParameter (src : Source) (n : Node) : SignatureError → Prop
  | object {e : SignatureError} (kind : n.kind = "object_pattern")
      (member : Leftmost (SupportedMember src) (UnsupportedMember src) n.members e) :
      UnsupportedParameter src n e
  | plain {e : SignatureError} (kind : n.kind ≠ "object_pattern")
      (unsupported : UnsupportedPlain src n e) : UnsupportedParameter src n e

/-! ## Each function decides -/

theorem Node.isName_iff {n : Node} : n.isName ↔ n.kind ∈ nameKinds := by
  rw [Node.isName, List.contains_iff_mem]
  rfl

theorem Node.Inside.unwrap {n value : Node} (h : n.Inside value) : n.unwrap = .ok value := by
  induction h with
  | bare kind => rw [Node.unwrap_eq, if_neg kind]
  | @layer n c value kind first inside ih =>
    obtain ⟨rest, hmembers⟩ := List.head?_eq_some_iff.mp first
    rw [Node.unwrap_eq, if_pos kind, hmembers]
    exact ih

theorem Node.inside_of_unwrap {n value : Node} (h : n.unwrap = .ok value) : n.Inside value := by
  induction n using Node.induction with
  | step n ih =>
    rw [Node.unwrap_eq] at h
    split_ifs at h with kind
    · cases hmembers : n.members with
      | nil => simp [hmembers] at h
      | cons c rest =>
        rw [hmembers] at h
        have hchild : c ∈ n.children := by
          have hc : c ∈ n.members := by simp [hmembers]
          exact (List.mem_filter.mp (List.mem_filter.mp hc).1).1
        exact .layer kind (by rw [hmembers]; rfl) (ih c hchild h)
    · obtain rfl := Except.ok.inj h
      exact .bare kind

theorem Node.Contains.inside {root n value : Node} (hn : root.Contains n) (h : n.Inside value) :
    root.Contains value := by
  induction h with
  | bare kind => exact hn
  | layer kind first inside ih => exact ih (hn.members (List.mem_of_mem_head? first))

section Kinds

variable {src : Source} {n : Node}

theorem simplifyPlain_of_name (kind : n.kind ∈ nameKinds) :
    simplifyPlain src n = namedBy src n none none := by
  rw [simplifyPlain, if_pos (Node.isName_iff.mpr kind)]

theorem simplifyPlain_of_default (kind : n.kind ∈ defaultKinds) :
    simplifyPlain src n = simplifyDefault src n := by
  have hname : ¬n.isName := by
    rw [Node.isName_iff]
    revert kind
    generalize n.kind = k
    revert k
    exact List.all_iff_forall_prop.mp (by decide)
  rw [simplifyPlain, if_neg hname]
  exact if_pos (List.contains_iff_mem.mpr kind)

theorem simplifyPlain_of_rest (kind : n.kind = "rest_pattern") :
    simplifyPlain src n = simplifyRest src n := by
  simp [simplifyPlain, Node.isName, kind]

theorem simplifyPlain_of_other (kind : n.kind ∉ nameKinds ++ defaultKinds ++ ["rest_pattern"]) :
    simplifyPlain src n = unknown n.kind := by
  simp only [List.mem_append, List.mem_singleton, not_or] at kind
  obtain ⟨⟨hname, hdefault⟩, hrest⟩ := kind
  rw [simplifyPlain, if_neg (mt Node.isName_iff.mp hname)]
  exact (if_neg (mt List.contains_iff_mem.mp hdefault)).trans (if_neg (by simpa using hrest))

theorem simplifyMember_of_pair {value : Node} (kind : n.kind = "pair_pattern")
    (hvalue : n.child? "value" = some value) (parent : String) :
    simplifyMember src parent n = (simplifyPlain src value).map (·.withParent parent) := by
  simp [simplifyMember, kind, hvalue]

theorem simplifyMember_of_bare (kind : n.kind = "pair_pattern") (hvalue : n.child? "value" = none)
    (parent : String) : simplifyMember src parent n = unknown n.kind := by
  simp [simplifyMember, kind, hvalue]

theorem simplifyMember_of_plain (kind : n.kind ≠ "pair_pattern") (parent : String) :
    simplifyMember src parent n = (simplifyPlain src n).map (·.withParent parent) := by
  simp [simplifyMember, kind]

theorem supportedParameter_object_iff (kind : n.kind = "object_pattern") :
    SupportedParameter src n ↔ ∀ m ∈ n.members, SupportedMember src m := by
  refine ⟨fun h => ?_, .object kind⟩
  cases h with
  | object _ members => exact members
  | plain hne _ => exact absurd kind hne

theorem unsupportedParameter_object_iff (kind : n.kind = "object_pattern") (e : SignatureError) :
    UnsupportedParameter src n e ↔
      Leftmost (SupportedMember src) (UnsupportedMember src) n.members e := by
  refine ⟨fun h => ?_, .object kind⟩
  cases h with
  | object _ member => exact member
  | plain hne _ => exact absurd kind hne

theorem supportedParameter_plain_iff (kind : n.kind ≠ "object_pattern") :
    SupportedParameter src n ↔ SupportedPlain src n := by
  refine ⟨fun h => ?_, .plain kind⟩
  cases h with
  | object hobject _ => exact absurd hobject kind
  | plain _ supported => exact supported

theorem unsupportedParameter_plain_iff (kind : n.kind ≠ "object_pattern") (e : SignatureError) :
    UnsupportedParameter src n e ↔ UnsupportedPlain src n e := by
  refine ⟨fun h => ?_, .plain kind⟩
  cases h with
  | object hobject _ => exact absurd hobject kind
  | plain _ unsupported => exact unsupported

end Kinds

section Tree

variable {src : Source} {root : Node} (h : Grammatical src root)

include h

theorem partValue_decides {part : Node} (hpart : root.Contains part) :
    Decides (partValue src part) (SupportedPart src part) (UnsupportedPart src part) where
  ok hs := by
    unfold partValue
    dsimp only
    split
    · next hkind =>
      have hkind : part.kind = "escape_sequence" := by simpa using hkind
      rcases (h.escape part hpart hkind).meaning with ⟨t, ht⟩ | ⟨-, hbeyond⟩
      · rw [ht]
        exact ⟨t, rfl⟩
      · exact absurd ⟨hkind, hbeyond⟩ hs
    · exact ⟨_, rfl⟩
  error e he := by
    obtain ⟨hkind, hbeyond⟩ := he
    simp only [partValue, hkind, BEq.rfl, if_true, hbeyond.meaning]
  total := by
    by_cases hs : SupportedPart src part
    · exact Or.inl hs
    · obtain ⟨hkind, hbeyond⟩ := not_not.mp hs
      exact Or.inr ⟨_, .beyond hkind hbeyond⟩

theorem partValues_decides :
    ∀ {parts : List Node}, (∀ part ∈ parts, root.Contains part) →
      Decides (partValues src parts) (∀ part ∈ parts, SupportedPart src part)
        (Leftmost (SupportedPart src) (UnsupportedPart src) parts)
  | [], _ => .nil []
  | part :: _, hparts =>
    (partValue_decides h (hparts part List.mem_cons_self)).cons
      (partValues_decides fun q hq => hparts q (List.mem_cons_of_mem part hq))

theorem stringValue_decides {literal : Node} (hliteral : root.Contains literal) :
    Decides (stringValue src literal) (∀ part ∈ literal.namedChildren, SupportedPart src part)
      (Leftmost (SupportedPart src) (UnsupportedPart src) literal.namedChildren) :=
  (partValues_decides h fun _ hq => hliteral.namedChildren hq).map _

theorem defaultValue_decides {value : Node} (hvalue : root.Contains value) :
    Decides (defaultValue src value) (SupportedDefault src value)
      (UnsupportedDefault src value) where
  ok hs := by
    cases hs with
    | array kind => exact ⟨_, by simp only [defaultValue, kind]; rfl⟩
    | object kind => exact ⟨_, by simp only [defaultValue, kind]; rfl⟩
    | string kind parts =>
      obtain ⟨t, ht⟩ := (stringValue_decides h hvalue).ok parts
      exact ⟨_, by simp only [defaultValue, kind, ht]; rfl⟩
    | number kind literal finite =>
      obtain ⟨n, hn⟩ := Number.ofPlain_eq_ok finite
      rw [← Number.ofLiteral_eq literal] at hn
      exact ⟨_, by simp only [defaultValue, kind, hn]; rfl⟩
  error e he := by
    cases he with
    | kind kind =>
      unfold defaultValue
      split
      · next hk => simp [hk] at kind
      · next hk => simp [hk] at kind
      · next hk => simp [hk] at kind
      · next hk => simp [hk] at kind
      · rfl
    | string kind part =>
      simp only [defaultValue, kind, (stringValue_decides h hvalue).error e part]
      rfl
    | bigint kind literal =>
      simp only [defaultValue, kind, Number.ofLiteral_bigint literal]
      rfl
    | overflow kind literal overflows =>
      simp only [defaultValue, kind, Number.ofLiteral_eq literal,
        Number.ofPlain_of_overflows overflows]
      rfl
  total := by
    by_cases kind : value.kind ∈ ["array", "object", "string", "number"]
    · simp only [List.mem_cons, List.not_mem_nil, or_false] at kind
      rcases kind with kind | kind | kind | kind
      · exact Or.inl (.array kind)
      · exact Or.inl (.object kind)
      · exact (stringValue_decides h hvalue).total.imp (.string kind)
          (Exists.imp fun _ => .string kind)
      · obtain ⟨l, literal | literal⟩ := h.number value hvalue kind
        · by_cases overflows : l.Overflows
          · exact Or.inr ⟨_, .overflow kind literal overflows⟩
          · exact Or.inl (.number kind literal overflows)
        · exact Or.inr ⟨_, .bigint kind literal⟩
    · exact Or.inr ⟨_, .kind kind⟩

omit h in
theorem exists_namedBy {name : Node} (hname : name.text src ≠ "") (type : Option ParameterType)
    (default : Option Default) : ∃ p, namedBy src name type default = .ok p := by
  rw [namedBy, Parameter.make, dif_neg hname]
  exact ⟨_, rfl⟩

/-- A complete default of a plain name is decided by its value. -/
theorem simplifyDefault_decides {n left right value : Node} (hn : root.Contains n)
    (hleft : n.child? "left" = some left) (hright : n.child? "right" = some right)
    (name : left.kind ∈ nameKinds) (inside : right.Inside value) :
    Decides (simplifyDefault src n) (SupportedDefault src value)
      (UnsupportedDefault src value) := by
  have hname : left.isName := Node.isName_iff.mpr name
  simp only [simplifyDefault, hleft, hright, hname, inside.unwrap]
  refine (defaultValue_decides h ((hn.child? hright).inside inside)).bind_ok fun typed => ?_
  exact exists_namedBy (text_ne_of_isName h.tokenized (hn.child? hleft) hname) _ _

theorem simplifyPlain_decides {n : Node} (hn : root.Contains n) :
    Decides (simplifyPlain src n) (SupportedPlain src n) (UnsupportedPlain src n) where
  ok hs := by
    cases hs with
    | name kind =>
      rw [simplifyPlain_of_name kind]
      exact exists_namedBy (text_ne_of_isName h.tokenized hn (Node.isName_iff.mpr kind)) _ _
    | default kind hleft hright name inside supported =>
      rw [simplifyPlain_of_default kind]
      exact (simplifyDefault_decides h hn hleft hright name inside).ok supported
    | @rest name kind first plain =>
      obtain ⟨rest, hmembers⟩ := List.head?_eq_some_iff.mp first
      have hname : name.isName := by simp [Node.isName, plain]
      rw [simplifyPlain_of_rest kind, simplifyRest, hmembers]
      simp only [plain, BEq.rfl, if_true]
      have hcontains := hn.members (List.mem_of_mem_head? first)
      exact exists_namedBy (text_ne_of_isName h.tokenized hcontains hname) _ _
  error e he := by
    cases he with
    | kind kind => exact simplifyPlain_of_other kind
    | incomplete kind absent =>
      rw [simplifyPlain_of_default kind, simplifyDefault]
      rcases absent with hleft | hright
      · simp only [hleft]
        rfl
      · simp only [hright]
        cases n.child? "left" <;> rfl
    | pattern kind hleft hright name =>
      rw [simplifyPlain_of_default kind]
      simp [simplifyDefault, hleft, hright, mt Node.isName_iff.mp name, unknown]
    | default kind hleft hright name inside unsupported =>
      rw [simplifyPlain_of_default kind]
      exact (simplifyDefault_decides h hn hleft hright name inside).error e unsupported
    | emptyRest kind empty =>
      rw [simplifyPlain_of_rest kind, simplifyRest, empty]
      rfl
    | restPattern kind hfirst pattern =>
      obtain ⟨rest, hmembers⟩ := List.head?_eq_some_iff.mp hfirst
      simp [simplifyPlain_of_rest kind, simplifyRest, hmembers, pattern, unknown]
  total := by
    by_cases hname : n.kind ∈ nameKinds
    · exact Or.inl (.name hname)
    by_cases hdefault : n.kind ∈ defaultKinds
    · cases hleft : n.child? "left" with
      | none => exact Or.inr ⟨_, .incomplete hdefault (Or.inl hleft)⟩
      | some left =>
        cases hright : n.child? "right" with
        | none => exact Or.inr ⟨_, .incomplete hdefault (Or.inr hright)⟩
        | some right =>
          by_cases name : left.kind ∈ nameKinds
          · obtain ⟨value, hvalue, hcontains⟩ := exists_unwrap h.tokenized (hn.child? hright)
            have inside := Node.inside_of_unwrap hvalue
            exact (defaultValue_decides h hcontains).total.imp
              (.default hdefault hleft hright name inside)
              (Exists.imp fun _ => .default hdefault hleft hright name inside)
          · exact Or.inr ⟨_, .pattern hdefault hleft hright name⟩
    by_cases hrest : n.kind = "rest_pattern"
    · cases hfirst : n.members.head? with
      | none => exact Or.inr ⟨_, .emptyRest hrest (List.head?_eq_none_iff.mp hfirst)⟩
      | some first =>
        by_cases plain : first.kind = "identifier"
        · exact Or.inl (.rest hrest hfirst plain)
        · exact Or.inr ⟨_, .restPattern hrest hfirst plain⟩
    · refine Or.inr ⟨_, .kind ?_⟩
      simp only [List.mem_append, List.mem_singleton, not_or]
      exact ⟨⟨hname, hdefault⟩, hrest⟩

theorem simplifyMember_decides (parent : String) {n : Node} (hn : root.Contains n) :
    Decides (simplifyMember src parent n) (SupportedMember src n) (UnsupportedMember src n) where
  ok hs := by
    cases hs with
    | pair kind hvalue supported =>
      rw [simplifyMember_of_pair kind hvalue]
      exact ((simplifyPlain_decides h (hn.child? hvalue)).map _).ok supported
    | plain kind supported =>
      rw [simplifyMember_of_plain kind]
      exact ((simplifyPlain_decides h hn).map _).ok supported
  error e he := by
    cases he with
    | bare kind absent => exact simplifyMember_of_bare kind absent parent
    | pair kind hvalue unsupported =>
      rw [simplifyMember_of_pair kind hvalue]
      exact ((simplifyPlain_decides h (hn.child? hvalue)).map _).error e unsupported
    | plain kind unsupported =>
      rw [simplifyMember_of_plain kind]
      exact ((simplifyPlain_decides h hn).map _).error e unsupported
  total := by
    by_cases kind : n.kind = "pair_pattern"
    · cases hvalue : n.child? "value" with
      | none => exact Or.inr ⟨_, .bare kind hvalue⟩
      | some value =>
        exact (simplifyPlain_decides h (hn.child? hvalue)).total.imp (.pair kind hvalue)
          (Exists.imp fun _ => .pair kind hvalue)
    · exact (simplifyPlain_decides h hn).total.imp (.plain kind) (Exists.imp fun _ => .plain kind)

theorem simplifyMembers_decides (parent : String) :
    ∀ {l : List Node}, (∀ n ∈ l, root.Contains n) →
      Decides (simplifyMembers src parent l) (∀ n ∈ l, SupportedMember src n)
        (Leftmost (SupportedMember src) (UnsupportedMember src) l)
  | [], _ => .nil []
  | n :: _, hl =>
    (simplifyMember_decides h parent (hl n List.mem_cons_self)).cons
      (simplifyMembers_decides parent fun m hm => hl m (List.mem_cons_of_mem n hm))

theorem simplifyObject_decides {parent : String} (hparent : parent ≠ "") {n : Node}
    (hn : root.Contains n) (kind : n.kind = "object_pattern") :
    Decides (simplifyObject src parent n) (SupportedParameter src n)
      (UnsupportedParameter src n) := by
  rw [simplifyObject, Parameter.make, dif_neg hparent]
  refine Decides.congr ?_ (supportedParameter_object_iff kind)
    (unsupportedParameter_object_iff kind)
  exact (simplifyMembers_decides h parent fun m hm => hn.members hm).bind_ok fun ps => ⟨_, rfl⟩

theorem simplifyPlain_decides_parameter {n : Node} (hn : root.Contains n)
    (kind : n.kind ≠ "object_pattern") :
    Decides (simplifyPlain src n) (SupportedParameter src n) (UnsupportedParameter src n) :=
  (simplifyPlain_decides h hn).congr (supportedParameter_plain_iff kind)
    (unsupportedParameter_plain_iff kind)

/-- The placeholders do not matter. -/
theorem simplifyFrom_decides (reuse : Bool) :
    ∀ {k : ℕ} {l : List Node}, (∀ n ∈ l, root.Contains n) →
      Decides (simplifyFrom reuse src k l) (∀ n ∈ l, SupportedParameter src n)
        (Leftmost (SupportedParameter src) (UnsupportedParameter src) l)
  | _, [], _ => .nil []
  | k, n :: rest, hl => by
    have hn := hl n List.mem_cons_self
    have hrest : ∀ m ∈ rest, root.Contains m := fun m hm => hl m (List.mem_cons_of_mem n hm)
    by_cases kind : n.kind = "object_pattern"
    · rw [simplifyFrom, if_pos (by simpa using kind)]
      exact (simplifyObject_decides h (placeholder_ne reuse k) hn kind).cons
        (simplifyFrom_decides reuse hrest)
    · rw [simplifyFrom, if_neg (by simpa using kind)]
      exact (simplifyPlain_decides_parameter h hn kind).cons (simplifyFrom_decides reuse hrest)

theorem not_supportedParameter_iff {n : Node} (hn : root.Contains n) :
    ¬SupportedParameter src n ↔ ∃! e, UnsupportedParameter src n e := by
  by_cases kind : n.kind = "object_pattern"
  · exact (simplifyObject_decides h (placeholder_ne false 1) hn kind).not_iff
  · exact (simplifyPlain_decides_parameter h hn kind).not_iff

end Tree

/-! ## Whole lists -/

/-- The parameters of a function in a tree that follows the grammar have descriptions exactly if
each of them is supported. Otherwise there is a leftmost that is not, and the error of that
parameter is what comes of the list : a parameter that is not supported has exactly one error. -/
theorem simplify_decided_leftmost (src : Source) (root : Node) (h : Grammatical src root)
    (reuse : Bool) (params : List Node) (hparams : ∀ n ∈ params, root.Contains n) :
    ((∃ ps, simplify reuse src params = .ok ps) ↔ ∀ n ∈ params, SupportedParameter src n) ∧
      (∀ n ∈ params, ¬SupportedParameter src n ↔ ∃! e, UnsupportedParameter src n e) ∧
      ∀ f, simplify reuse src params = .error f ↔
        ∃ e, Leftmost (SupportedParameter src) (UnsupportedParameter src) params e ∧
          f = .source e := by
  have hdecides : Decides (simplify reuse src params) _ _ := simplifyFrom_decides h reuse hparams
  exact ⟨hdecides.ok_iff, fun n hn => not_supportedParameter_iff h (hparams n hn),
    fun f => hdecides.error_iff⟩

/-- The source of `nestedPattern`. -/
def nestedPatternSource : Source := .ofString "(\x7ba, b: \x7bc\x7d\x7d, d = 1n)"

/-- Parameters the first of which is an object inside an object, and the second of which is not
supported either. -/
def nestedPattern : Node :=
  .make "formal_parameters" 0 21 none true false
    [.make "object_pattern" 1 12 none true false
      [.make "shorthand_property_identifier_pattern" 2 3 none true false [],
        .make "pair_pattern" 5 11 none true false
          [.make "property_identifier" 5 6 (some "key") true false [],
            .make "object_pattern" 8 11 (some "value") true false
              [.make "shorthand_property_identifier_pattern" 9 10 none true false []]]],
      .make "assignment_pattern" 14 20 none true false
        [.make "identifier" 14 15 (some "left") true false [],
          .make "number" 18 20 (some "right") true false []]]

theorem grammatical_nestedPattern : Grammatical nestedPatternSource nestedPattern := by
  have hnumber : NumberText (nestedPatternSource.text 18 20).toList := by
    refine ⟨.decimal ⟨['1'], none, none, List.all_iff_forall_prop.mp (by decide), by simp,
      by simp⟩, Or.inr ?_⟩
    decide +kernel
  have hleaf (kind : String) (start stop : ℕ) (field : Option String)
      (hkind : kind ∉ ["parenthesized_expression", "escape_sequence", "number"])
      (h : nestedPatternSource.text start stop ≠ "") :
      Grammatical nestedPatternSource (.make kind start stop field true false []) :=
    .of_plain h hkind (by simp [Node.make])
  refine .of_plain (by decide +kernel) (by decide) (List.forall_mem_cons.mpr
    ⟨?_, List.forall_mem_singleton.mpr ?_⟩)
  · refine .of_plain (by decide +kernel) (by decide) (List.forall_mem_cons.mpr
      ⟨hleaf _ 2 3 _ (by decide) (by decide +kernel), List.forall_mem_singleton.mpr ?_⟩)
    refine .of_plain (by decide +kernel) (by decide) (List.forall_mem_cons.mpr
      ⟨hleaf _ 5 6 _ (by decide) (by decide +kernel), List.forall_mem_singleton.mpr ?_⟩)
    refine .of_plain (by decide +kernel) (by decide) (List.forall_mem_singleton.mpr ?_)
    exact hleaf _ 9 10 _ (by decide) (by decide +kernel)
  · refine .of_plain (by decide +kernel) (by decide) (List.forall_mem_cons.mpr
      ⟨hleaf _ 14 15 _ (by decide) (by decide +kernel), List.forall_mem_singleton.mpr ?_⟩)
    exact .of_children (by decide +kernel) (by simp [Node.make]) (by simp [Node.make])
      (fun _ => hnumber) (by simp [Node.make])

/-- The inner object is what is reported. -/
theorem simplify_nestedPattern : Grammatical nestedPatternSource nestedPattern ∧
    (∀ n ∈ nestedPattern.members, nestedPattern.Contains n) ∧
    Leftmost (SupportedParameter nestedPatternSource) (UnsupportedParameter nestedPatternSource)
      nestedPattern.members (.unknownKind "object_pattern") ∧
    simplify false nestedPatternSource nestedPattern.members =
      .error (.source (.unknownKind "object_pattern")) := by
  have hcontains : ∀ n ∈ nestedPattern.members, nestedPattern.Contains n :=
    fun n hn => (Node.Contains.self nestedPattern).members hn
  have hleftmost : Leftmost (SupportedParameter nestedPatternSource)
      (UnsupportedParameter nestedPatternSource) nestedPattern.members
      (.unknownKind "object_pattern") := by
    refine ⟨[], _, _, rfl, by simp, .object rfl ⟨[_], _, [], rfl, ?_, .pair rfl rfl ?_⟩⟩
    · exact List.forall_mem_singleton.mpr (.plain (by decide) (.name (by decide)))
    · exact .kind (by decide)
  obtain ⟨-, -, herror⟩ := simplify_decided_leftmost nestedPatternSource nestedPattern
    grammatical_nestedPattern false nestedPattern.members hcontains
  exact ⟨grammatical_nestedPattern, hcontains, hleftmost, (herror _).mpr ⟨_, hleftmost, rfl⟩⟩

end DocSignature
