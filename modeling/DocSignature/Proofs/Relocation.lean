import DocSignature.Proofs.Copy
import DocSignature.Proofs.Totality

/-!
# Describing a copy

A copy of a tree is described as the tree is, with the lines of failures and of the insertion point
moved down (`outcome_copy`). This needs no more of the two sources than `Source.Moved` says : a span
of the one has the text of the moved span of the other, and its location `k` lines further up.

`Failure.Below` relates the failures of two such runs. It is kept step by step : from the parts of a
string literal (`partValue_copy`) over defaults and parameters (`simplify_copy`) up to the signature
of a function (`signature_copy`).
-/

namespace DocSignature

/-! ## Failures further down -/

/-- The same error with its line, if it has one, `k` lines further down. -/
def SignatureError.down (k : Nat) : SignatureError → SignatureError
  | .unreadable line column reason => .unreadable (line + k) column reason
  | .unknownKind kind => .unknownKind kind
  | .other message => .other message

/-- The same failure with its line, if it has one, `k` lines further down. -/
def Failure.down (k : Nat) : Failure → Failure
  | .source e => .source (e.down k)
  | .malformed m => .malformed m

/-- The second failure is the first, `k` lines further down. -/
def Failure.Below (k : Nat) (e f : Failure) : Prop := f = e.down k

theorem unreadableAt_down (k : Nat) (l : Location) (reason : String) :
    (SignatureError.unreadableAt l reason).down k = .unreadableAt (l.down k) reason := by
  simp [SignatureError.unreadableAt, SignatureError.down, Location.down]

theorem Failure.down_zero (e : Failure) : e.down 0 = e := by
  cases e with
  | source e => cases e <;> simp [Failure.down, SignatureError.down]
  | malformed m => rfl

/-- Where nothing moves, runs that agree are equal. -/
theorem Agree.eq_of_below_zero {α : Type} {x y : Except Failure α}
    (h : Agree (Failure.Below 0) Eq x y) : y = x := by
  cases h with
  | ok h => rw [h]
  | error h => rw [h, Failure.down_zero]

/-! ## Failures without a line -/

/-- None of the failures of a chain has a line, so the chain agrees with itself however far down. -/
def Placeless {α : Type} (x : Except Failure α) : Prop := ∀ k, Agree (Failure.Below k) Eq x x

theorem placeless_unknown {α : Type} (kind : String) : Placeless (unknown kind : Except Failure α) :=
  fun _ => .error rfl

/-- What is wrong with a descriptor is the same on every line. -/
theorem placeless_descriptor {α : Type} (x : Except DescriptorError α) :
    Placeless (x.mapError fun e => Failure.malformed (.descriptor e)) := by
  intro k
  cases x with
  | ok a => exact .ok rfl
  | error e => exact .error rfl

namespace Number

theorem placeless_ofWhole (n : Option Nat) : Placeless (ofWhole n) := by
  intro k
  cases n with
  | some n => exact .ok rfl
  | none => exact .error rfl

theorem placeless_ofDecimal (s : List Char) : Placeless (ofDecimal s) := by
  intro k
  unfold ofDecimal ofBinary64
  split
  · split
    · split
      · exact .ok rfl
      · exact .ok rfl
    · exact .error rfl
  · exact .error rfl

theorem placeless_ofLiteral (s : List Char) : Placeless (ofLiteral s) := by
  unfold ofLiteral ofPlain
  dsimp only
  split
  · exact placeless_unknown _
  · split
    · split
      · exact placeless_ofWhole _
      · split
        · exact placeless_ofWhole _
        · exact placeless_ofDecimal _
    · exact placeless_ofDecimal _

end Number

section Copy

variable {d k : Nat} {n m : Node}

/-! ## Nodes -/

theorem Node.Copy.isName (h : Node.Copy d n m) : m.isName = n.isName := by
  rw [Node.isName, Node.isName, h.kind]

theorem unwrap_copy (k : Nat) (h : Node.Copy d n m) :
    Agree (Failure.Below k) (Node.Copy d) n.unwrap m.unwrap := by
  induction n using Node.induction generalizing m with
  | step n ih =>
    rw [Node.unwrap_eq, Node.unwrap_eq, h.kind]
    split
    · have hmembers := h.members
      cases hn : n.members with
      | nil =>
        rw [hn, List.forall₂_nil_left_iff] at hmembers
        rw [hmembers]
        exact .error rfl
      | cons c rest =>
        rw [hn, List.forall₂_cons_left_iff] at hmembers
        obtain ⟨c', rest', hc, -, hm⟩ := hmembers
        rw [hm]
        have hmem : c ∈ n.members := by simp [hn]
        exact ih c (List.mem_filter.mp (List.mem_filter.mp hmem).1).1 hc
    · exact .ok h

variable {src src' : Source} (moved : Source.Moved d k src src')
include moved

/-! ## Literals -/

theorem partValue_copy (h : Node.Copy d n m) :
    Agree (Failure.Below k) Eq (partValue src n) (partValue src' m) := by
  unfold partValue
  rw [moved.node_text h, h.kind, moved.node_location h, ← unreadableAt_down]
  dsimp only
  split
  · cases Escape.meaning ((n.text src).toList.drop 1) with
    | ok t => exact .ok rfl
    | error e =>
      cases e with
      | beyond => exact .error rfl
      | malformed m => exact .error rfl
  · exact .ok rfl

theorem partValues_copy {l l' : List Node} (h : List.Forall₂ (Node.Copy d) l l') :
    Agree (Failure.Below k) Eq (partValues src l) (partValues src' l') := by
  induction h with
  | nil => exact .ok rfl
  | cons head _ ih =>
    refine (partValue_copy moved head).bind_eq fun t => ?_
    exact ih.bind_eq fun ts => .ok rfl

theorem stringValue_copy (h : Node.Copy d n m) (hstring : n.kind = "string") :
    Agree (Failure.Below k) Eq (stringValue src n) (stringValue src' m) :=
  (partValues_copy moved (h.parts hstring)).map fun _ _ ht => by rw [ht]

/-! ## Defaults -/

theorem defaultValue_copy (h : Node.Copy d n m) :
    Agree (Failure.Below k) Eq (defaultValue src n) (defaultValue src' m) := by
  unfold defaultValue
  rw [h.kind]
  split
  · next hstring => exact (stringValue_copy moved h hstring).bind_eq fun t => .ok rfl
  · rw [moved.node_text h]
    exact (Number.placeless_ofLiteral _ k).bind_eq fun x => .ok rfl
  · exact .ok rfl
  · exact .ok rfl
  · exact placeless_unknown _ k

theorem namedBy_copy (h : Node.Copy d n m) (type : Option ParameterType)
    (default : Option Default) :
    Agree (Failure.Below k) Eq (namedBy src n type default) (namedBy src' m type default) := by
  unfold namedBy
  rw [moved.node_text h]
  exact placeless_descriptor _ k

/-! ## Parameters -/

theorem simplifyDefault_copy (h : Node.Copy d n m) :
    Agree (Failure.Below k) Eq (simplifyDefault src n) (simplifyDefault src' m) := by
  have hleft := h.child? "left"
  have hright := h.child? "right"
  unfold simplifyDefault
  rw [h.kind]
  generalize n.child? "left" = left, m.child? "left" = left' at hleft ⊢
  generalize n.child? "right" = right, m.child? "right" = right' at hright ⊢
  cases hleft with
  | none => exact placeless_unknown _ k
  | some hleft =>
    cases hright with
    | none => exact placeless_unknown _ k
    | some hright =>
      dsimp only
      rw [hleft.isName, hleft.kind]
      split
      · exact placeless_unknown _ k
      · refine (unwrap_copy k hright).bind fun value value' hvalue => ?_
        exact (defaultValue_copy moved hvalue).bind_eq fun typed => namedBy_copy moved hleft _ _

theorem simplifyRest_copy (h : Node.Copy d n m) :
    Agree (Failure.Below k) Eq (simplifyRest src n) (simplifyRest src' m) := by
  have hmembers := h.members
  unfold simplifyRest
  rw [h.kind]
  generalize n.members = members, m.members = members' at hmembers ⊢
  cases hmembers with
  | nil => exact placeless_unknown _ k
  | cons hname _ =>
    dsimp only
    rw [hname.kind]
    split
    · exact namedBy_copy moved hname _ _
    · exact placeless_unknown _ k

theorem simplifyPlain_copy (h : Node.Copy d n m) :
    Agree (Failure.Below k) Eq (simplifyPlain src n) (simplifyPlain src' m) := by
  unfold simplifyPlain
  rw [h.isName, h.kind]
  split
  · exact namedBy_copy moved h _ _
  · split
    · exact simplifyDefault_copy moved h
    · split
      · exact simplifyRest_copy moved h
      · exact placeless_unknown _ k

theorem simplifyMember_copy (parent : String) (h : Node.Copy d n m) :
    Agree (Failure.Below k) Eq (simplifyMember src parent n) (simplifyMember src' parent m) := by
  have hbound : Option.Rel (Node.Copy d)
      (if n.kind == "pair_pattern" then n.child? "value" else some n)
      (if n.kind == "pair_pattern" then m.child? "value" else some m) := by
    split
    · exact h.child? "value"
    · exact .some h
  unfold simplifyMember
  rw [h.kind]
  dsimp only
  generalize (if n.kind == "pair_pattern" then n.child? "value" else some n) = bound at hbound ⊢
  generalize (if n.kind == "pair_pattern" then m.child? "value" else some m) = bound' at hbound ⊢
  cases hbound with
  | none => exact placeless_unknown _ k
  | some hvalue => exact (simplifyPlain_copy moved hvalue).map fun _ _ hp => by rw [hp]

theorem simplifyMembers_copy (parent : String) {l l' : List Node}
    (h : List.Forall₂ (Node.Copy d) l l') :
    Agree (Failure.Below k) Eq (simplifyMembers src parent l) (simplifyMembers src' parent l') := by
  induction h with
  | nil => exact .ok rfl
  | cons head _ ih =>
    refine (simplifyMember_copy moved parent head).bind_eq fun p => ?_
    exact ih.bind_eq fun ps => .ok rfl

theorem simplifyObject_copy (parent : String) (h : Node.Copy d n m) :
    Agree (Failure.Below k) Eq (simplifyObject src parent n) (simplifyObject src' parent m) := by
  refine (placeless_descriptor _ k).bind_eq fun head => ?_
  exact (simplifyMembers_copy moved parent h.members).bind_eq fun members => .ok rfl

theorem simplifyFrom_copy (reuse : Bool) {l l' : List Node} (h : List.Forall₂ (Node.Copy d) l l') :
    ∀ count, Agree (Failure.Below k) Eq (simplifyFrom reuse src count l)
      (simplifyFrom reuse src' count l') := by
  induction h with
  | nil => exact fun _ => .ok rfl
  | @cons n m l l' head _ ih =>
    intro count
    rw [simplifyFrom, simplifyFrom, head.kind]
    split
    · refine (simplifyObject_copy moved _ head).bind_eq fun block => ?_
      exact (ih (count + 1)).bind_eq fun params => .ok rfl
    · refine (simplifyPlain_copy moved head).bind_eq fun p => ?_
      exact (ih count).bind_eq fun params => .ok rfl

theorem simplify_copy (reuse : Bool) {l l' : List Node} (h : List.Forall₂ (Node.Copy d) l l') :
    Agree (Failure.Below k) Eq (simplify reuse src l) (simplify reuse src' l') :=
  simplifyFrom_copy moved reuse h 1

/-! ## The whole -/

/-- The second signature is the first, for a function that was found `k` lines further down. -/
structure Signature.Below (k : Nat) (found : Location) (s t : Signature) : Prop where
  name : t.name = s.name
  params : t.params = s.params
  returns : t.returns = s.returns
  location : s.location = found.above
  location_down : t.location = (found.down k).above

theorem signature_copy (reuse : Bool) {f g : Located} (h : Located.Copy d k f g) :
    Agree (Failure.Below k) (Signature.Below k f.location)
      (f.signature reuse src) (g.signature reuse src') := by
  refine (simplify_copy moved reuse h.params).bind_eq fun params => ?_
  rw [h.name, h.location, Signature.make, Signature.make]
  split
  · exact .error rfl
  · exact .ok ⟨rfl, rfl, rfl, rfl, rfl⟩

theorem refusal?_copy (h : Node.Copy d n m) :
    refusal? src' m = (refusal? src n).map fun r => (r.1.down k, r.2) := by
  unfold refusal?
  rw [h.flagged]
  split
  · have hfault : Node.Copy d (n.fault?.getD n) (m.fault?.getD m) := h.fault?.getD h
    dsimp only
    rw [moved.node_location hfault, hfault.missing, hfault.kind]
    rfl
  · rfl

/-- A copy is described as its tree is : both descriptions fail, the one of the copy `k` lines
further down, or neither finds a function, or both give a signature, and the comment goes above the
line where the function is found, moved by `k`. -/
theorem outcome_copy (h : Node.Copy d n m) (reuse : Bool) (line : Int) :
    Agree (Failure.Below k)
      (Option.Rel fun s t => ∃ found, locate src n line = some found ∧
        Signature.Below k found.location s t)
      (describe reuse src n line).outcome (describe reuse src' m (line + k)).outcome := by
  unfold describe
  rw [refusal?_copy moved h]
  cases refusal? src n with
  | some refusal =>
    refine .error ?_
    rw [Failure.Below, Failure.down, unreadableAt_down]
  | none =>
    have hlocate := locate_copy moved line h
    generalize locate src n line = found, locate src' m (line + k) = found' at hlocate ⊢
    cases hlocate with
    | none => exact .ok .none
    | some hfound =>
      exact (signature_copy moved reuse hfound).map fun _ _ hs => .some ⟨_, rfl, hs⟩

end Copy

end DocSignature
