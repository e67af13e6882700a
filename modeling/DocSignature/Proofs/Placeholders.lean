import DocSignature.Proofs.Totality
import Mathlib.Data.List.Forall2

/-!
# Names of placeholders

Whether placeholders are reused decides on nothing but their names. `Parameter.Alike` says what the
entries of two runs have in common, and `Renamed` what the lists of entries have, one of which was
made with the name reused : entry for entry the two are alike, and in the first every placeholder,
and every parent, has the one name. `Node.slots` tells from the nodes which entries are
placeholders.

The two runs are followed side by side, through the members of an object
(`simplifyMembers_renamed`), the objects (`simplifyObject_renamed`) and the whole list
(`simplifyFrom_renamed`). In the list the two runs may have counted differently, since no failure
depends on the number of a placeholder.
-/

namespace DocSignature

/-! ## Entries -/

/-- Whether the parameter stands for a destructured object. A name with an object for its default
keeps a value, so it is told apart. -/
def Parameter.isPlaceholder (p : Parameter) : Bool := p.type == some .object && p.default.isNone

/-- Which of the entries that a parameter gives are placeholders : the first one of an object. -/
def Node.slots (n : Node) : List Bool :=
  if n.kind == "object_pattern" then true :: n.members.map fun _ => false else [false]

/-- Two entries differ at most in the name of a placeholder, their own or that of their parent. -/
structure Parameter.Alike (p q : Parameter) : Prop where
  type : q.type = p.type
  default : q.default = p.default
  parent : q.parent.isSome = p.parent.isSome
  name : p.isPlaceholder = false → q.name = p.name

/-- Two lists of entries, the first made with the name of placeholders reused. `slots` tells which
entries are placeholders. -/
structure Renamed (slots : List Bool) (ps qs : List Parameter) : Prop where
  alike : List.Forall₂ Parameter.Alike ps qs
  placeholders : ps.map Parameter.isPlaceholder = slots
  name : ∀ p ∈ ps, p.isPlaceholder → p.name = "Unknown"
  parent : ∀ p ∈ ps, ∀ parent, p.parent = some parent → parent = "Unknown"

namespace Renamed

variable {slots slots' : List Bool} {ps qs ps' qs' : List Parameter}

theorem nil : Renamed [] [] [] :=
  ⟨.nil, rfl, by simp, by simp⟩

theorem append (h : Renamed slots ps qs) (h' : Renamed slots' ps' qs') :
    Renamed (slots ++ slots') (ps ++ ps') (qs ++ qs') where
  alike := List.rel_append h.alike h'.alike
  placeholders := by rw [List.map_append, h.placeholders, h'.placeholders]
  name := List.forall_mem_append.mpr ⟨h.name, h'.name⟩
  parent := List.forall_mem_append.mpr ⟨h.parent, h'.parent⟩

end Renamed

/-! ## The two runs -/

section Simplify

variable {src : Source}

theorem simplifyDefault_plain {n : Node} {p : Parameter} (h : simplifyDefault src n = .ok p) :
    p.parent = none ∧ p.isPlaceholder = false := by
  unfold simplifyDefault at h
  split at h
  · split at h
    · exact absurd h unknown_ne_ok
    · obtain ⟨value, -, h⟩ := bind_eq_ok_iff.mp h
      obtain ⟨typed, -, h⟩ := bind_eq_ok_iff.mp h
      obtain ⟨-, hparent, -, hdefault⟩ := namedBy_eq_ok_iff.mp h
      exact ⟨hparent, by simp [Parameter.isPlaceholder, hdefault]⟩
  · exact absurd h unknown_ne_ok

/-- A parameter that is not destructured has no parent and is no placeholder. -/
theorem simplifyPlain_plain {n : Node} {p : Parameter} (h : simplifyPlain src n = .ok p) :
    p.parent = none ∧ p.isPlaceholder = false := by
  unfold simplifyPlain at h
  split_ifs at h
  · obtain ⟨-, hparent, htype, -⟩ := namedBy_eq_ok_iff.mp h
    exact ⟨hparent, by simp [Parameter.isPlaceholder, htype]⟩
  · exact simplifyDefault_plain h
  · unfold simplifyRest at h
    split at h
    · exact absurd h unknown_ne_ok
    · split at h
      · obtain ⟨-, hparent, htype, -⟩ := namedBy_eq_ok_iff.mp h
        exact ⟨hparent, by simp [Parameter.isPlaceholder, htype]⟩
      · exact absurd h unknown_ne_ok
  · exact absurd h unknown_ne_ok

theorem Renamed.plain {p : Parameter} (h : p.parent = none ∧ p.isPlaceholder = false) :
    Renamed [false] [p] [p] where
  alike := .cons ⟨rfl, rfl, rfl, fun _ => rfl⟩ .nil
  placeholders := by rw [List.map_singleton, h.2]
  name := by simp [h.2]
  parent := by simp [h.1]

/-- What a member is, and whether it is one, does not depend on the name of its parent. -/
theorem simplifyMember_renamed (other : String) (n : Node) :
    Agree Eq (fun p q => Renamed [false] [p] [q]) (simplifyMember src "Unknown" n)
      (simplifyMember src other n) := by
  unfold simplifyMember
  dsimp only
  split
  · next value _ =>
    refine (Agree.self (simplifyPlain src value)).map fun p q ⟨hq, hp⟩ => ?_
    have hplain : (p.withParent "Unknown").isPlaceholder = false := (simplifyPlain_plain hp).2
    rw [hq]
    exact ⟨.cons ⟨rfl, rfl, rfl, fun _ => rfl⟩ .nil, by rw [List.map_singleton, hplain],
      by simp [hplain], by simp [Parameter.withParent]⟩
  · exact .error rfl

theorem simplifyMembers_renamed (other : String) (l : List Node) :
    Agree Eq (Renamed (l.map fun _ => false)) (simplifyMembers src "Unknown" l)
      (simplifyMembers src other l) := by
  induction l with
  | nil => exact .ok .nil
  | cons n rest ih =>
    refine (simplifyMember_renamed other n).bind fun p q hpq => ?_
    exact ih.bind fun ps qs hpsqs => .ok (hpq.append hpsqs)

theorem simplifyObject_renamed {other : String} (hother : other ≠ "") {n : Node}
    (hn : n.kind = "object_pattern") :
    Agree Eq (Renamed n.slots) (simplifyObject src "Unknown" n) (simplifyObject src other n) := by
  have hslots : n.slots = [true] ++ n.members.map fun _ => false := by simp [Node.slots, hn]
  rw [hslots, simplifyObject, simplifyObject, Parameter.make, Parameter.make, dif_neg hother,
    dif_neg (by decide)]
  refine (simplifyMembers_renamed other n.members).bind fun ps qs hpsqs => ?_
  have hhead : Renamed [true]
      [{ name := "Unknown", parent := none, type := some .object, default := none,
         name_ne := by decide }]
      [{ name := other, parent := none, type := some .object, default := none,
         name_ne := hother }] :=
    ⟨.cons ⟨rfl, rfl, rfl, by simp [Parameter.isPlaceholder]⟩ .nil, rfl, by simp, by simp⟩
  exact .ok (hhead.append hpsqs)

/-- The run that numbers its placeholders may be at any number. -/
theorem simplifyFrom_renamed (l : List Node) : ∀ j k : ℕ,
    Agree Eq (Renamed (l.flatMap Node.slots)) (simplifyFrom true src j l)
      (simplifyFrom false src k l) := by
  induction l with
  | nil => exact fun _ _ => .ok .nil
  | cons n rest ih =>
    intro j k
    have hreused : placeholder true j = "Unknown" := rfl
    rw [simplifyFrom, simplifyFrom, hreused, List.flatMap_cons]
    split
    · next hn =>
      refine (simplifyObject_renamed (placeholder_ne false k) (by simpa using hn)).bind
        fun ps qs hpsqs => ?_
      exact (ih (j + 1) (k + 1)).bind fun ps' qs' h => .ok (hpsqs.append h)
    · next hn =>
      have hslots : n.slots = [false] := by simp only [Node.slots, if_neg hn]
      rw [hslots]
      refine (Agree.self (simplifyPlain src n)).bind fun p q hself => ?_
      obtain ⟨rfl, hp⟩ := hself
      exact (ih j k).bind fun ps' qs' h => .ok ((Renamed.plain (simplifyPlain_plain hp)).append h)

theorem signature_renamed (found : Located) :
    Agree Eq (fun s t => t.name = s.name ∧ t.location = s.location ∧ t.returns = s.returns ∧
        Renamed (found.params.flatMap Node.slots) s.params t.params)
      (found.signature true src) (found.signature false src) := by
  refine (simplifyFrom_renamed found.params 1 1).bind fun ps qs hpsqs => ?_
  rw [Signature.make, Signature.make]
  split
  · exact .error rfl
  · exact .ok ⟨rfl, rfl, rfl, hpsqs⟩

end Simplify

/-- Reusing the name of placeholders changes no more than their names. A description with it and one
without it fail in the same way, or find no function both, or give two signatures with the same name
and location. Entry for entry, these have the same types and defaults, the same entries have a
parent, and the names differ only where they are placeholders : those that stand for destructured
objects. With the name reused, all placeholders and all parents have it. -/
theorem reuse_renames_placeholders (src : Source) (root : Node) (line : Int) :
    Agree Eq
      (Option.Rel fun s t => t.name = s.name ∧ t.location = s.location ∧ t.returns = s.returns ∧
        ∃ found, locate src root line = some found ∧
          Renamed (found.params.flatMap Node.slots) s.params t.params)
      (describe true src root line).outcome (describe false src root line).outcome := by
  unfold describe
  split
  · exact .error rfl
  · split
    · exact .ok .none
    · next found hfound =>
      refine (signature_renamed found).map fun s t ⟨hname, hlocation, hreturns, hrenamed⟩ => ?_
      exact .some ⟨hname, hlocation, hreturns, found, hfound, hrenamed⟩

end DocSignature
