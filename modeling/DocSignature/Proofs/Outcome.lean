import DocSignature.Describe

/-!
# What comes of a description

The steps of a description are chained in `Except`. The lemmas here take such a chain apart : a
chain that gives a result has a result at each step (`bind_eq_ok_iff`), and `describe` gives a
signature exactly if the tree is not refused, a function is found, and that function has a
signature (`outcome_eq_ok_some_iff`). `Agree` sets two chains side by side, for what two runs have
in common; it is enough that they agree step by step (`Agree.bind`).
-/

namespace DocSignature

/-! ## Chains of steps -/

theorem bind_eq_ok_iff {ε α β : Type} {x : Except ε α} {f : α → Except ε β} {b : β} :
    (x >>= f) = .ok b ↔ ∃ a, x = .ok a ∧ f a = .ok b := by
  cases x with
  | error e => simp [bind, Except.bind]
  | ok a => simp [bind, Except.bind]

theorem map_eq_ok_iff {ε α β : Type} {x : Except ε α} {f : α → β} {b : β} :
    x.map f = .ok b ↔ ∃ a, x = .ok a ∧ f a = b := by
  cases x with
  | error e => simp [Except.map]
  | ok a => simp [Except.map]

theorem mapError_eq_ok_iff {ε ε' α : Type} {x : Except ε α} {f : ε → ε'} {a : α} :
    x.mapError f = .ok a ↔ x = .ok a := by
  cases x with
  | error e => exact ⟨nofun, nofun⟩
  | ok b =>
    constructor
    · intro h
      rw [Except.ok.inj h]
    · rintro ⟨rfl⟩
      rfl

theorem pure_eq_ok_iff {ε α : Type} {a b : α} : (pure a : Except ε α) = .ok b ↔ a = b := by
  simp [pure, Except.pure]

/-! ## Two chains side by side -/

/-- Two chains agree : both give results, which `R` relates, or both fail, in ways that `E`
relates. -/
inductive Agree {ε α β : Type} (E : ε → ε → Prop) (R : α → β → Prop) :
    Except ε α → Except ε β → Prop
  | ok {a : α} {b : β} (h : R a b) : Agree E R (.ok a) (.ok b)
  | error {e f : ε} (h : E e f) : Agree E R (.error e) (.error f)

namespace Agree

variable {ε α β γ δ : Type} {E : ε → ε → Prop} {R : α → β → Prop} {S : γ → δ → Prop}
  {x : Except ε α} {y : Except ε β}

/-- A chain agrees with itself, on whatever it gives. -/
theorem self (x : Except ε α) : Agree Eq (fun a b => b = a ∧ x = .ok a) x x := by
  cases x with
  | ok a => exact .ok ⟨rfl, rfl⟩
  | error e => exact .error rfl

theorem imp {R' : α → β → Prop} (h : Agree E R x y) (hR : ∀ a b, R a b → R' a b) :
    Agree E R' x y := by
  cases h with
  | ok h => exact .ok (hR _ _ h)
  | error h => exact .error h

theorem bind {f : α → Except ε γ} {g : β → Except ε δ} (h : Agree E R x y)
    (hfg : ∀ a b, R a b → Agree E S (f a) (g b)) : Agree E S (x >>= f) (y >>= g) := by
  cases h with
  | ok h => exact hfg _ _ h
  | error h => exact .error h

/-- A step with equal results is followed by the same step in both chains. -/
theorem bind_eq {x y : Except ε α} {f : α → Except ε γ} {g : α → Except ε δ} (h : Agree E Eq x y)
    (hfg : ∀ a, Agree E S (f a) (g a)) : Agree E S (x >>= f) (y >>= g) := by
  refine h.bind fun a b hab => ?_
  rw [← hab]
  exact hfg a

theorem map {f : α → γ} {g : β → δ} (h : Agree E R x y) (hfg : ∀ a b, R a b → S (f a) (g b)) :
    Agree E S (x.map f) (y.map g) := by
  cases h with
  | ok h => exact .ok (hfg _ _ h)
  | error h => exact .error h

end Agree

/-! ## Locations -/

/-- A location passes its own check. -/
theorem Location.ofInts_self (l : Location) : Location.ofInts l.line l.column = .ok l := by
  have := l.one_le_line
  rw [Location.ofInts, dif_neg (by omega), if_neg (by omega)]
  simp

/-- The insertion point of a location is the one above it. -/
theorem Location.insertionPoint_self (l : Location) :
    Location.insertionPoint l.line l.column = .ok l.above := by
  have hline : max ((l.line : Int) - 1) 1 = l.above.line := by
    simp only [Location.above]
    omega
  rw [Location.insertionPoint, hline]
  exact l.above.ofInts_self

/-! ## Descriptions -/

theorem Signature.make_eq_ok_iff {name : String} {location : Location} {params : List Parameter}
    {returns : Bool} {s : Signature} : Signature.make name location params returns = .ok s ↔
      s.name = name ∧ s.location = location ∧ s.params = params ∧ s.returns = returns := by
  unfold Signature.make
  split
  · next h =>
    constructor
    · intro hs
      cases hs
    · intro hs
      exact absurd (hs.1.trans h) s.name_ne
  · obtain ⟨_, _, _, _, _⟩ := s
    simp [eq_comm]

theorem Parameter.make_eq_ok_iff {name : String} {parent : Option String}
    {type : Option ParameterType} {default : Option Default} {p : Parameter} :
    Parameter.make name parent type default = .ok p ↔
      p.name = name ∧ p.parent = parent ∧ p.type = type ∧ p.default = default := by
  unfold Parameter.make
  split
  · next h =>
    constructor
    · intro hp
      cases hp
    · intro hp
      exact absurd (hp.1.trans h) p.name_ne
  · obtain ⟨_, _, _, _, _⟩ := p
    simp [eq_comm]

theorem unknown_ne_ok {α : Type} {kind : String} {a : α} : unknown kind ≠ .ok a := by
  simp [unknown]

theorem namedBy_eq_ok_iff {src : Source} {n : Node} {type : Option ParameterType}
    {default : Option Default} {p : Parameter} : namedBy src n type default = .ok p ↔
      p.name = n.text src ∧ p.parent = none ∧ p.type = type ∧ p.default = default := by
  rw [namedBy, mapError_eq_ok_iff, Parameter.make_eq_ok_iff]

/-- The signature of a function keeps its name, and its comment goes above it. -/
theorem Located.signature_eq_ok_iff {reuse : Bool} {src : Source} {found : Located}
    {s : Signature} : found.signature reuse src = .ok s ↔
      s.name = found.name ∧ s.location = found.location.above ∧
        simplify reuse src found.params = .ok s.params ∧ s.returns = false := by
  rw [Located.signature, bind_eq_ok_iff]
  constructor
  · rintro ⟨params, hparams, h⟩
    obtain ⟨hname, hlocation, rfl, hreturns⟩ :=
      Signature.make_eq_ok_iff.mp (mapError_eq_ok_iff.mp h)
    exact ⟨hname, hlocation, hparams, hreturns⟩
  · rintro ⟨hname, hlocation, hparams, hreturns⟩
    refine ⟨s.params, hparams, mapError_eq_ok_iff.mpr ?_⟩
    exact Signature.make_eq_ok_iff.mpr ⟨hname, hlocation, rfl, hreturns⟩

theorem outcome_of_found {reuse : Bool} {src : Source} {root : Node} {line : Int}
    {found : Located} (hr : refusal? src root = none) (hf : locate src root line = some found) :
    (describe reuse src root line).outcome = (found.signature reuse src).map some := by
  simp [describe, hr, hf]

/-- A signature comes of a description if the tree is not refused, a function is found, and the
function has it. -/
theorem outcome_eq_ok_some_iff {reuse : Bool} {src : Source} {root : Node} {line : Int}
    {s : Signature} : (describe reuse src root line).outcome = .ok (some s) ↔
      refusal? src root = none ∧
        ∃ found, locate src root line = some found ∧ found.signature reuse src = .ok s := by
  cases hr : refusal? src root with
  | some refusal => simp [describe, hr]
  | none =>
    cases hf : locate src root line with
    | none => simp [describe, hr, hf]
    | some found => simp [outcome_of_found hr hf, map_eq_ok_iff]

end DocSignature
