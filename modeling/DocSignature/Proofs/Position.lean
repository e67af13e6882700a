import DocSignature.Locate

/-!
# Positions in a tree

Two nodes of a tree may be equal and still be two nodes, so a node is told by its `Position` : the
indices of the children that lead to it from the root (`Node.nodeAt?`). `Node.visits` lists the
positions that a walk over named children comes by, outer before inner and earlier siblings before
later ones.

`Node.exporterAt?` is the export statement that a declaration belongs to : the innermost one around
the position, provided that the first child in its field `declaration` stands at that very position.
-/

namespace DocSignature

/-- The indices of the children that lead to a node, from the root on. -/
abbrev Position := List Nat

namespace Node

/-- What follows for a node from its children holds in the whole tree. -/
theorem induction {P : Node → Prop} (step : ∀ n : Node, (∀ c ∈ n.children, P c) → P n) (n : Node) :
    P n :=
  step n fun c _ => induction step c
termination_by sizeOf n
decreasing_by
  obtain ⟨_, _, _, _, _, _, _, children⟩ := n
  have := List.sizeOf_lt_of_mem ‹c ∈ children›
  simp only [Node.mk.sizeOf_spec]
  omega

/-- The node at a position. -/
def nodeAt? (n : Node) : Position → Option Node
  | [] => some n
  | i :: p => n.children[i]?.bind fun c => c.nodeAt? p

@[simp] theorem nodeAt?_nil (n : Node) : n.nodeAt? [] = some n := rfl

@[simp] theorem nodeAt?_cons (n : Node) (i : Nat) (p : Position) :
    n.nodeAt? (i :: p) = n.children[i]?.bind fun c => c.nodeAt? p := rfl

theorem nodeAt?_append (n : Node) (p q : Position) :
    n.nodeAt? (p ++ q) = (n.nodeAt? p).bind fun m => m.nodeAt? q := by
  induction p generalizing n with
  | nil => rfl
  | cons i p ih =>
    rw [List.cons_append, nodeAt?_cons, nodeAt?_cons]
    cases n.children[i]? with
    | none => rfl
    | some c => exact ih c

/-- A child of a node in the tree is in the tree. -/
theorem nodeAt?_of_mem_children {root n c : Node} {p : Position} (hn : root.nodeAt? p = some n)
    (hc : c ∈ n.children) : ∃ q, root.nodeAt? q = some c := by
  obtain ⟨i, hi⟩ := List.mem_iff_getElem?.mp hc
  exact ⟨p ++ [i], by simp [nodeAt?_append, hn, hi]⟩

/-! ## The order of a walk -/

mutual

/-- The positions of a tree in pre-order over named children. -/
def visits : Node → List Position
  | ⟨_, _, _, _, _, _, _, children⟩ => [] :: visitsFrom 0 children

/-- The positions in siblings, the first of which has index `i`. -/
def visitsFrom (i : Nat) : List Node → List Position
  | [] => []
  | c :: rest => (if c.named then c.visits.map (i :: ·) else []) ++ visitsFrom (i + 1) rest

end

theorem visits_eq (n : Node) : n.visits = [] :: visitsFrom 0 n.children := by
  obtain ⟨_, _, _, _, _, _, _, children⟩ := n
  rw [visits]

/-- A position among siblings leads through one of them that is named. -/
theorem mem_visitsFrom {p : Position} :
    ∀ {i : Nat} {l : List Node}, p ∈ visitsFrom i l ↔
      ∃ k c q, l[k]? = some c ∧ c.named ∧ q ∈ c.visits ∧ p = (i + k) :: q
  | i, [] => by simp [visitsFrom]
  | i, c :: rest => by
    rw [visitsFrom, List.mem_append, mem_visitsFrom]
    constructor
    · rintro (h | ⟨k, d, q, hk, hd, hq, rfl⟩)
      · split at h
        · next hc =>
          obtain ⟨q, hq, rfl⟩ := List.mem_map.mp h
          exact ⟨0, c, q, rfl, hc, hq, rfl⟩
        · simp at h
      · exact ⟨k + 1, d, q, by simpa using hk, hd, hq, by rw [Nat.add_right_comm, Nat.add_assoc]⟩
    · rintro ⟨k, d, q, hk, hd, hq, rfl⟩
      cases k with
      | zero =>
        obtain rfl : c = d := by simpa using hk
        exact Or.inl (by simpa [hd] using hq)
      | succ k =>
        exact Or.inr ⟨k, d, q, by simpa using hk, hd, hq, by rw [Nat.add_right_comm, Nat.add_assoc]⟩

theorem cons_mem_visits {n : Node} {i : Nat} {p : Position} :
    i :: p ∈ n.visits ↔ ∃ c, n.children[i]? = some c ∧ c.named ∧ p ∈ c.visits := by
  rw [visits_eq, List.mem_cons, mem_visitsFrom]
  constructor
  · rintro (h | ⟨k, c, q, hk, hc, hq, h⟩)
    · cases h
    · obtain ⟨rfl, rfl⟩ := List.cons.inj h
      exact ⟨c, by simpa using hk, hc, hq⟩
  · rintro ⟨c, hk, hc, hq⟩
    exact Or.inr ⟨i, c, p, hk, hc, hq, by rw [Nat.zero_add]⟩

/-! ## Export statements -/

/-- Whether the node is an export statement. -/
def isExport (n : Node) : Bool := n.kind == "export_statement"

/-- The innermost export statement around a position. A statement is not around itself. -/
def exportAround? (n : Node) : Position → Option Position
  | [] => none
  | i :: p =>
    match n.children[i]?.bind fun c => c.exportAround? p with
    | some e => some (i :: e)
    | none => if n.isExport then some [] else none

/-- The position of the first child that fills a field of the node at a position. -/
def fieldAt? (root : Node) (p : Position) (field : String) : Option Position :=
  (root.nodeAt? p).bind fun n => (n.children.findIdx? (·.field == some field)).map fun i => p ++ [i]

/-- The export statement whose payload stands at a position : the innermost one around it, if its
declaration is there. -/
def exporterAt? (root : Node) (p : Position) : Option Node :=
  (root.exportAround? p).bind fun e =>
    if root.fieldAt? e "declaration" = some p then root.nodeAt? e else none

theorem exporterAt?_nil (n : Node) : n.exporterAt? [] = none := rfl

theorem fieldAt?_nil (n : Node) (field : String) :
    n.fieldAt? [] field = (n.children.findIdx? (·.field == some field)).map fun i => [i] := rfl

/-- A field below a child is at the same position seen from the child. -/
theorem fieldAt?_cons {n c : Node} {i : Nat} (hc : n.children[i]? = some c) (e p : Position)
    (field : String) : n.fieldAt? (i :: e) field = some (i :: p) ↔ c.fieldAt? e field = some p := by
  simp [fieldAt?, hc, Option.bind_eq_some_iff]

/-- A child belongs to the export statement above it if it is the first declaration. -/
theorem exporterAt?_singleton {n c : Node} {i : Nat} (hc : n.children[i]? = some c) :
    n.exporterAt? [i] =
      if n.children.findIdx? (·.field == some "declaration") = some i then n.exporter?
      else none := by
  by_cases hn : n.isExport
  · have he : n.exportAround? [i] = some [] := by simp [exportAround?, hc, hn]
    have hk : n.exporter? = some n := by simpa [exporter?, isExport] using hn
    simp [exporterAt?, he, fieldAt?_nil, hk]
  · have he : n.exportAround? [i] = none := by simp [exportAround?, hc, hn]
    have hk : n.exporter? = none := by simpa [exporter?, isExport] using hn
    simp [exporterAt?, he, hk]

/-- No export statement further up takes over what is below a child. -/
theorem exporterAt?_cons_cons {n c : Node} {i : Nat} (hc : n.children[i]? = some c) (j : Nat)
    (p : Position) : n.exporterAt? (i :: j :: p) = c.exporterAt? (j :: p) := by
  unfold exporterAt?
  rw [exportAround?, hc, Option.bind_some]
  cases c.exportAround? (j :: p) with
  | some e =>
    simp only [Option.bind_some, nodeAt?_cons, hc, fieldAt?_cons hc]
  | none =>
    -- The only statement left is `n` itself, and its declaration is a child of `n`.
    have hne : n.fieldAt? [] "declaration" ≠ some (i :: j :: p) := by
      rw [fieldAt?_nil, ne_eq, Option.map_eq_some_iff]
      rintro ⟨k, -, hk⟩
      simp at hk
    by_cases hn : n.isExport <;> simp [hn, hne]

end Node

end DocSignature
