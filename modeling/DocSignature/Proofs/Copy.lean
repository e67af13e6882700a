import DocSignature.Proofs.LastFunction
import DocSignature.Proofs.Outcome
import Mathlib.Data.List.Forall2

/-!
# Copies of a tree

`Node.Copy d n m` says that the tree `m` is the tree `n` moved by `d` octets, and that some loose
comments of `n` may be left out of `m`. A comment is loose (`Node.IsLoose`) if it fills no field,
holds no node and is not at fault. Inside a string literal, where every named child is a part of the
value, nothing is left out.

A copy looks the same through each of the ways in which a tree is read : its fields
(`Node.Copy.child?`), its members (`Node.Copy.members`), the parts of its string literals
(`Node.Copy.parts`), its first fault (`Node.Copy.fault?`), and the function that it declares
(`Node.Copy.function?`). So a walk over it finds the same function (`locate_copy`), wherever the
source has moved to (`Source.Moved`).
-/

namespace Option.Rel

variable {α β γ δ : Type} {R : α → β → Prop} {S : γ → δ → Prop} {x : Option α} {y : Option β}

theorem imp {R' : α → β → Prop} (h : Rel R x y) (hR : ∀ a b, R a b → R' a b) : Rel R' x y := by
  cases h with
  | some h => exact .some (hR _ _ h)
  | none => exact .none

theorem bind {f : α → Option γ} {g : β → Option δ} (h : Rel R x y)
    (hfg : ∀ a b, R a b → Rel S (f a) (g b)) : Rel S (x.bind f) (y.bind g) := by
  cases h with
  | some h => exact hfg _ _ h
  | none => exact .none

theorem map {f : α → γ} {g : β → δ} (h : Rel R x y) (hfg : ∀ a b, R a b → S (f a) (g b)) :
    Rel S (x.map f) (y.map g) := by
  cases h with
  | some h => exact .some (hfg _ _ h)
  | none => exact .none

theorem or {x' : Option α} {y' : Option β} (h : Rel R x y) (h' : Rel R x' y') :
    Rel R (x.or x') (y.or y') := by
  cases h with
  | some h => exact .some h
  | none => exact h'

theorem getD {a : α} {b : β} (h : Rel R x y) (hab : R a b) : R (x.getD a) (y.getD b) := by
  cases h with
  | some h => exact h
  | none => exact hab

end Option.Rel

namespace DocSignature

namespace Node

/-! ## Copies -/

/-- A comment that the rest of a tree does not depend on. -/
structure IsLoose (n : Node) : Prop where
  kind : n.kind = "comment"
  field : n.field = none
  children : n.children = []
  missing : n.missing = false
  flagged : n.flagged = false

/-- The nodes of the second list are related to those of the first in order, and loose comments of
the first may be left out unless the list is to stay `whole`. -/
inductive Thinned (R : Node → Node → Prop) : (whole : Bool) → List Node → List Node → Prop
  | nil {whole : Bool} : Thinned R whole [] []
  | keep {whole : Bool} {c c' : Node} {l l' : List Node} (head : R c c')
      (tail : Thinned R whole l l') : Thinned R whole (c :: l) (c' :: l')
  | leave {c : Node} {l l' : List Node} (loose : c.IsLoose) (tail : Thinned R false l l') :
      Thinned R false (c :: l) l'

/-- Whether the node is a string literal. -/
def isString (n : Node) : Bool := n.kind == "string"

/-- The second tree is the first, moved by `d` octets, perhaps without some loose comments. -/
inductive Copy (d : Nat) : Node → Node → Prop
  | mk (n : Node) {children : List Node}
      (h : Thinned (Copy d) n.isString n.children children) :
      Copy d n { n with start := n.start + d, stop := n.stop + d, children := children }

namespace Thinned

variable {R S : Node → Node → Prop} {whole : Bool} {l l' : List Node}

theorem imp (h : Thinned R whole l l') (hRS : ∀ c ∈ l, ∀ c', R c c' → S c c') :
    Thinned S whole l l' := by
  induction h with
  | nil => exact .nil
  | keep head _ ih =>
    exact .keep (hRS _ List.mem_cons_self _ head) (ih fun c hc => hRS c (List.mem_cons_of_mem _ hc))
  | leave loose _ ih => exact .leave loose (ih fun c hc => hRS c (List.mem_cons_of_mem _ hc))

theorem of_forall₂ (h : List.Forall₂ R l l') : Thinned R whole l l' := by
  induction h with
  | nil => exact .nil
  | cons head _ ih => exact .keep head ih

/-- Where nothing is left out the lists are related one by one. -/
theorem forall₂ (h : Thinned R whole l l') (hwhole : whole = true) : List.Forall₂ R l l' := by
  induction h with
  | nil => exact .nil
  | keep head _ ih => exact .cons head (ih hwhole)
  | leave loose tail _ => exact absurd hwhole Bool.false_ne_true

/-- The nodes with a property that no loose comment has are related one by one. -/
theorem filter {p : Node → Bool} (h : Thinned R whole l l') (hp : ∀ c c', R c c' → p c' = p c)
    (hloose : ∀ c, c.IsLoose → p c = false) : List.Forall₂ R (l.filter p) (l'.filter p) := by
  induction h with
  | nil => exact .nil
  | @keep _ c c' _ _ head _ ih =>
    by_cases hc : p c
    · rw [List.filter_cons_of_pos hc, List.filter_cons_of_pos ((hp c c' head).trans hc)]
      exact .cons head ih
    · rw [List.filter_cons_of_neg hc, List.filter_cons_of_neg (by rwa [hp c c' head])]
      exact ih
  | @leave c _ _ loose _ ih =>
    rwa [List.filter_cons_of_neg (by simp [hloose c loose])]

/-- So are the first nodes with such a property. -/
theorem find? {p : Node → Bool} (h : Thinned R whole l l') (hp : ∀ c c', R c c' → p c' = p c)
    (hloose : ∀ c, c.IsLoose → p c = false) : Option.Rel R (l.find? p) (l'.find? p) := by
  have hfilter := h.filter hp hloose
  rw [← List.head?_filter, ← List.head?_filter]
  generalize l.filter p = kept at hfilter ⊢
  generalize l'.filter p = kept' at hfilter ⊢
  cases hfilter with
  | nil => exact .none
  | cons head _ => exact .some head

end Thinned

namespace Copy

variable {d : Nat} {n m : Node}

theorem kind (h : Copy d n m) : m.kind = n.kind := by
  cases h
  rfl

theorem start (h : Copy d n m) : m.start = n.start + d := by
  cases h
  rfl

theorem stop (h : Copy d n m) : m.stop = n.stop + d := by
  cases h
  rfl

theorem field (h : Copy d n m) : m.field = n.field := by
  cases h
  rfl

theorem named (h : Copy d n m) : m.named = n.named := by
  cases h
  rfl

theorem missing (h : Copy d n m) : m.missing = n.missing := by
  cases h
  rfl

theorem flagged (h : Copy d n m) : m.flagged = n.flagged := by
  cases h
  rfl

theorem children (h : Copy d n m) : Thinned (Copy d) n.isString n.children m.children := by
  cases h with
  | mk _ h => exact h

/-- A tree is a copy of itself. -/
theorem refl (n : Node) : Copy 0 n n := by
  induction n using Node.induction with
  | step n ih =>
    obtain ⟨_, _, _, _, _, _, _, children⟩ := n
    exact .mk _ (.of_forall₂ (List.forall₂_same.mpr ih))

/-! ## Fields and members -/

theorem child? (h : Copy d n m) (field : String) :
    Option.Rel (Copy d) (n.child? field) (m.child? field) :=
  h.children.find? (fun c c' hc => by rw [hc.field]) fun c loose => by simp [loose.field]

theorem members (h : Copy d n m) : List.Forall₂ (Copy d) n.members m.members := by
  unfold Node.members namedChildren
  rw [List.filter_filter, List.filter_filter]
  exact h.children.filter (fun c c' hc => by rw [hc.kind, hc.named])
    fun c loose => by simp [loose.kind]

/-- The first declarator of a copy is that of the tree, whatever comments stand around it. -/
theorem declarator? (h : Copy d n m) :
    Option.Rel (Copy d) (n.namedChildren.find? (·.kind == "variable_declarator"))
      (m.namedChildren.find? (·.kind == "variable_declarator")) := by
  unfold namedChildren
  rw [List.find?_filter, List.find?_filter]
  exact h.children.find? (fun c c' hc => by rw [hc.kind, hc.named])
    fun c loose => by simp [loose.kind]

/-- The parts of a string literal are all there. -/
theorem parts (h : Copy d n m) (hstring : n.kind = "string") :
    List.Forall₂ (Copy d) n.namedChildren m.namedChildren := by
  have hwhole : n.isString = true := by simp [isString, hstring]
  refine List.rel_filter (fun c c' hc => ?_) (h.children.forall₂ hwhole)
  simp only [hc.named]

end Copy

/-! ## Faults -/

theorem fault?_unfold (n : Node) :
    n.fault? = if n.isFault then some n else faultAmong? n.children := by
  obtain ⟨_, _, _, _, _, _, _, children⟩ := n
  rw [fault?]

theorem faultAmong?_cons (n : Node) (rest : List Node) : faultAmong? (n :: rest) =
    if n.flagged || n.missing then n.fault?.or (faultAmong? rest) else faultAmong? rest := by
  rw [faultAmong?]
  cases n.fault? <;> rfl

/-- A loose comment is passed over in the search for a fault. -/
theorem Thinned.faultAmong? {d : Nat} {whole : Bool} {l l' : List Node}
    (h : Thinned (fun c c' => Copy d c c' ∧ Option.Rel (Copy d) c.fault? c'.fault?) whole l l') :
    Option.Rel (Copy d) (Node.faultAmong? l) (Node.faultAmong? l') := by
  induction h with
  | nil => exact .none
  | keep head _ ih =>
    rw [faultAmong?_cons, faultAmong?_cons, head.1.flagged, head.1.missing]
    split
    · exact head.2.or ih
    · exact ih
  | leave loose _ ih =>
    rw [faultAmong?_cons, loose.flagged, loose.missing]
    exact ih

theorem Copy.fault? {d : Nat} {n m : Node} (h : Copy d n m) :
    Option.Rel (Copy d) n.fault? m.fault? := by
  induction n using Node.induction generalizing m with
  | step n ih =>
    have hfault : m.isFault = n.isFault := by rw [isFault, isFault, h.kind, h.missing]
    rw [fault?_unfold, fault?_unfold, hfault]
    split
    · exact .some h
    · exact (h.children.imp fun c hc c' hcc' => ⟨hcc', ih c hc hcc'⟩).faultAmong?

/-! ## Functions -/

/-- The nodes of two functions, each a copy of the other's. -/
abbrev CopyPair (d : Nat) (a b : Node × Node) : Prop := Copy d a.1 b.1 ∧ Copy d a.2 b.2

namespace Copy

variable {d : Nat} {n m : Node}

theorem isFunctionExpression (h : Copy d n m) :
    m.isFunctionExpression = n.isFunctionExpression := by
  rw [Node.isFunctionExpression, Node.isFunctionExpression, h.kind]

theorem declared? (h : Copy d n m) : Option.Rel (CopyPair d) n.declared? m.declared? :=
  (h.child? "name").map fun _ _ hname => ⟨hname, h⟩

theorem bound? (h : Copy d n m) : Option.Rel (CopyPair d) n.bound? m.bound? := by
  refine h.declarator?.bind fun _ _ hdeclarator => ?_
  refine (hdeclarator.child? "name").bind fun _ _ hname => ?_
  refine (hdeclarator.child? "value").bind fun _ _ hvalue => ?_
  rw [hname.kind, hvalue.isFunctionExpression]
  split
  · exact .some ⟨hname, hvalue⟩
  · exact .none

theorem assigned? (h : Copy d n m) : Option.Rel (CopyPair d) n.assigned? m.assigned? := by
  refine (h.child? "left").bind fun _ _ hleft => ?_
  refine (h.child? "right").bind fun _ _ hright => ?_
  refine (hleft.child? "property").bind fun _ _ hname => ?_
  rw [hleft.kind, hright.isFunctionExpression]
  split
  · exact .some ⟨hname, hright⟩
  · exact .none

theorem function? (h : Copy d n m) : Option.Rel (CopyPair d) n.function? m.function? := by
  unfold Node.function? isFunctionDeclaration isVariableDeclaration isAssignment
  rw [h.kind]
  split
  · exact h.declared?
  · split
    · exact h.bound?
    · split
      · exact h.assigned?
      · exact .none

theorem parameters (h : Copy d n m) : List.Forall₂ (Copy d) n.parameters m.parameters := by
  have hlist := h.child? "parameters"
  unfold Node.parameters
  generalize n.child? "parameters" = list at hlist ⊢
  generalize m.child? "parameters" = list' at hlist ⊢
  cases hlist with
  | some hlist => exact hlist.members
  | none => exact .nil

theorem exporter? (h : Copy d n m) : Option.Rel (Copy d) n.exporter? m.exporter? := by
  unfold Node.exporter?
  rw [h.kind]
  split
  · exact .some h
  · exact .none

end Copy

end Node

/-! ## Sources -/

/-- The location some lines further down. -/
def Location.down (l : Location) (k : Nat) : Location where
  line := l.line + k
  column := l.column
  one_le_line := Nat.le_add_right_of_le l.one_le_line

/-- The second source shows the first one `d` octets further on, and `k` lines further down. -/
structure Source.Moved (d k : Nat) (src src' : Source) : Prop where
  text : ∀ start stop, src'.text (start + d) (stop + d) = src.text start stop
  location : ∀ offset, src'.location (offset + d) = (src.location offset).down k

namespace Source.Moved

variable {d k : Nat} {src src' : Source} {n m : Node}

theorem refl (src : Source) : Moved 0 0 src src where
  text _ _ := rfl
  location _ := rfl

theorem row (h : Moved d k src src') (offset : Nat) :
    src'.row (offset + d) = src.row offset + k := by
  have hline := congrArg Location.line (h.location offset)
  simp only [Source.location, Location.down] at hline
  omega

theorem node_text (h : Moved d k src src') (hm : Node.Copy d n m) :
    m.text src' = n.text src := by
  rw [Node.text, Node.text, hm.start, hm.stop, h.text]

theorem node_location (h : Moved d k src src') (hm : Node.Copy d n m) :
    m.location src' = (n.location src).down k := by
  rw [Node.location, Node.location, hm.start, h.location]

theorem startsNear (h : Moved d k src src') (hm : Node.Copy d n m) (line : Int) :
    m.startsNear src' (line + k) = n.startsNear src line := by
  have hiff : m.startsNear src' (line + k) ↔ n.startsNear src line := by
    rw [Node.startsNear_iff, Node.startsNear_iff, hm.start, h.row]
    omega
  exact Bool.eq_iff_iff.mpr hiff

end Source.Moved

/-! ## The walk over a copy -/

/-- The same function, found `k` lines further down in a copy of its tree. -/
structure Located.Copy (d k : Nat) (f g : Located) : Prop where
  name : g.name = f.name
  location : g.location = f.location.down k
  params : List.Forall₂ (Node.Copy d) f.params g.params

section Walk

variable {d k : Nat} {src src' : Source}

theorem located?_copy (moved : Source.Moved d k src src') (line : Int) {n m : Node}
    {exporter exporter' : Option Node} (h : Node.Copy d n m)
    (hexporter : Option.Rel (Node.Copy d) exporter exporter') :
    Option.Rel (Located.Copy d k) (n.located? src line exporter)
      (m.located? src' (line + k) exporter') := by
  have hfunction := h.function?
  unfold Node.located?
  generalize n.function? = function at hfunction ⊢
  generalize m.function? = function' at hfunction ⊢
  cases hfunction with
  | none => exact .none
  | some hpair =>
    dsimp only
    rw [moved.startsNear h, Node.isAssignment, Node.isAssignment, h.kind]
    split
    · have hwhole : Node.Copy d (if n.kind == "assignment_expression" then n else exporter.getD n)
          (if n.kind == "assignment_expression" then m else exporter'.getD m) := by
        split
        · exact h
        · exact hexporter.getD h
      exact .some ⟨moved.node_text hpair.1, moved.node_location hwhole, hpair.2.parameters⟩
    · exact .none

/-- A walk comes by a loose comment without a match. -/
theorem latest_of_isLoose (line : Int) (exporter : Option Node) (best : Option Located) {c : Node}
    (loose : c.IsLoose) : c.latest src line exporter best = best := by
  have hfunction : c.function? = none := by
    simp [Node.function?, Node.isFunctionDeclaration, Node.isVariableDeclaration,
      Node.isAssignment, loose.kind]
  rw [Node.latest_unfold, loose.children, Node.latestAmong, Node.located?, hfunction]
  rfl

/-- Two walks that find copies whenever the export statements and the best matches that they are
handed are copies. -/
def WalkAlike (d k : Nat) (walk walk' : Option Node → Option Located → Option Located) : Prop :=
  ∀ {exporter exporter' : Option Node} {best best' : Option Located},
    Option.Rel (Node.Copy d) exporter exporter' → Option.Rel (Located.Copy d k) best best' →
      Option.Rel (Located.Copy d k) (walk exporter best) (walk' exporter' best')

/-- Walks over siblings and over their copies are alike, if those over each sibling and its copy
are. A loose comment between them neither matches nor uses up the export statement. -/
theorem latestAmong_copy (line : Int) {whole : Bool} {l l' : List Node}
    (h : Node.Thinned (fun c c' => Node.Copy d c c' ∧
      WalkAlike d k (fun exporter best => c.latest src line exporter best)
        (fun exporter best => c'.latest src' (line + k) exporter best)) whole l l') :
    WalkAlike d k (fun exporter best => Node.latestAmong src line exporter best l)
      (fun exporter best => Node.latestAmong src' (line + k) exporter best l') := by
  induction h with
  | nil =>
    intro _ _ _ _ _ hbest
    simp only [Node.latestAmong]
    exact hbest
  | @keep _ c c' l l' head _ ih =>
    intro exporter exporter' best best' hexporter hbest
    simp only [Node.latestAmong, head.1.field, head.1.named]
    refine ih ?_ ?_
    · split
      · exact .none
      · exact hexporter
    · split
      · refine head.2 ?_ hbest
        split
        · exact hexporter
        · exact .none
      · exact hbest
  | @leave c l l' loose _ ih =>
    intro exporter exporter' best best' hexporter hbest
    simp only [Node.latestAmong, latest_of_isLoose line _ _ loose, ite_self, loose.field]
    exact ih hexporter hbest

theorem latest_copy (moved : Source.Moved d k src src') (line : Int) {n m : Node}
    (h : Node.Copy d n m) :
    WalkAlike d k (fun exporter best => n.latest src line exporter best)
      (fun exporter best => m.latest src' (line + k) exporter best) := by
  induction n using Node.induction generalizing m with
  | step n ih =>
    intro exporter exporter' best best' hexporter hbest
    simp only [Node.latest_unfold]
    exact latestAmong_copy line (h.children.imp fun c hc c' hcc' => ⟨hcc', ih c hc hcc'⟩)
      h.exporter? ((located?_copy moved line h hexporter).or hbest)

/-- What is found in a copy is a copy of what is found in the tree. -/
theorem locate_copy (moved : Source.Moved d k src src') (line : Int) {n m : Node}
    (h : Node.Copy d n m) :
    Option.Rel (Located.Copy d k) (locate src n line) (locate src' m (line + k)) :=
  latest_copy moved line h .none .none

end Walk

end DocSignature
