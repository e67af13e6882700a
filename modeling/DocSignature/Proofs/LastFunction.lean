import DocSignature.Proofs.Position
import Mathlib.Data.List.Basic
import Mathlib.Tactic.SplitIfs

/-!
# The last function near a line

`locate` hands one best match from node to node, and an export statement down to its children. What
comes of it is said here without either : `Node.Declares` tells which nodes declare a function,
`FunctionAt` what stands at a position of a tree, and `IsLast` which of the functions on some lines
a walk in pre-order comes by last. `locate` gives the last function on the line or on the line below
(`locate_iff_isLast`), and none if there is none (`locate_eq_none_iff`).

`foundAt?` is the step from the one to the other : the match that a single position gives, with the
export statement it belongs to read off the tree.
-/

namespace DocSignature

namespace Node

/-! ## What declares a function -/

/-- A node declares a function : `name` is the node of its name, and `value` the one that has its
parameters. -/
inductive Declares : (n name value : Node) → Prop
  /-- A function declaration with a name. -/
  | declaration {n name : Node}
      (kind : n.kind = "function_declaration" ∨ n.kind = "generator_function_declaration")
      (hname : n.child? "name" = some name) : Declares n name n
  /-- A variable declaration whose first declarator binds a name to a function expression. -/
  | binding {n declarator name value : Node}
      (kind : n.kind = "lexical_declaration" ∨ n.kind = "variable_declaration")
      (hfirst : n.namedChildren.find? (·.kind == "variable_declarator") = some declarator)
      (hname : declarator.child? "name" = some name) (plain : name.kind = "identifier")
      (hvalue : declarator.child? "value" = some value)
      (function : value.kind ∈ ["function_expression", "function", "generator_function"]) :
      Declares n name value
  /-- An assignment of a function expression to a member. -/
  | assignment {n left name value : Node} (kind : n.kind = "assignment_expression")
      (hleft : n.child? "left" = some left) (member : left.kind = "member_expression")
      (hname : left.child? "property" = some name) (hvalue : n.child? "right" = some value)
      (function : value.kind ∈ ["function_expression", "function", "generator_function"]) :
      Declares n name value

theorem isFunctionDeclaration_iff (n : Node) : n.isFunctionDeclaration ↔
    n.kind = "function_declaration" ∨ n.kind = "generator_function_declaration" := by
  simp [isFunctionDeclaration]

theorem isVariableDeclaration_iff (n : Node) : n.isVariableDeclaration ↔
    n.kind = "lexical_declaration" ∨ n.kind = "variable_declaration" := by
  simp [isVariableDeclaration]

theorem isFunctionExpression_iff (n : Node) : n.isFunctionExpression ↔
    n.kind ∈ ["function_expression", "function", "generator_function"] := by
  simp [isFunctionExpression]

theorem isAssignment_iff (n : Node) : n.isAssignment ↔ n.kind = "assignment_expression" := by
  simp [isAssignment]

theorem bound?_eq_some_iff {n name value : Node} : n.bound? = some (name, value) ↔
    ∃ d, n.namedChildren.find? (·.kind == "variable_declarator") = some d ∧
      d.child? "name" = some name ∧ name.kind = "identifier" ∧ d.child? "value" = some value ∧
      value.isFunctionExpression := by
  simp only [bound?, Option.bind_eq_bind, Option.bind_eq_some_iff, Option.ite_none_right_eq_some,
    Option.some.injEq, Prod.mk.injEq, Bool.and_eq_true, beq_iff_eq]
  constructor
  · rintro ⟨d, hd, a, ha, b, hb, ⟨hk, hf⟩, rfl, rfl⟩
    exact ⟨d, hd, ha, hk, hb, hf⟩
  · rintro ⟨d, hd, ha, hk, hb, hf⟩
    exact ⟨d, hd, name, ha, value, hb, ⟨hk, hf⟩, rfl, rfl⟩

theorem assigned?_eq_some_iff {n name value : Node} : n.assigned? = some (name, value) ↔
    ∃ l, n.child? "left" = some l ∧ l.kind = "member_expression" ∧
      l.child? "property" = some name ∧ n.child? "right" = some value ∧
      value.isFunctionExpression := by
  simp only [assigned?, Option.bind_eq_bind, Option.bind_eq_some_iff,
    Option.ite_none_right_eq_some, Option.some.injEq, Prod.mk.injEq, Bool.and_eq_true, beq_iff_eq]
  constructor
  · rintro ⟨l, hl, b, hb, a, ha, ⟨hk, hf⟩, rfl, rfl⟩
    exact ⟨l, hl, hk, ha, hb, hf⟩
  · rintro ⟨l, hl, hk, ha, hb, hf⟩
    exact ⟨l, hl, value, hb, name, ha, ⟨hk, hf⟩, rfl, rfl⟩

theorem declares_of_function? {n name value : Node} (h : n.function? = some (name, value)) :
    n.Declares name value := by
  unfold function? at h
  split_ifs at h with hd hv ha
  · obtain ⟨m, hm, heq⟩ := Option.map_eq_some_iff.mp h
    obtain ⟨rfl, rfl⟩ := Prod.mk.inj heq
    exact .declaration (n.isFunctionDeclaration_iff.mp hd) hm
  · obtain ⟨d, hd, hname, hk, hvalue, hf⟩ := bound?_eq_some_iff.mp h
    exact .binding (n.isVariableDeclaration_iff.mp hv) hd hname hk hvalue
      (value.isFunctionExpression_iff.mp hf)
  · obtain ⟨l, hl, hk, hname, hvalue, hf⟩ := assigned?_eq_some_iff.mp h
    exact .assignment (n.isAssignment_iff.mp ha) hl hk hname hvalue
      (value.isFunctionExpression_iff.mp hf)

theorem function?_of_declares {n name value : Node} (h : n.Declares name value) :
    n.function? = some (name, value) := by
  cases h with
  | declaration kind hname =>
    rw [function?, if_pos (n.isFunctionDeclaration_iff.mpr kind), declared?, hname]
    rfl
  | binding kind hfirst hname plain hvalue function =>
    have hd : ¬n.isFunctionDeclaration := by
      rcases kind with kind | kind <;> simp [isFunctionDeclaration, kind]
    rw [function?, if_neg hd, if_pos (n.isVariableDeclaration_iff.mpr kind)]
    exact bound?_eq_some_iff.mpr ⟨_, hfirst, hname, plain, hvalue,
      value.isFunctionExpression_iff.mpr function⟩
  | assignment kind hleft member hname hvalue function =>
    have hd : ¬n.isFunctionDeclaration := by simp [isFunctionDeclaration, kind]
    have hv : ¬n.isVariableDeclaration := by simp [isVariableDeclaration, kind]
    rw [function?, if_neg hd, if_neg hv, if_pos (n.isAssignment_iff.mpr kind)]
    exact assigned?_eq_some_iff.mpr ⟨_, hleft, member, hname, hvalue,
      value.isFunctionExpression_iff.mpr function⟩

theorem function?_eq_some_iff {n name value : Node} :
    n.function? = some (name, value) ↔ n.Declares name value :=
  ⟨declares_of_function?, function?_of_declares⟩

/-! ## The walk -/

/-- The match at a position of a tree. `exporter` is the export statement whose payload is the tree
itself. -/
def foundAt? (src : Source) (line : Int) (exporter : Option Node) (n : Node) (p : Position) :
    Option Located :=
  (n.nodeAt? p).bind (located? src line (if p = [] then exporter else n.exporterAt? p))

theorem foundAt?_nil (src : Source) (line : Int) (exporter : Option Node) (n : Node) :
    n.foundAt? src line exporter [] = n.located? src line exporter := rfl

/-- Below the root it does not matter what the tree itself belongs to. -/
theorem foundAt?_cons (src : Source) (line : Int) (exporter : Option Node) {n c : Node} {i : Nat}
    (hc : n.children[i]? = some c) (p : Position) :
    n.foundAt? src line exporter (i :: p) = c.foundAt? src line (n.exporterAt? [i]) p := by
  unfold foundAt?
  rw [nodeAt?_cons, hc, Option.bind_some, if_neg (List.cons_ne_nil i p)]
  cases p with
  | nil => rfl
  | cons j p => rw [exporterAt?_cons_cons hc, if_neg (List.cons_ne_nil j p)]

/-- The first sibling behind `pre` belongs to the export statement above unless an earlier one
does. -/
theorem exporterAt?_append {n c : Node} {pre rest : List Node}
    (h : n.children = pre ++ c :: rest) :
    n.exporterAt? [pre.length] =
      if c.field == some "declaration" then
        (if pre.any (·.field == some "declaration") then none else n.exporter?)
      else none := by
  have hc : n.children[pre.length]? = some c := by simp [h]
  have hfirst : n.children.findIdx? (·.field == some "declaration") = some pre.length ↔
      (c.field == some "declaration") ∧ ¬pre.any (·.field == some "declaration") := by
    rw [h, List.findIdx?_append, List.findIdx?_cons]
    cases hp : pre.findIdx? (·.field == some "declaration") with
    | some k =>
      have hk := (List.findIdx?_eq_some_iff_getElem.mp hp).1
      have hany : pre.any (·.field == some "declaration") := by
        rw [← List.findIdx?_isSome, hp]
        rfl
      simp only [Option.some_or, Option.some.injEq, hany, not_true_eq_false, and_false, iff_false]
      omega
    | none =>
      have hany : ¬pre.any (·.field == some "declaration") := by
        rw [← List.findIdx?_isSome, hp]
        simp
      cases c.field == some "declaration" with
      | true => simp [hany]
      | false =>
        simp only [Option.none_or, Bool.false_eq_true, if_false, false_and, iff_false,
          Option.map_map]
        intro hidx
        obtain ⟨x, -, hx⟩ := Option.map_eq_some_iff.mp hidx
        simp only [Function.comp_apply] at hx
        omega
  rw [exporterAt?_singleton hc]
  by_cases hd : c.field == some "declaration" <;>
    by_cases hp : pre.any (·.field == some "declaration") <;> simp [hfirst, hd, hp]

theorem latest_unfold (src : Source) (line : Int) (exporter : Option Node) (best : Option Located)
    (n : Node) : n.latest src line exporter best =
      latestAmong src line n.exporter? ((n.located? src line exporter).or best) n.children := by
  obtain ⟨_, _, _, _, _, _, _, children⟩ := n
  rw [latest]

/-- Siblings behind `pre` give the last of the matches in them, if each of them does. The export
statement above is handed on as long as its payload is not among the siblings passed. -/
theorem latestAmong_eq (src : Source) (line : Int) (n : Node) :
    ∀ (pre l : List Node) (best : Option Located), n.children = pre ++ l →
      (∀ c ∈ l, ∀ exporter best, c.latest src line exporter best =
        (c.visits.filterMap (c.foundAt? src line exporter)).getLast?.or best) →
      latestAmong src line (if pre.any (·.field == some "declaration") then none else n.exporter?)
          best l =
        ((visitsFrom pre.length l).filterMap (n.foundAt? src line none)).getLast?.or best
  | pre, [], best, _, _ => by simp [latestAmong, visitsFrom]
  | pre, c :: rest, best, h, hl => by
    have hc : n.children[pre.length]? = some c := by simp [h]
    have hhead : (c.visits.map (pre.length :: ·)).filterMap (n.foundAt? src line none) =
        c.visits.filterMap (c.foundAt? src line (n.exporterAt? [pre.length])) := by
      rw [List.filterMap_map]
      exact List.filterMap_congr fun p _ => foundAt?_cons src line none hc p
    have ih := latestAmong_eq src line n (pre ++ [c]) rest
      (if c.named then c.latest src line (n.exporterAt? [pre.length]) best else best)
      (by simp [h]) fun d hd => hl d (List.mem_cons_of_mem c hd)
    have hnext : (if (pre ++ [c]).any (·.field == some "declaration") then none else n.exporter?) =
        if c.field == some "declaration" then none
        else if pre.any (·.field == some "declaration") then none else n.exporter? := by
      by_cases hd : c.field == some "declaration" <;> simp [hd]
    rw [hnext, List.length_append, List.length_singleton, exporterAt?_append h] at ih
    rw [latestAmong, ih, visitsFrom, List.filterMap_append, List.getLast?_append, Option.or_assoc]
    by_cases hn : c.named
    · rw [if_pos hn, if_pos hn, hhead, exporterAt?_append h, hl c List.mem_cons_self]
    · simp [hn]

/-- A walk gives the last of the matches at the positions it comes by. -/
theorem latest_eq (src : Source) (line : Int) (n : Node) :
    ∀ (exporter : Option Node) (best : Option Located), n.latest src line exporter best =
      (n.visits.filterMap (n.foundAt? src line exporter)).getLast?.or best := by
  induction n using Node.induction with
  | step n ih =>
    intro exporter best
    have hbelow : (visitsFrom 0 n.children).filterMap (n.foundAt? src line exporter) =
        (visitsFrom 0 n.children).filterMap (n.foundAt? src line none) := by
      refine List.filterMap_congr fun p hp => ?_
      obtain ⟨k, c, q, hk, -, -, rfl⟩ := mem_visitsFrom.mp hp
      rw [Nat.zero_add, foundAt?_cons src line exporter hk, foundAt?_cons src line none hk]
    have hroot : ([[]] : List Position).filterMap (n.foundAt? src line exporter) =
        (n.located? src line exporter).toList := by
      cases h : n.located? src line exporter <;> simp [foundAt?_nil, h]
    have hamong := latestAmong_eq src line n [] n.children ((n.located? src line exporter).or best)
      rfl ih
    rw [List.any_nil, if_neg Bool.false_ne_true] at hamong
    rw [latest_unfold, hamong, visits_eq, ← List.singleton_append, List.filterMap_append, hbelow,
      hroot, List.getLast?_append, Option.or_assoc]
    cases n.located? src line exporter <;> rfl

/-- The node whose start is the location of what the node `n` at a position declares. A declaration
has that of the export statement it belongs to, an assignment always its own. -/
def placeAt (root : Node) (p : Position) (n : Node) : Node :=
  if n.kind = "assignment_expression" then n else (root.exporterAt? p).getD n

theorem parameters_eq (n : Node) : n.parameters =
    ((n.child? "parameters").map fun list =>
      list.children.filter fun c => c.named && c.kind != "comment").getD [] := by
  unfold parameters members namedChildren
  cases n.child? "parameters" with
  | none => rfl
  | some list =>
    simp only [List.filter_filter, Option.map_some, Option.getD_some]
    exact List.filter_congr fun c _ => Bool.and_comm _ _

theorem startsNear_iff (n : Node) (src : Source) (line : Int) : n.startsNear src line ↔
    (src.row n.start : Int) + 1 = line ∨ (src.row n.start : Int) + 1 = line + 1 := by
  simp only [startsNear, Bool.or_eq_true, beq_iff_eq]
  omega

theorem located?_eq_some_iff {src : Source} {line : Int} {exporter : Option Node} {n : Node}
    {f : Located} : n.located? src line exporter = some f ↔
      ∃ name value, n.Declares name value ∧
        ((src.row n.start : Int) + 1 = line ∨ (src.row n.start : Int) + 1 = line + 1) ∧
        f = ⟨name.text src,
          (if n.kind = "assignment_expression" then n else exporter.getD n).location src,
          ((value.child? "parameters").map fun list =>
            list.children.filter fun c => c.named && c.kind != "comment").getD []⟩ := by
  constructor
  · intro h
    unfold located? at h
    split at h
    · next name value hf =>
      by_cases hnear : n.startsNear src line
      · rw [if_pos hnear] at h
        refine ⟨name, value, function?_eq_some_iff.mp hf, (n.startsNear_iff src line).mp hnear, ?_⟩
        rw [← Option.some.inj h, parameters_eq]
        simp only [isAssignment_iff]
      · rw [if_neg hnear] at h
        cases h
    · cases h
  · rintro ⟨name, value, declares, hnear, rfl⟩
    rw [located?, function?_eq_some_iff.mpr declares]
    simp only [if_pos ((n.startsNear_iff src line).mpr hnear), isAssignment_iff, parameters_eq]

end Node

/-! ## The function that is found -/

/-- The function `f` is declared at the position `p` of a tree, by a node that starts on `line`. -/
inductive FunctionAt (src : Source) (root : Node) (p : Position) (line : Int) : Located → Prop
  | mk {n name value : Node} (node : root.nodeAt? p = some n) (declares : n.Declares name value)
      (starts : line = src.row n.start + 1) :
      FunctionAt src root p line
        ⟨name.text src, (root.placeAt p n).location src,
          ((value.child? "parameters").map fun list =>
            list.children.filter fun c => c.named && c.kind != "comment").getD []⟩

/-- A walk in pre-order comes by `f` last among the functions whose lines satisfy `on`. -/
def IsLast (src : Source) (root : Node) (on : Int → Prop) (f : Located) : Prop :=
  ∃ before p after line, root.visits = before ++ p :: after ∧ on line ∧
    FunctionAt src root p line f ∧ ∀ q ∈ after, ∀ l g, FunctionAt src root q l g → ¬on l

theorem foundAt?_eq_some_iff {src : Source} {root : Node} {line : Int} {p : Position}
    {f : Located} : root.foundAt? src line none p = some f ↔
      ∃ l, (l = line ∨ l = line + 1) ∧ FunctionAt src root p l f := by
  have hexporter : (if p = [] then none else root.exporterAt? p) = root.exporterAt? p := by
    split_ifs with h
    · rw [h, Node.exporterAt?_nil]
    · rfl
  rw [Node.foundAt?, hexporter, Option.bind_eq_some_iff]
  constructor
  · rintro ⟨n, hn, h⟩
    obtain ⟨name, value, declares, hnear, rfl⟩ := Node.located?_eq_some_iff.mp h
    exact ⟨_, hnear, .mk hn declares rfl⟩
  · rintro ⟨l, hl, hf⟩
    obtain ⟨hn, declares, rfl⟩ := hf
    exact ⟨_, hn, Node.located?_eq_some_iff.mpr ⟨_, _, declares, hl, rfl⟩⟩

theorem getLast?_filterMap_eq_some_iff {α β : Type} {f : α → Option β} {l : List α} {b : β} :
    (l.filterMap f).getLast? = some b ↔
      ∃ before a after, l = before ++ a :: after ∧ f a = some b ∧ ∀ x ∈ after, f x = none := by
  rw [List.getLast?_eq_some_iff]
  constructor
  · rintro ⟨ys, h⟩
    obtain ⟨l₁, l₂, rfl, -, h₂⟩ := List.filterMap_eq_append_iff.mp h
    obtain ⟨m₁, a, m₂, rfl, -, ha, h₃⟩ := List.filterMap_eq_cons_iff.mp h₂
    exact ⟨l₁ ++ m₁, a, m₂, by simp, ha, List.filterMap_eq_nil_iff.mp h₃⟩
  · rintro ⟨before, a, after, rfl, ha, hafter⟩
    refine ⟨before.filterMap f, ?_⟩
    rw [List.filterMap_append, List.filterMap_cons_some ha, List.filterMap_eq_nil_iff.mpr hafter]

theorem locate_eq (src : Source) (root : Node) (line : Int) : locate src root line =
    (root.visits.filterMap (root.foundAt? src line none)).getLast? := by
  rw [locate, Node.latest_eq, Option.or_none]

theorem locate_iff_isLast {src : Source} {root : Node} {line : Int} {f : Located} :
    locate src root line = some f ↔ IsLast src root (fun l => l = line ∨ l = line + 1) f := by
  rw [locate_eq, getLast?_filterMap_eq_some_iff]
  constructor
  · rintro ⟨before, p, after, hv, hp, hafter⟩
    obtain ⟨l, hl, hf⟩ := foundAt?_eq_some_iff.mp hp
    refine ⟨before, p, after, l, hv, hl, hf, fun q hq l' g hg hl' => ?_⟩
    have := foundAt?_eq_some_iff.mpr ⟨l', hl', hg⟩
    rw [hafter q hq] at this
    cases this
  · rintro ⟨before, p, after, l, hv, hl, hf, hafter⟩
    refine ⟨before, p, after, hv, foundAt?_eq_some_iff.mpr ⟨l, hl, hf⟩, fun q hq => ?_⟩
    rw [Option.eq_none_iff_forall_not_mem]
    intro g hg
    obtain ⟨l', hl', hg'⟩ := foundAt?_eq_some_iff.mp hg
    exact hafter q hq l' g hg' hl'

theorem locate_eq_none_iff {src : Source} {root : Node} {line : Int} :
    locate src root line = none ↔
      ¬∃ p ∈ root.visits, ∃ l f, (l = line ∨ l = line + 1) ∧ FunctionAt src root p l f := by
  rw [locate_eq, List.getLast?_eq_none_iff, List.filterMap_eq_nil_iff]
  constructor
  · rintro h ⟨p, hp, l, f, hl, hf⟩
    have := foundAt?_eq_some_iff.mpr ⟨l, hl, hf⟩
    rw [h p hp] at this
    cases this
  · intro h p hp
    rw [Option.eq_none_iff_forall_not_mem]
    intro f hf
    obtain ⟨l, hl, hf'⟩ := foundAt?_eq_some_iff.mp hf
    exact h ⟨p, hp, l, f, hl, hf'⟩

/-- Whatever the tree, `locate` gives the function that a walk over named children comes by last
among those that start on the line or on the line below, and nothing exactly if there is none. -/
theorem locate_last_of_two_lines (src : Source) (root : Node) (line : Int) :
    (∀ f, locate src root line = some f ↔
      IsLast src root (fun l => l = line ∨ l = line + 1) f) ∧
    (locate src root line = none ↔
      ¬∃ p ∈ root.visits, ∃ l f, (l = line ∨ l = line + 1) ∧ FunctionAt src root p l f) :=
  ⟨fun _ => locate_iff_isLast, locate_eq_none_iff⟩

end DocSignature
