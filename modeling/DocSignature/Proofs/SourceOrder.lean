import DocSignature.Proofs.LastFunction
import DocSignature.Proofs.Outcome
import Mathlib.Data.List.Basic

/-!
# Trees in source order

A tree is in source order if the nodes that a walk comes by start one behind the other
(`Node.SourceOrdered`). In such a tree the last function on two neighbouring lines is the last one
on the lower of them, if any function starts there. So a function below the cursor hides those
beside it, and from the line above a function the last function on its line is found.

An export statement does not start behind its payload (`Node.SourceOrdered.exporter_start_le`),
hence no function is located below the line under the cursor, and its comment goes on the cursor
line or above.
-/

namespace DocSignature

/-! ## Lines -/

theorem Source.row_mono (src : Source) {a b : Nat} (h : a ≤ b) : src.row a ≤ src.row b := by
  unfold Source.row
  exact (List.take_sublist_take_left h).count_le _

theorem Node.location_line (n : Node) (src : Source) :
    (n.location src).line = src.row n.start + 1 := rfl

namespace Node

/-! ## The order -/

/-- The nodes of a tree in pre-order over named children. -/
def visited (n : Node) : List Node := n.visits.filterMap n.nodeAt?

/-- The nodes of a tree start one behind the other, or at the same octet. -/
def SourceOrdered (n : Node) : Prop := n.visited.Pairwise fun a b => a.start ≤ b.start

theorem sourceOrdered_iff {n : Node} : n.SourceOrdered ↔
    n.visits.Pairwise fun p q =>
      ∀ a, n.nodeAt? p = some a → ∀ b, n.nodeAt? q = some b → a.start ≤ b.start :=
  List.pairwise_filterMap

theorem map_visits_sublist_visitsFrom {c : Node} (hc : c.named) :
    ∀ {i k : Nat} {l : List Node}, l[k]? = some c →
      (c.visits.map ((i + k) :: ·)).Sublist (visitsFrom i l)
  | _, _, [], hk => by simp at hk
  | i, 0, d :: rest, hk => by
    obtain rfl : d = c := by simpa using hk
    rw [visitsFrom, if_pos hc]
    exact List.sublist_append_left _ _
  | i, k + 1, d :: rest, hk => by
    rw [visitsFrom, ← Nat.add_assoc, Nat.add_right_comm]
    exact (map_visits_sublist_visitsFrom hc (by simpa using hk)).trans
      (List.sublist_append_right _ _)

namespace SourceOrdered

variable {root : Node}

/-- A child that is visited is in source order itself. -/
theorem child (h : root.SourceOrdered) {i : Nat} {c : Node} (hi : root.children[i]? = some c)
    (hc : c.named) : c.SourceOrdered := by
  rw [sourceOrdered_iff, visits_eq, List.pairwise_cons] at h
  have hsub := map_visits_sublist_visitsFrom hc (i := 0) hi
  rw [sourceOrdered_iff]
  refine (List.pairwise_map.mp (h.2.sublist hsub)).imp fun hpq a ha b hb => ?_
  exact hpq a (by simpa [hi] using ha) b (by simpa [hi] using hb)

/-- No node starts before the root. -/
theorem root_start_le (h : root.SourceOrdered) {p : Position} (hp : p ∈ root.visits) {n : Node}
    (hn : root.nodeAt? p = some n) : root.start ≤ n.start := by
  rw [sourceOrdered_iff, visits_eq, List.pairwise_cons] at h
  rw [visits_eq, List.mem_cons] at hp
  rcases hp with rfl | hp
  · obtain rfl : root = n := by simpa using hn
    exact Nat.le_refl _
  · exact h.1 p hp root rfl n hn

/-- An export statement does not start behind its payload. -/
theorem exporter_start_le (h : root.SourceOrdered) {p : Position} (hp : p ∈ root.visits)
    {n e : Node} (hn : root.nodeAt? p = some n) (he : root.exporterAt? p = some e) :
    e.start ≤ n.start := by
  induction p generalizing root with
  | nil => simp [exporterAt?_nil] at he
  | cons i p ih =>
    obtain ⟨c, hi, hc, hp'⟩ := cons_mem_visits.mp hp
    cases p with
    | nil =>
      rw [exporterAt?_singleton hi] at he
      obtain rfl : root = e := by
        unfold exporter? at he
        split_ifs at he
        exact Option.some.inj he
      exact h.root_start_le hp hn
    | cons j p =>
      rw [exporterAt?_cons_cons hi] at he
      exact ih (h.child hi hc) hp' (by simpa [hi] using hn) he

/-- A function that a walk comes by earlier does not start on a later line. -/
theorem line_le (h : root.SourceOrdered) {src : Source} {before after : List Position}
    {p q : Position} {l l' : Int} {f g : Located} (hv : root.visits = before ++ p :: after)
    (hq : q ∈ before) (hg : FunctionAt src root q l g) (hf : FunctionAt src root p l' f) :
    l ≤ l' := by
  obtain ⟨hm, -, rfl⟩ := hg
  obtain ⟨hn, -, rfl⟩ := hf
  rw [sourceOrdered_iff, hv, List.pairwise_append] at h
  have hstart := h.2.2 q hq p List.mem_cons_self _ hm _ hn
  have := src.row_mono hstart
  omega

/-- A function is located where it starts, or further up at its export statement. -/
theorem located_line (h : root.SourceOrdered) {src : Source} {p : Position} {l : Int}
    {f : Located} (hp : p ∈ root.visits) (hf : FunctionAt src root p l f) :
    (f.location.line : Int) = l ∨
      (f.location.line : Int) ≤ l ∧
        ∃ e, root.exporterAt? p = some e ∧ f.location = e.location src := by
  obtain ⟨hn, -, rfl⟩ := hf
  simp only [placeAt]
  split_ifs with ha
  · exact Or.inl (by simp [location_line])
  · cases he : root.exporterAt? p with
    | none => exact Or.inl (by simp [location_line])
    | some e =>
      refine Or.inr ⟨?_, e, rfl, rfl⟩
      have := src.row_mono (h.exporter_start_le hp hn he)
      rw [Option.getD_some, location_line]
      omega

end SourceOrdered

end Node

/-! ## The lower of two lines -/

variable {src : Source} {root : Node}

/-- Whether a function is the last one depends only on the lines on which functions start. -/
theorem IsLast.congr {on on' : Int → Prop} {f : Located}
    (h : ∀ p ∈ root.visits, ∀ l g, FunctionAt src root p l g → (on l ↔ on' l)) :
    IsLast src root on f ↔ IsLast src root on' f := by
  have hmem {before after : List Position} {p q : Position}
      (hv : root.visits = before ++ p :: after) (hq : q ∈ p :: after) : q ∈ root.visits := by
    rw [hv]
    exact List.mem_append_right before hq
  constructor
  · rintro ⟨before, p, after, l, hv, hl, hf, hafter⟩
    refine ⟨before, p, after, l, hv, (h p (hmem hv List.mem_cons_self) l f hf).mp hl, hf, ?_⟩
    intro q hq l' g hg hl'
    exact hafter q hq l' g hg ((h q (hmem hv (List.mem_cons_of_mem p hq)) l' g hg).mpr hl')
  · rintro ⟨before, p, after, l, hv, hl, hf, hafter⟩
    refine ⟨before, p, after, l, hv, (h p (hmem hv List.mem_cons_self) l f hf).mpr hl, hf, ?_⟩
    intro q hq l' g hg hl'
    exact hafter q hq l' g hg ((h q (hmem hv (List.mem_cons_of_mem p hq)) l' g hg).mp hl')

/-- If a function starts on the lower of two lines, the last function on both is one on that. -/
theorem IsLast.lower (h : root.SourceOrdered) {line : Int} {f : Located}
    (hbelow : ∃ q ∈ root.visits, ∃ g, FunctionAt src root q (line + 1) g)
    (hf : IsLast src root (fun l => l = line ∨ l = line + 1) f) :
    IsLast src root (· = line + 1) f := by
  obtain ⟨before, p, after, l, hv, hl, hp, hafter⟩ := hf
  obtain ⟨q, hq, g, hg⟩ := hbelow
  have hl' : l = line + 1 := by
    rw [hv, List.mem_append, List.mem_cons] at hq
    rcases hq with hq | rfl | hq
    · have := h.line_le hv hq hg hp
      omega
    · obtain ⟨hn, -, rfl⟩ := hp
      obtain ⟨hm, -, hstarts⟩ := hg
      rw [hn] at hm
      obtain rfl := Option.some.inj hm
      exact hstarts.symm
    · exact absurd (Or.inr rfl) (hafter q hq (line + 1) g hg)
  exact ⟨before, p, after, l, hv, hl', hp, fun r hr l'' g' hg' he =>
    hafter r hr l'' g' hg' (Or.inr he)⟩

theorem exists_locate_below (h : root.SourceOrdered) {line : Int}
    (hbelow : ∃ q ∈ root.visits, ∃ g, FunctionAt src root q (line + 1) g) :
    ∃ f, locate src root line = some f ∧ IsLast src root (· = line + 1) f := by
  cases hf : locate src root line with
  | none =>
    obtain ⟨q, hq, g, hg⟩ := hbelow
    exact absurd ⟨q, hq, line + 1, g, Or.inr rfl, hg⟩ (locate_eq_none_iff.mp hf)
  | some f => exact ⟨f, rfl, IsLast.lower h hbelow (locate_iff_isLast.mp hf)⟩

theorem locate_iff_of_none_below {line : Int}
    (hnone : ¬∃ q ∈ root.visits, ∃ g, FunctionAt src root q (line + 1) g) {f : Located} :
    locate src root line = some f ↔ IsLast src root (· = line) f := by
  rw [locate_iff_isLast]
  refine IsLast.congr fun p hp l g hg => or_iff_left ?_
  rintro rfl
  exact hnone ⟨p, hp, g, hg⟩

/-- The function `f` has the location of an export statement, as its payload. -/
def Adopted (src : Source) (root : Node) (f : Located) : Prop :=
  ∃ p ∈ root.visits, ∃ l e, FunctionAt src root p l f ∧ root.exporterAt? p = some e ∧
    f.location = e.location src

theorem line_of_locate (h : root.SourceOrdered) {line : Int} {f : Located}
    (hf : locate src root line = some f) :
    (f.location.line : Int) ≤ line + 1 ∧
      ((f.location.line : Int) = line ∨ (f.location.line : Int) = line + 1 ∨
        Adopted src root f) := by
  obtain ⟨before, p, after, l, hv, hl, hp, -⟩ := locate_iff_isLast.mp hf
  have hmem : p ∈ root.visits := by
    rw [hv]
    exact List.mem_append_right before List.mem_cons_self
  rcases h.located_line hmem hp with heq | ⟨hle, e, he, hloc⟩
  · refine ⟨by omega, ?_⟩
    rcases hl with rfl | rfl
    · exact Or.inl heq
    · exact Or.inr (Or.inl heq)
  · exact ⟨by omega, Or.inr (Or.inr ⟨p, hmem, l, e, hp, he, hloc⟩)⟩

/-- In a tree in source order the line below the cursor comes first : its last function is found,
and one on the cursor line only if there is none. What is found starts on one of the two lines, or
further up at an export statement, and its comment is inserted no further down than the cursor. -/
theorem locate_prefers_line_below (src : Source) (root : Node) (h : root.SourceOrdered)
    (line : Int) :
    ((∃ q ∈ root.visits, ∃ g, FunctionAt src root q (line + 1) g) →
      ∃ f, locate src root line = some f ∧ IsLast src root (· = line + 1) f) ∧
    ((¬∃ q ∈ root.visits, ∃ g, FunctionAt src root q (line + 1) g) →
      ∀ f, locate src root line = some f ↔ IsLast src root (· = line) f) ∧
    (∀ l, (∃ q ∈ root.visits, ∃ g, FunctionAt src root q l g) →
      ∃ f, locate src root (l - 1) = some f ∧ IsLast src root (· = l) f) ∧
    (∀ f, locate src root line = some f → (f.location.line : Int) ≤ line + 1 ∧
      ((f.location.line : Int) = line ∨ (f.location.line : Int) = line + 1 ∨
        Adopted src root f)) ∧
    (∀ reuse s, (describe reuse src root line).outcome = .ok (some s) →
      (s.location.line : Int) ≤ max line 1) := by
  refine ⟨exists_locate_below h, fun hnone f => locate_iff_of_none_below hnone, fun l hl => ?_,
    fun f hf => line_of_locate h hf, fun reuse s hs => ?_⟩
  · rw [← Int.sub_add_cancel l 1] at hl
    simpa using exists_locate_below h hl
  · obtain ⟨-, found, hfound, hsig⟩ := outcome_eq_ok_some_iff.mp hs
    have hline := (line_of_locate h hfound).1
    rw [(Located.signature_eq_ok_iff.mp hsig).2.1]
    simp only [Location.above]
    omega

/-- The source of `splitExport`. -/
def splitExportSource : Source := .ofString "export\nfunction f() \x7b\x7d"

/-- An export statement on the first line whose payload is on the second. -/
def splitExport : Node :=
  .make "program" 0 22 none true false
    [.make "export_statement" 0 22 none true false
      [.make "export" 0 6 none false false [],
        .make "function_declaration" 7 22 (some "declaration") true false
          [.make "function" 7 15 none false false [],
            .make "identifier" 16 17 (some "name") true false [],
            .make "formal_parameters" 17 19 (some "parameters") true false [],
            .make "statement_block" 20 22 (some "body") true false []]]]

/-- The exported function is found from the line of `export`, where it is located. -/
theorem locate_splitExport : splitExport.SourceOrdered ∧
    ∃ f, locate splitExportSource splitExport 1 = some f ∧
      IsLast splitExportSource splitExport (· = 2) f ∧ (f.location.line : Int) ≤ 2 := by
  have ordered : splitExport.SourceOrdered := by
    unfold Node.SourceOrdered
    decide
  have spec := locate_prefers_line_below splitExportSource splitExport ordered 1
  obtain ⟨f, hf, hlast⟩ := spec.1 ⟨[0, 1], by decide, _,
    .mk rfl (.declaration (Or.inl rfl) rfl) (by decide)⟩
  exact ⟨ordered, f, hf, hlast, (spec.2.2.2.1 f hf).1⟩

end DocSignature
