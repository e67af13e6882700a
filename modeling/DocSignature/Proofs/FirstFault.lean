import DocSignature.Proofs.Coordinates
import DocSignature.Proofs.Copy
import Mathlib.Data.List.Find

/-!
# The first fault of a tree

A tree is refused for the first fault in it. `Node.fault?` looks for one below nodes that are
marked, that is flagged or missing, and turns back where there is none. `Node.paths` lists all nodes
of a tree in pre-order, each with the nodes that lead to it; the fault that is found is the first
one in this list that is reached through marked nodes only (`Node.fault?_eq_find?`).

Where the flags tell of the faults below (`Node.FlagsDerived`), every fault is reached in this way
(`Node.FlagsDerived.all_isMarked`). Then the first fault of the whole tree is found, the tree is
refused exactly if it has one, and in a tree whose nodes start one behind the other no fault has an
earlier location.
-/

namespace DocSignature

namespace Node

/-! ## All nodes in order -/

/-- A path from a node on, as it is seen from the parent of that node. -/
def through (c : Node) (e : Node × List Node) : Node × List Node := (e.1, c :: e.2)

mutual

/-- The nodes of a tree in pre-order, each with the nodes that lead to it : the root is left out,
and the node itself comes last. -/
def paths : Node → List (Node × List Node)
  | n@(⟨_, _, _, _, _, _, _, children⟩) => (n, []) :: pathsAmong children

/-- The nodes of siblings in pre-order, each with the nodes that lead to it. -/
def pathsAmong : List Node → List (Node × List Node)
  | [] => []
  | c :: rest => c.paths.map c.through ++ pathsAmong rest

end

theorem paths_eq (n : Node) : n.paths = (n, []) :: pathsAmong n.children := by
  obtain ⟨_, _, _, _, _, _, _, children⟩ := n
  rw [paths]

/-- The nodes of a tree in pre-order. -/
def nodes (n : Node) : List Node := n.paths.map Prod.fst

/-- Whether the search for a fault goes into the node. -/
def isMarked (n : Node) : Bool := n.flagged || n.missing

/-! ## The search -/

/-- Whether the node at the end of a path is a fault that is reached. -/
def isReached (e : Node × List Node) : Bool := e.1.isFault && e.2.all isMarked

theorem find?_through (c : Node) (l : List (Node × List Node)) :
    ((l.map c.through).find? isReached).map Prod.fst =
      if c.isMarked then (l.find? isReached).map Prod.fst else none := by
  have hreached : isReached ∘ c.through = fun e => c.isMarked && isReached e := by
    funext e
    exact Bool.and_left_comm e.1.isFault c.isMarked (e.2.all isMarked)
  rw [List.find?_map, hreached, Option.map_map]
  split_ifs with hc
  · simp only [hc, Bool.true_and]
    rfl
  · simp [hc]

/-- The search among siblings, given what the search in each of them finds. -/
theorem faultAmong?_eq_find? {l : List Node}
    (h : ∀ c ∈ l, c.fault? = (c.paths.find? isReached).map Prod.fst) :
    faultAmong? l = ((pathsAmong l).find? isReached).map Prod.fst := by
  induction l with
  | nil => rfl
  | cons c rest ih =>
    obtain ⟨hc, hrest⟩ := List.forall_mem_cons.mp h
    rw [faultAmong?_cons, pathsAmong, List.find?_append, Option.map_or, find?_through, ← hc,
      ih hrest, isMarked]
    split_ifs
    · rfl
    · rw [Option.none_or]

theorem fault?_eq_find? (n : Node) : n.fault? = (n.paths.find? isReached).map Prod.fst := by
  induction n using Node.induction with
  | step n ih =>
    rw [fault?_unfold, paths_eq, List.find?_cons, faultAmong?_eq_find? ih]
    by_cases hn : n.isFault
    · simp [isReached, hn]
    · simp [isReached, hn]

-- the first child is flagged without a fault, the second one hides its fault
example : (⟨"program", 0, 3, none, true, false, true,
    [⟨"a", 0, 1, none, true, false, true, []⟩,
      ⟨"b", 1, 2, none, true, false, false, [⟨"ERROR", 1, 2, none, true, false, true, []⟩]⟩,
      ⟨"ERROR", 2, 3, none, true, false, true, []⟩]⟩ : Node).fault?.map (·.start) = some 2 := by
  decide

/-! ## Flags that tell of faults -/

/-- Each node of the tree is flagged exactly if it, or a node below it, is a fault. -/
def FlagsDerived (root : Node) : Prop := ∀ n ∈ root.nodes, n.flagged = n.nodes.any isFault

instance (root : Node) : Decidable root.FlagsDerived :=
  inferInstanceAs (Decidable (∀ n ∈ root.nodes, n.flagged = n.nodes.any isFault))

theorem mem_pathsAmong {l : List Node} {e : Node × List Node} :
    e ∈ pathsAmong l ↔ ∃ c ∈ l, ∃ e' ∈ c.paths, c.through e' = e := by
  induction l with
  | nil => simp [pathsAmong]
  | cons c rest ih =>
    rw [pathsAmong, List.mem_append, List.mem_map, ih, List.exists_mem_cons_iff]

theorem mem_paths {n : Node} {e : Node × List Node} :
    e ∈ n.paths ↔ e = (n, []) ∨ ∃ c ∈ n.children, ∃ e' ∈ c.paths, c.through e' = e := by
  rw [paths_eq, List.mem_cons, mem_pathsAmong]

theorem mem_nodes {n m : Node} : m ∈ n.nodes ↔ ∃ way, (m, way) ∈ n.paths := by
  simp [nodes]

theorem self_mem_nodes (n : Node) : n ∈ n.nodes := mem_nodes.mpr ⟨[], mem_paths.mpr (Or.inl rfl)⟩

theorem mem_nodes_of_child {n c m : Node} (hc : c ∈ n.children) (hm : m ∈ c.nodes) :
    m ∈ n.nodes := by
  obtain ⟨way, h⟩ := mem_nodes.mp hm
  exact mem_nodes.mpr ⟨c :: way, mem_paths.mpr (Or.inr ⟨c, hc, _, h, rfl⟩)⟩

/-- The nodes on the way to a node are in the tree, and the node is in theirs. -/
theorem mem_nodes_of_mem_paths {root n c : Node} {way : List Node} (h : (n, way) ∈ root.paths)
    (hc : c ∈ way) : c ∈ root.nodes ∧ n ∈ c.nodes := by
  induction root using Node.induction generalizing way with
  | step root ih =>
    rcases mem_paths.mp h with heq | ⟨d, hd, ⟨m, rest⟩, hrest, heq⟩
    · obtain ⟨-, rfl⟩ := Prod.mk.inj heq
      simp at hc
    · obtain ⟨rfl, rfl⟩ := Prod.mk.inj heq
      rcases List.mem_cons.mp hc with rfl | hc
      · exact ⟨mem_nodes_of_child hd (self_mem_nodes c), mem_nodes.mpr ⟨rest, hrest⟩⟩
      · obtain ⟨hcd, hm⟩ := ih d hd hrest hc
        exact ⟨mem_nodes_of_child hd hcd, hm⟩

namespace FlagsDerived

variable {root : Node} (h : root.FlagsDerived)

include h

theorem flagged_iff {n : Node} (hn : n ∈ root.nodes) : n.flagged ↔ ∃ m ∈ n.nodes, m.isFault := by
  rw [h n hn, List.any_eq_true]

/-- Every fault is reached through marked nodes. -/
theorem all_isMarked {e : Node × List Node} (he : e ∈ root.paths) (hfault : e.1.isFault) :
    e.2.all isMarked := by
  refine List.all_eq_true.mpr fun c hc => ?_
  obtain ⟨hroot, hbelow⟩ := mem_nodes_of_mem_paths he hc
  have hflagged : c.flagged := (h.flagged_iff hroot).mpr ⟨e.1, hbelow, hfault⟩
  simp [isMarked, hflagged]

/-- So the first fault of all is found. -/
theorem fault?_eq : root.fault? = root.nodes.find? isFault := by
  have hreached : ∀ e ∈ root.paths, isReached e = e.1.isFault := by
    intro e he
    by_cases hfault : e.1.isFault
    · simp [isReached, hfault, h.all_isMarked he hfault]
    · simp [isReached, hfault]
  rw [fault?_eq_find?, nodes, List.find?_map, List.find?_congr hreached]
  rfl

theorem isSome_fault?_iff : root.fault?.isSome ↔ root.flagged := by
  rw [h.fault?_eq, List.find?_isSome, h.flagged_iff (self_mem_nodes root)]

end FlagsDerived

/-! ## Order of starts -/

/-- The nodes of the tree, in pre-order, start one behind the other. -/
def StartsOrdered (root : Node) : Prop := root.nodes.Pairwise fun a b => a.start ≤ b.start

instance (root : Node) : Decidable root.StartsOrdered :=
  inferInstanceAs (Decidable (root.nodes.Pairwise _))

/-- No fault starts before the first one. -/
theorem StartsOrdered.start_le {root n m : Node} (h : root.StartsOrdered)
    (hn : root.nodes.find? isFault = some n) (hm : m ∈ root.nodes) (hfault : m.isFault) :
    n.start ≤ m.start := by
  obtain ⟨-, before, after, hsplit, hbefore⟩ := List.find?_eq_some_iff_append.mp hn
  rw [StartsOrdered, hsplit] at h
  rw [hsplit] at hm
  rcases List.mem_append.mp hm with hm | hm
  · have := hbefore m hm
    simp [hfault] at this
  · rcases List.mem_cons.mp hm with rfl | hm
    · exact Nat.le_refl _
    · exact List.rel_of_pairwise_cons (List.pairwise_append.mp h).2.1 hm

end Node

/-! ## Refusals -/

/-- What begins with another letter tells of no missing node. -/
theorem missing_append_ne {t : String} (h : t.toList.head? ≠ some 'm') (kind : String) :
    "missing " ++ kind ≠ t := by
  rintro rfl
  exact h (by simp)

/-- A flagged tree is refused for the fault that is found in it. -/
theorem refusal?_of_fault {root n : Node} (src : Source) (hflagged : root.flagged)
    (hn : root.fault? = some n) : refusal? src root = some (n.location src,
      if n.missing then "missing " ++ n.kind else SignatureError.invalid) := by
  rw [refusal?, if_pos hflagged, hn]
  rfl

theorem isSome_refusal?_iff {src : Source} {root : Node} :
    (refusal? src root).isSome ↔ root.flagged := by
  unfold refusal?
  split_ifs with h
  · simp [h]
  · simp [h]

/-- A refused tree has the same outcome at every line. -/
theorem outcome_of_refusal {src : Source} {root : Node} {location : Location} {reason : String}
    (h : refusal? src root = some (location, reason)) (reuse : Bool) (line : Int) :
    (describe reuse src root line).outcome =
      .error (.source (.unreadableAt location reason)) := by
  rw [describe, h]

/-- In any tree the fault that is found is the first one in pre-order that is reached through marked
nodes. If the flags tell of the faults below, that is the first fault of the tree, and the tree is
refused exactly if it has one : for the first, at its location, with a reason that says whether it
is missing, and at every line. If the nodes start one behind the other, no fault has an earlier
location. -/
theorem refusal_for_first_fault (root : Node) :
    root.fault? = (root.paths.find? fun e => e.1.isFault && e.2.all Node.isMarked).map Prod.fst ∧
    (root.FlagsDerived →
      root.fault? = root.nodes.find? Node.isFault ∧ (root.fault?.isSome ↔ root.flagged) ∧
      ∀ text : List Char,
        ((refusal? (.ofChars text) root).isSome ↔ ∃ n ∈ root.nodes, n.isFault) ∧
        ∀ n, root.nodes.find? Node.isFault = some n → ∃ reason,
          refusal? (.ofChars text) root = some (n.location (.ofChars text), reason) ∧
          (reason = "missing " ++ n.kind ↔ n.missing) ∧
          (reason = "invalid syntax" ↔ ¬n.missing) ∧
          (∀ reuse line, (describe reuse (.ofChars text) root line).outcome =
            .error (.source (.unreadableAt (n.location (.ofChars text)) reason))) ∧
          (root.StartsOrdered → ∀ m ∈ root.nodes, m.isFault →
            ¬(m.location (.ofChars text)).Before (n.location (.ofChars text)))) := by
  refine ⟨root.fault?_eq_find?, fun h => ⟨h.fault?_eq, h.isSome_fault?_iff, fun text => ⟨?_, ?_⟩⟩⟩
  · rw [isSome_refusal?_iff, h.flagged_iff root.self_mem_nodes]
  · intro n hn
    have hfault : root.fault? = some n := h.fault?_eq.trans hn
    have hflagged : root.flagged := h.isSome_fault?_iff.mp (by simp [hfault])
    have hrefusal := refusal?_of_fault (.ofChars text) hflagged hfault
    have hne := missing_append_ne (t := SignatureError.invalid) (by decide) n.kind
    refine ⟨_, hrefusal, ?_, ?_, outcome_of_refusal hrefusal, fun hordered m hm hmfault => ?_⟩
    · split_ifs with hmissing
      · simp [hmissing]
      · simp [hmissing, hne.symm]
    · split_ifs with hmissing
      · exact iff_of_false hne (by simp [hmissing])
      · exact iff_of_true rfl (by simp [hmissing])
    · exact Source.not_before_of_le text (hordered.start_le hn hm hmfault)

/-- The closing brace of `openBlock`, which is not in the source. -/
def absentBrace : Node := .make "\x7d" 9 9 none false true []

/-- A block without its closing brace, and what could not be read behind it. -/
def openBlock : Node :=
  .make "program" 0 12 none true false
    [.make "if_statement" 0 9 none true false
      [.make "if" 0 2 none false false [],
        .make "identifier" 4 6 none true false [],
        .make "statement_block" 8 9 none true false
          [.make "\x7b" 8 9 none false false [], absentBrace]],
      .make "ERROR" 10 12 none true false []]

/-- The brace is what is reported, on its column in characters. -/
theorem refusal_openBlock : openBlock.FlagsDerived ∧ openBlock.StartsOrdered ∧
    refusal? (.ofString "if (é) \x7b ))") openBlock = some (⟨1, 8, by decide⟩, "missing \x7d") ∧
    ∀ m ∈ openBlock.nodes, m.isFault →
      ¬(m.location (.ofString "if (é) \x7b ))")).Before ⟨1, 8, by decide⟩ := by
  have hderived : openBlock.FlagsDerived := by decide +kernel
  have hordered : openBlock.StartsOrdered := by decide +kernel
  have hlocation : absentBrace.location (.ofString "if (é) \x7b ))") = ⟨1, 8, by decide⟩ := by
    decide +kernel
  obtain ⟨-, h⟩ := refusal_for_first_fault openBlock
  obtain ⟨-, -, h⟩ := h hderived
  obtain ⟨-, h⟩ := h "if (é) \x7b ))".toList
  obtain ⟨reason, hrefusal, hmissing, -, -, hfirst⟩ := h absentBrace rfl
  refine ⟨hderived, hordered, hrefusal.trans ?_, fun m hm hfault => ?_⟩
  · rw [hmissing.mpr rfl]
    exact congrArg (fun l => some (l, "missing \x7d")) hlocation
  · rw [← hlocation]
    exact hfirst hordered m hm hfault

end DocSignature
