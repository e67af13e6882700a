import DocSignature.Proofs.Octets
import DocSignature.Proofs.Relocation
import DocSignature.Proofs.SourceOrder

/-!
# Text in front of a source

Whole lines in front of a source move everything behind them, and change nothing else. The octets
of the lines move each span (`Node.shift`, `Node.copy_shift`), and their line feeds move each line :
a text that is empty or ends in a line feed leaves every line part behind it as it is
(`Source.moved_append`). So a description of the longer source is the one of the shorter source,
further down (`describe_shift`).
-/

namespace DocSignature

/-! ## Trees -/

namespace Node

mutual

/-- The tree with all its spans moved by `d` octets. -/
def shift (d : Nat) : Node → Node
  | ⟨kind, start, stop, field, named, missing, flagged, children⟩ =>
    ⟨kind, start + d, stop + d, field, named, missing, flagged, shiftAll d children⟩

/-- Siblings with all their spans moved by `d` octets. -/
def shiftAll (d : Nat) : List Node → List Node
  | [] => []
  | n :: rest => n.shift d :: shiftAll d rest

end

theorem shiftAll_eq_map (d : Nat) (l : List Node) : shiftAll d l = l.map (shift d) := by
  induction l with
  | nil => rfl
  | cons n rest ih => rw [shiftAll, ih, List.map_cons]

theorem copy_shift (d : Nat) (n : Node) : Copy d n (n.shift d) := by
  induction n using Node.induction with
  | step n ih =>
    obtain ⟨_, _, _, _, _, _, _, children⟩ := n
    rw [shift, shiftAll_eq_map]
    exact .mk _ (.of_forall₂ (List.forall₂_map_right_iff.mpr (List.forall₂_same.mpr ih)))

end Node

/-! ## Sources -/

namespace Source

variable {a : List UInt8} (b : List UInt8)

theorem take_append (offset : Nat) :
    (a ++ b).take (offset + a.length) = a ++ b.take offset := by
  rw [Nat.add_comm, List.take_length_add_append]

/-- Octets up to a line feed are no part of a line behind them. -/
theorem linePart_append (ha : a = [] ∨ a.getLast? = some lineFeed) (offset : Nat) :
    (⟨a ++ b⟩ : Source).linePart (offset + a.length) = (⟨b⟩ : Source).linePart offset := by
  rcases ha with rfl | ha
  · rfl
  · obtain ⟨lines, rfl⟩ := List.getLast?_eq_some_iff.mp ha
    unfold linePart
    rw [take_append, List.reverse_append, List.reverse_concat, List.takeWhile_append]
    split
    · next hall =>
      -- The line of the offset begins behind the octets in front, so it ends at their last one.
      have hline := (List.takeWhile_prefix (· != lineFeed)).eq_of_length hall
      simp [hline]
    · rfl

theorem moved_append (ha : a = [] ∨ a.getLast? = some lineFeed) :
    Moved a.length (a.count lineFeed) ⟨b⟩ ⟨a ++ b⟩ where
  text start stop := by
    simp only [text, take_append]
    rw [Nat.add_comm, List.drop_length_add_append]
  location offset := by
    have hrow : (⟨a ++ b⟩ : Source).row (offset + a.length) =
        (⟨b⟩ : Source).row offset + a.count lineFeed := by
      simp only [row]
      rw [take_append, List.count_append, Nat.add_comm]
    simp only [location, Location.down, linePart_append b ha, hrow, Nat.add_right_comm]

theorem moved_ofChars {p : List Char} (hp : p = [] ∨ p.getLast? = some '\n') (s : List Char) :
    Moved (Utf8.encode p).length (p.count '\n') (ofChars s) (ofChars (p ++ s)) := by
  rw [ofChars, ofChars, Utf8.encode_append, ← Utf8.count_lineFeed_encode]
  refine moved_append _ ?_
  rcases hp with rfl | hp
  · exact Or.inl rfl
  · exact Or.inr (Utf8.getLast?_encode hp)

end Source

/-! ## Descriptions -/

/-- Lines `p` in front of a source `s` move its description and change nothing else. There is none
exactly if there was none before. A failure keeps its kind, or its reason and its column, and its
line moves by the number of lines. A signature keeps its name, its parameters and the column of its
comment, which is inserted above the line where the function was found, moved by that number. -/
theorem describe_shift (p s : List Char) (hp : p = [] ∨ p.getLast? = some '\n') (root : Node)
    (line : Int) (reuse : Bool) :
    Agree (Failure.Below (p.count '\n'))
      (Option.Rel fun before after =>
        after.name = before.name ∧ after.params = before.params ∧
        after.returns = before.returns ∧ after.location.column = before.location.column ∧
        ∃ found, locate (.ofChars s) root line = some found ∧
          after.location.line = max (found.location.line + p.count '\n' - 1) 1)
      (describe reuse (.ofChars s) root line).outcome
      (describe reuse (.ofChars (p ++ s)) (root.shift (Utf8.encode p).length)
        (line + p.count '\n')).outcome := by
  have moved := Source.moved_ofChars hp s
  refine (outcome_copy moved (Node.copy_shift _ root) reuse line).imp fun _ _ hfound => ?_
  refine hfound.imp fun before after ⟨found, hlocate, below⟩ => ?_
  refine ⟨below.name, below.params, below.returns, ?_, found, hlocate, ?_⟩
  · rw [below.location, below.location_down]
    rfl
  · rw [below.location_down]
    rfl

/-- A line of two characters in three octets. -/
def umlautLine : List Char := ['ä', '\n']

/-- The characters of `splitExportSource`. -/
def splitExportText : List Char := "export\nfunction f() \x7b\x7d".toList

theorem splitName_ne : "f" ≠ "" := by decide

/-- The signature of the function in `splitExport`. It is found on the first line, above which no
comment can go. -/
def splitSignature : Signature where
  name := "f"
  location := splitExportSource.location 0
  name_ne := splitName_ne

/-- Behind another line the function in `splitExport` is found on the second one, and its comment
stays on the first. -/
theorem describe_shift_splitExport :
    umlautLine.getLast? = some '\n' ∧
    (describe false (.ofChars splitExportText) splitExport 1).outcome =
      .ok (some splitSignature) ∧
    ∃ after, (describe false (.ofChars (umlautLine ++ splitExportText))
        (splitExport.shift (Utf8.encode umlautLine).length)
        (1 + umlautLine.count '\n')).outcome = .ok (some after) ∧
      after.name = "f" ∧ after.params = [] ∧ after.location.column = 0 ∧
      after.location.line = 1 := by
  have hbefore : (describe false (.ofChars splitExportText) splitExport 1).outcome =
      .ok (some splitSignature) := by
    decide +kernel
  have hline : (locate (.ofChars splitExportText) splitExport 1).map (·.location.line) =
      some 1 := by
    decide +kernel
  have agree := describe_shift umlautLine splitExportText (Or.inr rfl) splitExport 1 false
  refine ⟨rfl, hbefore, ?_⟩
  rw [hbefore] at agree
  generalize (describe false (.ofChars (umlautLine ++ _)) _ _).outcome = outcome at agree ⊢
  cases agree with
  | ok h =>
    cases h with
    | some h =>
      obtain ⟨hname, hparams, -, hcolumn, found, hfound, habove⟩ := h
      rw [hfound, Option.map_some, Option.some.injEq] at hline
      rw [hline] at habove
      exact ⟨_, rfl, hname, hparams, hcolumn, habove⟩

end DocSignature
