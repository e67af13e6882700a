import DocSignature.Proofs.Outcome
import DocSignature.Proofs.Spans
import Mathlib.Data.List.TakeWhile

/-!
# Lines and columns

The location of an offset is found from octets : the line feeds before it, and the characters that
the octets behind the last of them give. It is what counting characters gives
(`Source.location_line`, `Source.location_column`) : the line has one line feed for each line before
it, and the column is the number of characters on that line that begin before the offset, whether or
not the offset cuts one.

So locations grow with offsets (`Source.not_before_of_le`). Between characters nothing is lost :
what stands behind an aligned offset is found again from its line and its column
(`Source.exists_eq_append_drop`), hence different offsets have different locations.
-/

namespace DocSignature

/-! ## Counting characters -/

namespace Placed

/-- Whether the character ends a line. -/
def isFeed (c : Placed) : Bool := c.char == '\n'

/-- Whether the character is on a line. -/
def isOn (line : ℕ) (c : Placed) : Bool := c.line == line

end Placed

/-- The number of characters with a property that begin before an offset. -/
def countBefore (p : Placed → Bool) (l : List Placed) (offset : ℕ) : ℕ :=
  l.countP fun c => p c && c.start < offset

section Counts

variable (p : Placed → Bool)

theorem countBefore_mono (l : List Placed) {a b : ℕ} (h : a ≤ b) :
    countBefore p l a ≤ countBefore p l b := by
  refine List.countP_mono_left fun c _ hc => ?_
  simp only [Bool.and_eq_true, decide_eq_true_eq] at hc ⊢
  exact ⟨hc.1, Nat.lt_of_lt_of_le hc.2 h⟩

/-- Nothing begins before the first of the characters. -/
theorem countBefore_of_le {n offset : ℕ} (h : n ≤ offset) (line : ℕ) (s : List Char) :
    countBefore p (placedFrom offset line s) n = 0 := by
  refine List.countP_eq_zero.mpr fun c hc => ?_
  have := bounds_of_mem hc
  simp only [Bool.and_eq_true, decide_eq_true_eq]
  omega

theorem countBefore_cons_of_lt {c : Placed} {n : ℕ} (h : c.start < n) (l : List Placed) :
    countBefore p (c :: l) n = countBefore p l n + if p c then 1 else 0 := by
  simp [countBefore, List.countP_cons, h]

end Counts

/-! ## Rows -/

theorem count_take_encode (n offset line : ℕ) (s : List Char) :
    ((Utf8.encode s).take (n - offset)).count Source.lineFeed =
      countBefore Placed.isFeed (placedFrom offset line s) n := by
  induction s generalizing offset line with
  | nil =>
    rw [Utf8.encode, List.flatMap_nil, List.take_nil]
    rfl
  | cons c s ih =>
    rcases Nat.lt_or_ge offset n with hn | hn
    · rw [Utf8.encode_cons, List.take_append, String.length_utf8EncodeChar, Nat.sub_sub,
        List.count_append, ih, placedFrom, countBefore_cons_of_lt _ hn, Nat.add_comm]
      congr 1
      by_cases hc : c = '\n'
      · obtain ⟨k, hk⟩ := Nat.exists_eq_add_one.mpr (Nat.sub_pos_of_lt hn)
        simp [hc, hk, Utf8.encodeChar_lineFeed, Placed.isFeed]
      · have hmem : Source.lineFeed ∉ (String.utf8EncodeChar c).take (n - offset) :=
          fun h => Utf8.lineFeed_notMem hc (List.mem_of_mem_take h)
        simp [List.count_eq_zero_of_not_mem hmem, Placed.isFeed, hc]
    · rw [countBefore_of_le _ hn, Nat.sub_eq_zero_of_le hn]
      rfl

/-! ## Columns -/

/-- What stands behind the last line feed. -/
def lastLine (bs : List UInt8) : List UInt8 :=
  (bs.reverse.takeWhile (· != Source.lineFeed)).reverse

section LastLine

variable {bs : List UInt8} (front : List UInt8)

theorem lastLine_append_of_notMem (h : Source.lineFeed ∉ bs) :
    lastLine (front ++ bs) = lastLine front ++ bs := by
  have hall : ∀ b ∈ bs.reverse, (b != Source.lineFeed) = true := by
    intro b hb
    rw [bne_iff_ne]
    rintro rfl
    exact h (List.mem_reverse.mp hb)
  rw [lastLine, List.reverse_append, List.takeWhile_append_of_pos hall, List.reverse_append,
    List.reverse_reverse, lastLine]

theorem lastLine_of_notMem (h : Source.lineFeed ∉ bs) : lastLine bs = bs :=
  lastLine_append_of_notMem [] h

theorem lastLine_append_of_mem (h : Source.lineFeed ∈ bs) :
    lastLine (front ++ bs) = lastLine bs := by
  rw [lastLine, List.reverse_append, List.takeWhile_append, if_neg, ← lastLine]
  intro hlength
  have hall := (List.takeWhile_prefix (· != Source.lineFeed)).eq_of_length hlength
  have := List.takeWhile_eq_self_iff.mp hall _ (List.mem_reverse.mpr h)
  simp at this

theorem lastLine_cons_lineFeed (bs : List UInt8) :
    lastLine (Source.lineFeed :: bs) = lastLine bs := by
  by_cases h : Source.lineFeed ∈ bs
  · exact lastLine_append_of_mem [_] h
  · rw [lastLine_of_notMem h]
    exact lastLine_append_of_notMem [_] h

end LastLine

/-- A character in front of others is on the last line if no line feed is among them. -/
theorem length_decode_lastLine_append {c : Char} (hc : c ≠ '\n') (rest : List UInt8) :
    (Utf8.decode (lastLine (String.utf8EncodeChar c ++ rest))).length =
      (Utf8.decode (lastLine rest)).length + if rest.count Source.lineFeed = 0 then 1 else 0 := by
  by_cases h : Source.lineFeed ∈ rest
  · rw [lastLine_append_of_mem _ h, if_neg (List.count_pos_iff.mpr h).ne', Nat.add_zero]
  · rw [lastLine_append_of_notMem _ h, lastLine_of_notMem (Utf8.lineFeed_notMem hc), Utf8.decode,
      Utf8.decodeFrom_encodeChar, lastLine_of_notMem h, if_pos (List.count_eq_zero_of_not_mem h)]
    rfl

/-- The characters of the last line, where a character that is cut off counts as one. -/
theorem length_decode_lastLine (n offset line : ℕ) (s : List Char) :
    (Utf8.decode (lastLine ((Utf8.encode s).take (n - offset)))).length =
      countBefore (Placed.isOn (line + countBefore Placed.isFeed (placedFrom offset line s) n))
        (placedFrom offset line s) n := by
  induction s generalizing offset line with
  | nil =>
    rw [Utf8.encode, List.flatMap_nil, List.take_nil]
    rfl
  | cons c s ih =>
    have hsize := String.length_utf8EncodeChar c
    rcases Nat.lt_or_ge offset n with hn | hn
    · rw [Utf8.encode_cons, List.take_append, hsize, Nat.sub_sub, placedFrom,
        countBefore_cons_of_lt _ hn, countBefore_cons_of_lt _ hn]
      by_cases hc : c = '\n'
      · have hfeed : (String.utf8EncodeChar c).take (n - offset) = [Source.lineFeed] := by
          rw [hc, Utf8.encodeChar_lineFeed, List.take_of_length_le]
          exact Nat.sub_pos_of_lt hn
        rw [if_pos hc, hfeed, List.singleton_append, lastLine_cons_lineFeed, ih _ (line + 1)]
        simp [Placed.isFeed, Placed.isOn, hc, Nat.add_assoc, Nat.add_comm 1]
      rw [if_neg hc]
      simp only [Placed.isFeed, Placed.isOn, hc, beq_iff_eq, if_false, Nat.add_zero]
      rcases Nat.lt_or_ge n (offset + c.utf8Size) with hcut | hwhole
      · have hnone : Source.lineFeed ∉ (String.utf8EncodeChar c).take (n - offset) :=
          fun h => Utf8.lineFeed_notMem hc (List.mem_of_mem_take h)
        rw [countBefore_of_le _ hcut.le, countBefore_of_le _ hcut.le, Nat.sub_eq_zero_of_le hcut.le,
          List.take_zero, List.append_nil, lastLine_of_notMem hnone,
          Utf8.decode_take_encodeChar (by omega) (by omega)]
        simp
      · rw [List.take_of_length_le (by omega), length_decode_lastLine_append hc, ih _ line,
          count_take_encode n _ line]
        simp
    · rw [countBefore_of_le _ hn, Nat.sub_eq_zero_of_le hn]
      rfl

/-! ## Locations -/

/-- A location that comes before another one : on an earlier line, or on the same line with fewer
characters before it. -/
def Location.Before (l m : Location) : Prop :=
  l.line < m.line ∨ l.line = m.line ∧ l.column < m.column

namespace Source

variable (s : List Char)

theorem location_line (offset : ℕ) : ((ofChars s).location offset).line =
    1 + countBefore Placed.isFeed (placed s) offset := by
  rw [placed, ← count_take_encode, Nat.add_comm]
  rfl

theorem location_column (offset : ℕ) : ((ofChars s).location offset).column =
    countBefore (Placed.isOn ((ofChars s).location offset).line) (placed s) offset := by
  rw [location_line]
  exact length_decode_lastLine offset 0 1 s

/-- A later offset has no earlier location. -/
theorem not_before_of_le {a b : ℕ} (h : a ≤ b) :
    ¬((ofChars s).location b).Before ((ofChars s).location a) := by
  have hline := countBefore_mono Placed.isFeed (placed s) h
  rintro (hlt | ⟨heq, hlt⟩)
  · rw [location_line, location_line] at hlt
    omega
  · rw [location_column, location_column, heq] at hlt
    have := countBefore_mono (Placed.isOn ((ofChars s).location a).line) (placed s) h
    omega

end Source

/-! ## Back to characters -/

/-- A text without its first lines. -/
def dropLines : ℕ → List Char → List Char
  | 0, s => s
  | n + 1, s => dropLines n ((s.dropWhile (· != '\n')).drop 1)

theorem dropLines_lineFeed (n : ℕ) (s : List Char) :
    dropLines (n + 1) ('\n' :: s) = dropLines n s := rfl

theorem dropLines_cons {c : Char} (hc : c ≠ '\n') (n : ℕ) (s : List Char) :
    dropLines (n + 1) (c :: s) = dropLines (n + 1) s := by
  simp [dropLines, hc]

/-- Where the characters `p` are counted, what comes behind them is found again. -/
theorem drop_dropLines_append (line offset : ℕ) (p t : List Char) :
    (dropLines (p.count '\n') (p ++ t)).drop
      ((placedFrom offset line p).countP (Placed.isOn (line + p.count '\n'))) = t := by
  induction p generalizing offset line with
  | nil => rfl
  | cons c p ih =>
    rw [placedFrom, List.countP_cons, List.cons_append, List.count_cons]
    by_cases hc : c = '\n'
    · subst hc
      have hline : ¬Placed.isOn (line + (p.count '\n' + 1))
          ⟨'\n', offset, offset + '\n'.utf8Size, line⟩ := by simp [Placed.isOn]
      rw [if_pos rfl, if_pos BEq.rfl, dropLines_lineFeed, if_neg hline, Nat.add_zero,
        Nat.add_comm (p.count '\n'), ← Nat.add_assoc]
      exact ih _ _
    · rw [if_neg hc, if_neg (by simpa using hc), Nat.add_zero]
      cases hcount : p.count '\n' with
      | zero =>
        have hline : Placed.isOn (line + 0) ⟨c, offset, offset + c.utf8Size, line⟩ := by
          simp [Placed.isOn]
        rw [if_pos hline, dropLines, List.drop_succ_cons]
        simpa only [hcount, dropLines] using ih line (offset + c.utf8Size)
      | succ k =>
        have hline : ¬Placed.isOn (line + (k + 1)) ⟨c, offset, offset + c.utf8Size, line⟩ := by
          simp [Placed.isOn]
        rw [if_neg hline, Nat.add_zero, dropLines_cons hc]
        simpa only [hcount] using ih line (offset + c.utf8Size)

/-- Before the octets of `t` begin just the characters before `t`. -/
theorem countBefore_placed_append (q : Placed → Bool) (p t : List Char) :
    countBefore q (placed (p ++ t)) (Utf8.encode p).length = (placed p).countP q := by
  rw [placed, placedFrom_append, countBefore, List.countP_append, ← countBefore, ← countBefore,
    Nat.zero_add, countBefore_of_le q (Nat.le_refl _), Nat.add_zero]
  refine List.countP_congr fun c hc => ?_
  have := bounds_of_mem hc
  simp only [Bool.and_eq_true, decide_eq_true_eq, and_iff_left_iff_imp]
  omega

theorem countP_isFeed (offset line : ℕ) (s : List Char) :
    (placedFrom offset line s).countP Placed.isFeed = s.count '\n' := by
  induction s generalizing offset line with
  | nil => rfl
  | cons c s ih => rw [placedFrom, List.countP_cons, ih, List.count_cons]; rfl

namespace Source

variable {s : List Char} {a b : ℕ}

/-- What stands behind an aligned offset is found again from its location. -/
theorem exists_eq_append_drop (ha : Aligned s a) :
    ∃ p, a = (Utf8.encode p).length ∧
      s = p ++ (dropLines (((ofChars s).location a).line - 1) s).drop
        ((ofChars s).location a).column := by
  obtain ⟨p, t, rfl, rfl⟩ := ha
  refine ⟨p, rfl, congrArg (p ++ ·) ?_⟩
  rw [location_column, location_line, countBefore_placed_append, countBefore_placed_append, placed,
    countP_isFeed, Nat.add_sub_cancel_left]
  exact (drop_dropLines_append 1 0 p t).symm

theorem eq_of_location_eq (ha : Aligned s a) (hb : Aligned s b)
    (hline : ((ofChars s).location a).line = ((ofChars s).location b).line)
    (hcolumn : ((ofChars s).location a).column = ((ofChars s).location b).column) : a = b := by
  obtain ⟨p, rfl, hp⟩ := exists_eq_append_drop ha
  obtain ⟨q, rfl, hq⟩ := exists_eq_append_drop hb
  rw [hline, hcolumn] at hp
  rw [List.append_cancel_right (hp.symm.trans hq)]

/-- Between characters, a later offset has a later location. -/
theorem before_of_lt (ha : Aligned s a) (hb : Aligned s b) (h : a < b) :
    ((ofChars s).location a).Before ((ofChars s).location b) := by
  have hnot := not_before_of_le s h.le
  have hne : ¬(((ofChars s).location a).line = ((ofChars s).location b).line ∧
      ((ofChars s).location a).column = ((ofChars s).location b).column) :=
    fun ⟨hline, hcolumn⟩ => h.ne (eq_of_location_eq ha hb hline hcolumn)
  unfold Location.Before at hnot ⊢
  omega

end Source

/-- The location of an offset in a text has a line feed before it for each line before its own, and
for its column the number of characters on its line that begin before the offset; its numbers pass
the check of locations. Offsets between characters are in the order of their locations, so that no
two have the same, and without the lines and characters before it the text is what stands behind the
offset. -/
theorem location_of_offset (s : List Char) (offset : ℕ) :
    ((Source.ofChars s).location offset).line =
      1 + countBefore Placed.isFeed (placed s) offset ∧
    ((Source.ofChars s).location offset).column =
      countBefore (Placed.isOn ((Source.ofChars s).location offset).line) (placed s) offset ∧
    Location.ofInts ((Source.ofChars s).row offset + 1)
      (Utf8.decode ((Source.ofChars s).linePart offset)).length =
        .ok ((Source.ofChars s).location offset) ∧
    (Aligned s offset →
      (∀ later, Aligned s later → offset < later →
        ((Source.ofChars s).location offset).Before ((Source.ofChars s).location later)) ∧
      (∀ other, Aligned s other →
        (Source.ofChars s).location offset = (Source.ofChars s).location other → offset = other) ∧
      ∃ p, offset = (Utf8.encode p).length ∧
        s = p ++ (dropLines (((Source.ofChars s).location offset).line - 1) s).drop
          ((Source.ofChars s).location offset).column) := by
  refine ⟨Source.location_line s offset, Source.location_column s offset,
    ((Source.ofChars s).location offset).ofInts_self, fun h => ⟨fun later => ?_, ?_, ?_⟩⟩
  · exact Source.before_of_lt h
  · intro other hother heq
    exact Source.eq_of_location_eq h hother (by rw [heq]) (by rw [heq])
  · exact Source.exists_eq_append_drop h

-- an offset inside the `é` is behind it
example : (Source.ofString "a\né").location 3 = ⟨2, 1, by decide⟩ := by decide +kernel

end DocSignature
