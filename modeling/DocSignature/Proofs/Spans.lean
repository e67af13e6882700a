import DocSignature.Proofs.Octets
import DocSignature.Proofs.Surrogates
import Mathlib.Order.Interval.Finset.Nat

/-!
# The text of a span

Spans are given in octets and may cut characters. `placed` lays the characters of a text out over
the octets of its source, each with its start, its stop and its line; what a span shows is told in
these terms (`text_of_span`). The octets that are left of a character begun before the span are one
mark each (`strays`), then come the characters that lie in it (`wholes`), and a character that goes
on behind its end is one mark (`Cut`).

The front of the span is the only place for marks of the first kind, so the proof goes in two
steps : a span that begins between characters (`decode_take_placed`), and then any span
(`decode_slice`). An offset is `Aligned` if it lies between characters. Spans that meet at such an
offset show one text.
-/

namespace DocSignature

/-! ## Characters at their places -/

/-- A character at its place in a source. -/
structure Placed where
  /-- The character. -/
  char : Char
  /-- The offset of its first octet. -/
  start : ℕ
  /-- The offset behind its last octet. -/
  stop : ℕ
  /-- Its line, counted from one. A line feed is the last character of its line. -/
  line : ℕ

/-- Characters at their places, from an offset and a line on. -/
def placedFrom (offset line : ℕ) : List Char → List Placed
  | [] => []
  | c :: s => ⟨c, offset, offset + c.utf8Size, line⟩ ::
      placedFrom (offset + c.utf8Size) (if c = '\n' then line + 1 else line) s

/-- The characters of a text at their places. -/
def placed (s : List Char) : List Placed := placedFrom 0 1 s

theorem length_encode_cons (c : Char) (s : List Char) :
    (Utf8.encode (c :: s)).length = c.utf8Size + (Utf8.encode s).length := by
  rw [Utf8.encode_cons, List.length_append, String.length_utf8EncodeChar]

/-- The characters of two texts laid end to end : each begins where the octets before it end, and
each line feed before it has ended a line. -/
theorem placedFrom_append (offset line : ℕ) (s t : List Char) :
    placedFrom offset line (s ++ t) = placedFrom offset line s ++
      placedFrom (offset + (Utf8.encode s).length) (line + s.count '\n') t := by
  induction s generalizing offset line with
  | nil => rfl
  | cons c s ih =>
    rw [List.cons_append, placedFrom, placedFrom, ih, List.cons_append, length_encode_cons,
      ← Nat.add_assoc, List.count_cons]
    by_cases hc : c = '\n'
    · simp [hc, Nat.add_assoc, Nat.add_comm 1]
    · simp [hc]

theorem bounds_of_mem {offset line : ℕ} {s : List Char} {c : Placed}
    (hc : c ∈ placedFrom offset line s) :
    offset ≤ c.start ∧ c.start < c.stop ∧ c.stop ≤ offset + (Utf8.encode s).length := by
  induction s generalizing offset line with
  | nil => simp [placedFrom] at hc
  | cons d s ih =>
    have hsize := d.utf8Size_pos
    rw [placedFrom, List.mem_cons] at hc
    rw [length_encode_cons]
    rcases hc with rfl | hc
    · dsimp only
      omega
    · have := ih hc
      omega

/-! ## What a span shows -/

/-- The octets of a span that continue a character begun before it. -/
def strays (l : List Placed) (a b : ℕ) : Finset ℕ :=
  {o ∈ Finset.Ico a b | ∃ c ∈ l, c.start < a ∧ o < c.stop}

/-- The characters that lie in a span. -/
def wholes (l : List Placed) (a b : ℕ) : List Char :=
  (l.filter fun c => a ≤ c.start ∧ c.stop ≤ b).map (·.char)

/-- A span ends inside a character that begins in it. -/
def Cut (l : List Placed) (a b : ℕ) : Prop := ∃ c ∈ l, a ≤ c.start ∧ c.start < b ∧ b < c.stop

instance (l : List Placed) (a b : ℕ) : Decidable (Cut l a b) :=
  inferInstanceAs (Decidable (∃ c ∈ l, _))

/-- The mark at the end of a span that cuts a character. -/
def endMark (l : List Placed) (a b : ℕ) : List Char :=
  if Cut l a b then [Utf8.replacement] else []

section Show

variable {a b : ℕ} {c : Placed} {l : List Placed}

theorem wholes_cons_of_within (h : a ≤ c.start ∧ c.stop ≤ b) :
    wholes (c :: l) a b = c.char :: wholes l a b := by
  simp [wholes, h]

theorem wholes_cons_of_not_within (h : ¬(a ≤ c.start ∧ c.stop ≤ b)) :
    wholes (c :: l) a b = wholes l a b := by
  rw [wholes, List.filter_cons_of_neg (by simpa using h), ← wholes]

theorem endMark_cons_of_cut (h : a ≤ c.start ∧ c.start < b ∧ b < c.stop) :
    endMark (c :: l) a b = [Utf8.replacement] :=
  if_pos ⟨c, List.mem_cons_self, h⟩

theorem endMark_cons_of_not_cut (h : ¬(a ≤ c.start ∧ c.start < b ∧ b < c.stop)) :
    endMark (c :: l) a b = endMark l a b := by
  have hiff : Cut (c :: l) a b ↔ Cut l a b := by simp [Cut, h]
  simp only [endMark, hiff]

/-- Nothing is shown of characters that begin behind a span. -/
theorem show_of_le {offset : ℕ} (h : b ≤ offset) (a line : ℕ) (s : List Char) :
    wholes (placedFrom offset line s) a b = [] ∧ endMark (placedFrom offset line s) a b = [] := by
  constructor
  · refine List.map_eq_nil_iff.mpr (List.filter_eq_nil_iff.mpr fun c hc => ?_)
    have := bounds_of_mem hc
    simp only [decide_eq_true_eq]
    omega
  · refine if_neg ?_
    rintro ⟨c, hc, -, hstart, -⟩
    have := bounds_of_mem hc
    omega

/-- No octets are left of characters that begin in the span or behind it. -/
theorem strays_eq_empty {offset line : ℕ} {s : List Char} (h : a ≤ offset) :
    strays (placedFrom offset line s) a b = ∅ := by
  refine Finset.filter_eq_empty_iff.mpr fun o _ => ?_
  rintro ⟨c, hc, hstart, -⟩
  have := bounds_of_mem hc
  omega

end Show

/-! ## Reading a span -/

/-- A span that begins between characters. -/
theorem decode_take_placed {a b offset line : ℕ} {s : List Char} (ha : a ≤ offset) :
    Utf8.decode ((Utf8.encode s).take (b - offset)) =
      wholes (placedFrom offset line s) a b ++ endMark (placedFrom offset line s) a b := by
  induction s generalizing offset line with
  | nil =>
    rw [List.take_of_length_le (Nat.zero_le _)]
    rfl
  | cons c s ih =>
    have hsize := String.length_utf8EncodeChar c
    rcases Nat.lt_or_ge offset b with hb | hb
    · rw [placedFrom, Utf8.encode_cons, List.take_append, hsize, Nat.sub_sub]
      rcases Nat.lt_or_ge b (offset + c.utf8Size) with hcut | hwhole
      · obtain ⟨hwholes, -⟩ := show_of_le (Nat.le_of_lt hcut) a _ s
        rw [wholes_cons_of_not_within (by dsimp only; omega), hwholes,
          endMark_cons_of_cut ⟨ha, hb, hcut⟩, Nat.sub_eq_zero_of_le (Nat.le_of_lt hcut),
          List.take_zero, List.append_nil]
        exact Utf8.decode_take_encodeChar (by omega) (by omega)
      · rw [List.take_of_length_le (by omega), Utf8.decode, Utf8.decodeFrom_encodeChar,
          wholes_cons_of_within ⟨ha, hwhole⟩, endMark_cons_of_not_cut (by dsimp only; omega)]
        exact congrArg (c :: ·) (ih (Nat.le_add_right_of_le ha))
    · obtain ⟨hwholes, hmark⟩ := show_of_le hb a line (c :: s)
      rw [hwholes, hmark, Nat.sub_eq_zero_of_le hb]
      rfl

/-- A slice of two lists laid end to end is a slice of each. -/
theorem drop_take_append {α : Type} (l l' : List α) (m n : ℕ) :
    ((l ++ l').take n).drop m =
      (l.take n).drop m ++ (l'.take (n - l.length)).drop (m - l.length) := by
  rw [List.take_append, List.drop_append, List.length_take]
  rcases Nat.le_total l.length n with h | h
  · rw [Nat.min_eq_right h]
  · rw [Nat.sub_eq_zero_of_le h, List.take_zero, List.drop_nil, List.drop_nil]

/-- The octets of a character begun before a span that lie in it. -/
theorem card_strays_cons {a b : ℕ} {c : Placed} {l : List Placed} (hc : c.start < a)
    (hl : ∀ d ∈ l, c.stop ≤ d.start) :
    (strays (c :: l) a b).card = min b c.stop - a + (strays l a b).card := by
  rcases Nat.le_or_ge c.stop a with hstop | hstop
  · have heq : strays (c :: l) a b = strays l a b := by
      refine Finset.filter_congr fun o ho => ?_
      have := (Finset.mem_Ico.mp ho).1
      simp only [List.mem_cons, exists_eq_or_imp, or_iff_right_iff_imp]
      omega
    rw [heq]
    omega
  · -- The characters behind `c` begin in the span, so only `c` has octets to spare.
    have hrest : strays l a b = ∅ := by
      refine Finset.filter_eq_empty_iff.mpr fun o _ => ?_
      rintro ⟨d, hd, hstart, -⟩
      have := hl d hd
      omega
    have heq : strays (c :: l) a b = {o ∈ Finset.Ico a b | o < c.stop} := by
      refine Finset.filter_congr fun o _ => ?_
      simp only [List.mem_cons, exists_eq_or_imp, hc, true_and, or_iff_left_iff_imp]
      rintro ⟨d, hd, hstart, -⟩
      have := hl d hd
      omega
    rw [hrest, heq, Finset.Ico_filter_lt, Nat.card_Ico, Finset.card_empty, Nat.add_zero]

theorem decode_slice (a b offset line : ℕ) (s : List Char) :
    Utf8.decode (((Utf8.encode s).take (b - offset)).drop (a - offset)) =
      List.replicate (strays (placedFrom offset line s) a b).card Utf8.replacement ++
        (wholes (placedFrom offset line s) a b ++ endMark (placedFrom offset line s) a b) := by
  induction s generalizing offset line with
  | nil =>
    have hempty : strays (placedFrom offset line []) a b = ∅ := by simp [strays, placedFrom]
    rw [hempty, Utf8.encode, List.flatMap_nil, List.take_nil, List.drop_nil]
    rfl
  | cons c s ih =>
    rcases Nat.lt_or_ge offset a with ha | ha
    · have hsize := String.length_utf8EncodeChar c
      have hrest : ∀ d ∈ placedFrom (offset + c.utf8Size) (if c = '\n' then line + 1 else line) s,
          offset + c.utf8Size ≤ d.start := fun d hd => (bounds_of_mem hd).1
      rw [placedFrom, Utf8.encode_cons, drop_take_append, hsize, Nat.sub_sub, Nat.sub_sub,
        card_strays_cons ha hrest, wholes_cons_of_not_within (by dsimp only; omega),
        endMark_cons_of_not_cut (by dsimp only; omega), Utf8.decode, Utf8.decodeFrom_strays,
        ← Utf8.decode, ih, List.length_drop, List.length_take, hsize, List.replicate_add,
        List.append_assoc]
      · dsimp only
        congr 2
        omega
      · intro x hx
        rw [List.drop_take] at hx
        exact Utf8.first_of_mem_drop (by omega) (List.mem_of_mem_take hx)
    · rw [strays_eq_empty ha, Nat.sub_eq_zero_of_le ha]
      exact decode_take_placed ha

/-! ## Aligned offsets -/

/-- An offset that lies between two characters of a text, or at one of its ends. -/
def Aligned (s : List Char) (offset : ℕ) : Prop :=
  ∃ p t, s = p ++ t ∧ offset = (Utf8.encode p).length

theorem eq_nil_of_length_encode {s : List Char} (h : (Utf8.encode s).length = 0) : s = [] := by
  cases s with
  | nil => rfl
  | cons c s =>
    have := c.utf8Size_pos
    rw [length_encode_cons] at h
    omega

/-- Two aligned offsets cut a text in three. -/
theorem Aligned.between {s : List Char} {a b : ℕ} (ha : Aligned s a) (hb : Aligned s b)
    (h : a ≤ b) : ∃ p m t, s = p ++ (m ++ t) ∧ a = (Utf8.encode p).length ∧
      b = (Utf8.encode (p ++ m)).length := by
  obtain ⟨p, t, rfl, rfl⟩ := ha
  obtain ⟨p', t', hs, rfl⟩ := hb
  rcases List.append_eq_append_iff.mp hs with ⟨m, rfl, rfl⟩ | ⟨m, rfl, rfl⟩
  · exact ⟨p, m, t', rfl, rfl, rfl⟩
  · -- The other way round there is nothing between the two.
    rw [Utf8.encode_append, List.length_append] at h
    obtain rfl := eq_nil_of_length_encode (s := m) (by omega)
    exact ⟨p', [], t, by simp, by simp, by simp⟩

/-- A slice that ends between characters leaves the reader there. -/
theorem decode_drop_append (p : List Char) (a : ℕ) (rest : List UInt8) :
    Utf8.decode ((Utf8.encode p).drop a ++ rest) =
      Utf8.decode ((Utf8.encode p).drop a) ++ Utf8.decode rest := by
  induction p generalizing a with
  | nil =>
    rw [Utf8.encode, List.flatMap_nil, List.drop_nil]
    rfl
  | cons c p ih =>
    unfold Utf8.decode at ih ⊢
    rw [Utf8.encode_cons, List.drop_append, List.append_assoc]
    rcases Nat.eq_zero_or_pos a with rfl | ha
    · rw [List.drop_zero, Utf8.decodeFrom_encodeChar, Utf8.decodeFrom_encodeChar, ih,
        List.cons_append]
    · have hstrays := fun x (hx : x ∈ (String.utf8EncodeChar c).drop a) =>
        Utf8.first_of_mem_drop ha hx
      rw [Utf8.decodeFrom_strays hstrays, Utf8.decodeFrom_strays hstrays, ih, List.append_assoc]

namespace Source

/-- A text between other octets is found again at its place. -/
theorem text_between (s : List Char) (front back : List UInt8) :
    (⟨front ++ (Utf8.encode s ++ back)⟩ : Source).text front.length
      (front.length + (Utf8.encode s).length) = String.ofList s := by
  rw [text, List.take_length_add_append, List.take_left, List.drop_left, Utf8.decode_encode]

/-- Spans that meet between characters show one text. -/
theorem text_append_text {s : List Char} {a m b : ℕ} (hm : Aligned s m) (ha : a ≤ m)
    (hb : m ≤ b) : (ofChars s).text a m ++ (ofChars s).text m b = (ofChars s).text a b := by
  obtain ⟨p, t, rfl, rfl⟩ := hm
  simp only [text, ofChars, Utf8.encode_append, drop_take_append]
  rw [List.take_of_length_le hb, List.take_length, Nat.sub_self, List.take_zero, List.drop_nil,
    List.append_nil, List.drop_length, List.nil_append, Nat.sub_eq_zero_of_le ha, List.drop_zero,
    decode_drop_append, String.ofList_append]

end Source

/-! ## The text of a span -/

/-- A span of a text shows a mark for each of its octets that continue a character begun before it,
the characters that lie in it, and one mark if it ends inside a character that begins in it. So
between aligned offsets it shows what the text has there, spans that meet at an aligned offset show
one text, and no span shows a surrogate. -/
theorem text_of_span (s : List Char) (a b : ℕ) :
    ((Source.ofChars s).text a b).toList =
      List.replicate (strays (placed s) a b).card Utf8.replacement ++
        (wholes (placed s) a b ++ if Cut (placed s) a b then [Utf8.replacement] else []) ∧
    (Aligned s a → Aligned s b → a ≤ b →
      ∃ p m t, s = p ++ (m ++ t) ∧ a = (Utf8.encode p).length ∧ b = (Utf8.encode (p ++ m)).length ∧
        (Source.ofChars s).text a b = String.ofList m) ∧
    (∀ m, Aligned s m → a ≤ m → m ≤ b →
      (Source.ofChars s).text a m ++ (Source.ofChars s).text m b = (Source.ofChars s).text a b) ∧
    ∀ p ∈ Text.ofString ((Source.ofChars s).text a b), ¬p.isSurrogate := by
  refine ⟨?_, fun ha hb hab => ?_, fun m hm => Source.text_append_text hm, fun p hp => ?_⟩
  · rw [Source.text, String.toList_ofList]
    exact decode_slice a b 0 1 s
  · obtain ⟨p, m, t, rfl, rfl, rfl⟩ := ha.between hb hab
    refine ⟨p, m, t, rfl, rfl, rfl, ?_⟩
    rw [Source.ofChars, Utf8.encode_append, Utf8.encode_append, Utf8.encode_append,
      List.length_append]
    exact Source.text_between m _ _
  · obtain ⟨c, -, rfl⟩ := List.mem_map.mp hp
    exact CodePoint.not_isSurrogate_ofChar c

/-- Two octets inside a character are two marks, and its first two are one. -/
example : ((Source.ofChars ['😀']).text 1 3).toList = ['\uFFFD', '\uFFFD'] ∧
    ((Source.ofChars ['😀']).text 0 2).toList = ['\uFFFD'] := by
  decide

end DocSignature
