import DocSignature.JavaScript.Literal
import DocSignature.Proofs.Grammar

/-!
# The texts of tokens

What the readers of source text take for a number or an escape is one in the sense of the grammar.
The length of a number is the greatest of several lengths, one for each way to write a number; each
of them is that of a `NumberLiteral` if it is not zero, with separators and perhaps an `n` behind
it (`numberText_take`). What is taken behind a backslash is an `EscapeToken` (`escapeToken_take`).
-/

namespace DocSignature.JavaScript

/-! ## Numbers -/

/-- A text without the separators of digits. -/
def bare (s : List Char) : List Char := s.filter (· != '_')

theorem bare_append (s t : List Char) : bare (s ++ t) = bare s ++ bare t := List.filter_append _ _

theorem bare_take_add (m n : ℕ) (t : List Char) :
    bare (t.take (m + n)) = bare (t.take m) ++ bare ((t.drop m).take n) := by
  rw [List.take_add, bare_append]

theorem bare_cons {c : Char} (h : c ≠ '_') (t : List Char) : bare (c :: t) = c :: bare t :=
  List.filter_cons_of_pos (by simpa using h)

section Digits

variable {digit : Char → Bool}

theorem mem_take_digitsBehind (t : List Char) : ∀ c ∈ t.take (digitsBehind digit t),
    c = '_' ∨ digit c = true := by
  induction t using digitsBehind.induct digit with
  | case1 c t hc ih =>
    rw [digitsBehind, if_pos hc]
    exact List.forall_mem_cons.mpr ⟨Or.inl rfl, List.forall_mem_cons.mpr ⟨Or.inr hc, ih⟩⟩
  | case2 c t hc => simp [digitsBehind, hc]
  | case3 c t hsep hc ih =>
    rw [digitsBehind, if_pos hc]
    · exact List.forall_mem_cons.mpr ⟨Or.inr hc, ih⟩
    · exact hsep
  | case4 c t hsep hc => simp [digitsBehind, hc]
  | case5 => simp [digitsBehind]

theorem digit_of_mem_bare {t : List Char} (h : ∀ c ∈ t, c = '_' ∨ digit c = true) :
    ∀ c ∈ bare t, digit c = true := by
  intro c hc
  obtain ⟨hc, hne⟩ := List.mem_filter.mp hc
  exact (h c hc).resolve_left (by simpa using hne)

/-- The digits at the front of a text, without the separators between them. -/
theorem bare_take_digitsLength (hsep : digit '_' = false) {t : List Char}
    (h : 0 < digitsLength digit t) : bare (t.take (digitsLength digit t)) ≠ [] ∧
      ∀ c ∈ bare (t.take (digitsLength digit t)), digit c = true := by
  cases t with
  | nil => simp [digitsLength] at h
  | cons c t =>
    rw [digitsLength] at h ⊢
    split at h
    · next hc =>
      have hne : c ≠ '_' := by
        rintro rfl
        rw [hsep] at hc
        cases hc
      rw [if_pos hc, List.take_succ_cons, bare_cons hne]
      exact ⟨List.cons_ne_nil _ _,
        List.forall_mem_cons.mpr ⟨hc, digit_of_mem_bare (mem_take_digitsBehind t)⟩⟩
    · cases h

end Digits

theorem isSome_digitIn?_sixteen {c : Char} (h : isHex c) : (Numeral.digitIn? 16 c).isSome := by
  simp only [isHex, isDigit, Bool.or_eq_true, Bool.and_eq_true, decide_eq_true_eq,
    Numeral.char_le_iff] at h
  have h₀ : '0'.toNat = 48 := rfl
  have h₉ : '9'.toNat = 57 := rfl
  have ha : 'a'.toNat = 97 := rfl
  have hf : 'f'.toNat = 102 := rfl
  have hA : 'A'.toNat = 65 := rfl
  have hF : 'F'.toNat = 70 := rfl
  simp only [Numeral.digitIn?, Bool.and_eq_true, decide_eq_true_eq, Numeral.char_le_iff]
  split_ifs <;> simp <;> omega

theorem isSome_digitIn?_eight {c : Char} (h : isOctal c) : (Numeral.digitIn? 8 c).isSome := by
  simp only [isOctal, Bool.and_eq_true, decide_eq_true_eq, Numeral.char_le_iff] at h
  have h₀ : '0'.toNat = 48 := rfl
  have h₇ : '7'.toNat = 55 := rfl
  have h₉ : '9'.toNat = 57 := rfl
  simp only [Numeral.digitIn?, Bool.and_eq_true, decide_eq_true_eq, Numeral.char_le_iff]
  split_ifs <;> simp <;> omega

theorem isSome_digitIn?_two {c : Char} (h : (c == '0' || c == '1') = true) :
    (Numeral.digitIn? 2 c).isSome := by
  rcases Bool.or_eq_true_iff.mp h with h | h <;> rw [eq_of_beq h] <;> decide

theorem plus_pos {m n : ℕ} (h : 0 < plus m n) : 0 < m ∧ 0 < n ∧ plus m n = m + n := by
  unfold plus at h ⊢
  split_ifs at h ⊢ with hzero
  · cases h
  · simp only [Bool.or_eq_true, beq_iff_eq, not_or] at hzero
    omega

/-- Digits in another base than ten, behind their mark. -/
theorem exists_marked {digit : Char → Bool} {base : ℕ} {x : Char} {t : List Char}
    (hsep : digit '_' = false) (hx : Numeral.markedBase? x = some base) (hne : x ≠ '_')
    (hdigit : ∀ {c}, digit c = true → (Numeral.digitIn? base c).isSome)
    (h : 0 < plus 2 (digitsLength digit t)) :
    ∃ l : NumberLiteral, bare (('0' :: x :: t).take (plus 2 (digitsLength digit t))) = l.text := by
  obtain ⟨-, hpos, hplus⟩ := plus_pos h
  obtain ⟨hnil, hall⟩ := bare_take_digitsLength hsep hpos
  refine ⟨.marked x base _ hx (fun c hc => hdigit (hall c hc)) hnil, ?_⟩
  rw [hplus, Nat.add_comm, List.take_succ_cons, List.take_succ_cons, bare_cons (by decide),
    bare_cons hne]
  rfl

theorem exists_radix {t : List Char} (h : 0 < radixLength t) :
    ∃ l : NumberLiteral, bare (t.take (radixLength t)) = l.text := by
  unfold radixLength at h ⊢
  split at h
  · next x t =>
    split_ifs at h ⊢ with hhex hoctal hbinary
    · refine exists_marked (by decide) (by simp only [Numeral.markedBase?, hhex, if_true]) ?_
        isSome_digitIn?_sixteen h
      rintro rfl
      revert hhex
      decide
    · refine exists_marked (by decide)
        (by simp only [Numeral.markedBase?, hhex, hoctal, if_true]; rfl) ?_
        isSome_digitIn?_eight h
      rintro rfl
      revert hoctal
      decide
    · refine exists_marked (by decide)
        (by simp only [Numeral.markedBase?, hhex, hoctal, hbinary, if_true]; rfl) ?_
        isSome_digitIn?_two h
      rintro rfl
      revert hbinary
      decide
    · cases h
  · cases h

theorem exists_digits {t : List Char} (h : 0 < digitsLength isDigit t) :
    ∃ l : NumberLiteral, bare (t.take (digitsLength isDigit t)) = l.text := by
  obtain ⟨hnil, hall⟩ := bare_take_digitsLength (by decide) h
  refine ⟨.decimal ⟨_, none, none, hall, by simp, by simpa using hnil⟩, ?_⟩
  simp [NumberLiteral.text, DecimalLiteral.text, DecimalLiteral.pointText,
    DecimalLiteral.exponentText]

theorem exists_exponent {t : List Char} (h : 0 < exponentLength t) :
    ∃ e : Decimal.Exponent, bare (t.take (exponentLength t)) = e.text := by
  unfold exponentLength at h ⊢
  split at h
  · next e t =>
    split_ifs at h ⊢ with he hsign
    · have hmark : e = 'e' ∨ e = 'E' := by simpa using he
      have hne : e ≠ '_' := by rcases hmark with rfl | rfl <;> decide
      obtain ⟨-, hpos, hplus⟩ := plus_pos h
      cases t with
      | nil => simp at hsign
      | cons sign t =>
        obtain ⟨hnil, hall⟩ := bare_take_digitsLength (by decide) hpos
        have hsign' : sign = '+' ∨ sign = '-' := by simpa using hsign
        refine ⟨⟨e, some (sign == '-'), _, hmark, hnil, hall⟩, ?_⟩
        rw [hplus, Nat.add_comm, List.take_succ_cons, List.take_succ_cons, bare_cons hne]
        rcases hsign' with rfl | rfl <;> rfl
    · have hmark : e = 'e' ∨ e = 'E' := by simpa using he
      have hne : e ≠ '_' := by rcases hmark with rfl | rfl <;> decide
      obtain ⟨-, hpos, hplus⟩ := plus_pos h
      obtain ⟨hnil, hall⟩ := bare_take_digitsLength (by decide) hpos
      refine ⟨⟨e, none, _, hmark, hnil, hall⟩, ?_⟩
      rw [hplus, Nat.add_comm, List.take_succ_cons, bare_cons hne]
      rfl
    · cases h
  · cases h

/-- An exponent, if there is one. -/
theorem exists_exponent? (t : List Char) : ∃ e : Option Decimal.Exponent,
    bare (t.take (exponentLength t)) = e.elim [] Decimal.Exponent.text := by
  rcases Nat.eq_zero_or_pos (exponentLength t) with h | h
  · exact ⟨none, by rw [h]; rfl⟩
  · obtain ⟨e, he⟩ := exists_exponent h
    exact ⟨some e, he⟩

/-- A point with the digits and the exponent behind it, of which there may be none. -/
theorem exists_point {t : List Char} (h : 0 < pointLength t) :
    ∃ (fraction : List Char) (e : Option Decimal.Exponent), (∀ c ∈ fraction, isDigit c) ∧
      (fraction = [] → digitsLength isDigit (t.drop 1) = 0) ∧
      bare (t.take (pointLength t)) = '.' :: (fraction ++ e.elim [] Decimal.Exponent.text) := by
  unfold pointLength at h ⊢
  split at h
  · next t =>
    obtain ⟨e, he⟩ := exists_exponent? (t.drop (digitsLength isDigit t))
    refine ⟨bare (t.take (digitsLength isDigit t)), e, ?_, fun hnil => ?_, ?_⟩
    · rcases Nat.eq_zero_or_pos (digitsLength isDigit t) with hzero | hpos
      · rw [hzero]
        nofun
      · exact (bare_take_digitsLength (by decide) hpos).2
    · by_contra hne
      exact (bare_take_digitsLength (by decide) (Nat.pos_of_ne_zero hne)).1 hnil
    · rw [List.take_succ_cons, bare_cons (by decide), bare_take_add, he]
  · cases h

theorem exists_fraction {t : List Char} (h : 0 < fractionLength t) :
    ∃ l : NumberLiteral, bare (t.take (fractionLength t)) = l.text := by
  unfold fractionLength at h ⊢
  split at h
  · next t =>
    split_ifs at h ⊢ with hdigit
    · obtain ⟨fraction, e, hall, hnil, htext⟩ := exists_point h
      have hne : fraction ≠ [] := by
        intro hempty
        cases t with
        | nil => simp at hdigit
        | cons c t =>
          have hc : isDigit c = true := by simpa using hdigit
          simpa [digitsLength, hc] using hnil hempty
      refine ⟨.decimal ⟨[], some fraction, e, nofun, hall, by simpa using hne⟩, ?_⟩
      rw [htext]
      rfl
    · cases h
  · cases h

theorem bare_take_wholeLength {t : List Char} (h : 0 < wholeLength t) :
    bare (t.take (wholeLength t)) ≠ [] ∧ ∀ c ∈ bare (t.take (wholeLength t)), isDigit c := by
  unfold wholeLength at h ⊢
  split at h
  · next c t =>
    split_ifs with hc
    · have hdigit : isDigit c = true := (Bool.and_eq_true_iff.mp hc).1
      have hne : c ≠ '_' := by
        rintro rfl
        revert hdigit
        decide
      rw [List.take_succ_cons, List.take_succ_cons, bare_cons (by decide), bare_cons hne]
      exact ⟨List.cons_ne_nil _ _, List.forall_mem_cons.mpr ⟨by decide,
        List.forall_mem_cons.mpr ⟨hdigit, digit_of_mem_bare (mem_take_digitsBehind t)⟩⟩⟩
    · rw [List.take_succ_cons, bare_cons (by decide)]
      exact ⟨List.cons_ne_nil _ _, List.forall_mem_singleton.mpr (by decide)⟩
  · exact ⟨by decide, List.forall_mem_singleton.mpr (by decide)⟩
  · exact bare_take_digitsLength (by decide) h

theorem exists_wholePoint {t : List Char}
    (h : 0 < plus (wholeLength t) (pointLength (t.drop (wholeLength t)))) :
    ∃ l : NumberLiteral,
      bare (t.take (plus (wholeLength t) (pointLength (t.drop (wholeLength t))))) = l.text := by
  obtain ⟨hwhole, hpoint, hplus⟩ := plus_pos h
  obtain ⟨hnil, hdigits⟩ := bare_take_wholeLength hwhole
  obtain ⟨fraction, e, hall, -, htext⟩ := exists_point hpoint
  refine ⟨.decimal ⟨_, some fraction, e, hdigits, hall, by simp [hnil]⟩, ?_⟩
  rw [hplus, bare_take_add, htext]
  rfl

theorem exists_wholeExponent {t : List Char}
    (h : 0 < plus (wholeLength t) (exponentLength (t.drop (wholeLength t)))) :
    ∃ l : NumberLiteral,
      bare (t.take (plus (wholeLength t) (exponentLength (t.drop (wholeLength t))))) = l.text := by
  obtain ⟨hwhole, hexponent, hplus⟩ := plus_pos h
  obtain ⟨hnil, hdigits⟩ := bare_take_wholeLength hwhole
  obtain ⟨e, htext⟩ := exists_exponent hexponent
  refine ⟨.decimal ⟨_, none, some e, hdigits, nofun, by simpa using hnil⟩, ?_⟩
  rw [hplus, bare_take_add, htext]
  rfl

/-- A literal with an `n` behind it. -/
theorem numberText_big {t : List Char} {n : ℕ}
    (hn : 0 < n → ∃ l : NumberLiteral, bare (t.take n) = l.text)
    (h : 0 < if t[n]? == some 'n' then plus n 1 else 0) :
    NumberText (t.take (if t[n]? == some 'n' then plus n 1 else 0)) := by
  split_ifs at h ⊢ with hmark
  · obtain ⟨hpos, -, hplus⟩ := plus_pos h
    obtain ⟨l, hl⟩ := hn hpos
    refine ⟨l, Or.inr ?_⟩
    change bare _ = _
    have hlast : (t.drop n).take 1 = ['n'] := by
      rw [List.take_one, List.head?_drop, eq_of_beq hmark]
      rfl
    rw [hplus, bare_take_add, hl, hlast]
    rfl
  · cases h

/-- The longest number at the front of a text is a number literal. -/
theorem numberText_take {t : List Char} (h : 0 < numberLength t) :
    NumberText (t.take (numberLength t)) := by
  have hmax : ∀ (lengths : List ℕ) (m : ℕ), lengths.foldl max m ∈ m :: lengths := by
    intro lengths
    induction lengths with
    | nil => simp
    | cons n rest ih =>
      intro m
      rcases List.mem_cons.mp (ih (max m n)) with heq | hmem
      · rw [List.foldl_cons, heq]
        rcases max_choice m n with hm | hn
        · simp [hm]
        · simp [hn]
      · exact List.mem_cons_of_mem m (List.mem_cons_of_mem n hmem)
  have hplain {n : ℕ} (hn : 0 < n → ∃ l : NumberLiteral, bare (t.take n) = l.text) (hpos : 0 < n) :
      NumberText (t.take n) := (hn hpos).imp fun _ => Or.inl
  have hmem : numberLength t ∈ _ := hmax _ 0
  generalize numberLength t = n at h hmem
  simp only [List.mem_cons, List.not_mem_nil, or_false] at hmem
  rcases hmem with rfl | rfl | rfl | rfl | rfl | rfl | rfl | rfl
  · cases h
  · exact hplain exists_radix h
  · exact hplain exists_digits h
  · exact hplain exists_fraction h
  · exact hplain exists_wholePoint h
  · exact hplain exists_wholeExponent h
  · exact numberText_big exists_radix h
  · exact numberText_big exists_digits h

/-! ## Escapes -/

theorem allIn_sixteen {t : List Char} (h : t.all isHex = true) : Numeral.AllIn 16 t :=
  fun c hc => isSome_digitIn?_sixteen (List.all_eq_true.mp h c hc)

/-- What is taken behind a backslash is an escape token. -/
theorem escapeToken_take {t : List Char} {n : ℕ} (h : escapeLength? t = some n) :
    0 < n ∧ EscapeToken ('\\' :: t.take n) := by
  unfold escapeLength? at h
  split at h
  · cases h
  · next t =>
    split_ifs at h with hbyte
    obtain ⟨hlength, hall⟩ := Bool.and_eq_true_iff.mp hbyte
    obtain rfl := Option.some.inj h
    exact ⟨by decide, .escape (.byte (allIn_sixteen hall) (by simpa using hlength))⟩
  · next t =>
    dsimp only at h
    split_ifs at h with hdigits
    simp only [Bool.or_eq_true, List.isEmpty_iff, bne_iff_ne, ne_eq, not_or, not_not] at hdigits
    obtain ⟨hne, hbrace⟩ := hdigits
    obtain rfl := Option.some.inj h
    have htake : t.take ((t.takeWhile isHex).length + 1) = t.takeWhile isHex ++ ['}'] := by
      rw [List.take_add_one, hbrace, ← List.prefix_iff_eq_take.mp (List.takeWhile_prefix isHex)]
      rfl
    refine ⟨by omega, ?_⟩
    rw [List.take_succ_cons, List.take_succ_cons, htake]
    exact .escape (.braces (allIn_sixteen List.all_takeWhile) hne)
  · next t hbraces =>
    split_ifs at h with hunit
    obtain ⟨hlength, hall⟩ := Bool.and_eq_true_iff.mp hunit
    obtain rfl := Option.some.inj h
    exact ⟨by decide, .escape (.unit (allIn_sixteen hall) (by simpa using hlength))⟩
  · next c t hx hbraces hu =>
    split_ifs at h with hoctal hline
    · obtain rfl := Option.some.inj h
      have hprefix : ((c :: t).take 3).takeWhile isOctal <+: c :: t :=
        (List.takeWhile_prefix isOctal).trans (List.take_prefix 3 (c :: t))
      have hne : ((c :: t).take 3).takeWhile isOctal ≠ [] := by simp [hoctal]
      have hlength := (List.takeWhile_prefix (p := isOctal) (l := (c :: t).take 3)).length_le
      rw [← List.prefix_iff_eq_take.mp hprefix]
      refine ⟨List.length_pos_iff.mpr hne, .escape (.octal (fun d hd => ?_) hne ?_)⟩
      · exact isSome_digitIn?_eight (List.all_eq_true.mp List.all_takeWhile d hd)
      · exact hlength.trans (List.length_take_le 3 _)
    · obtain rfl := Option.some.inj h
      obtain ⟨hc, hd⟩ := Bool.and_eq_true_iff.mp hline
      cases t with
      | nil => cases hd
      | cons d t =>
        refine ⟨by decide, .lineEnd (by simpa using hc) ?_⟩
        simpa [isBreak, or_assoc] using hd
    · obtain rfl := Option.some.inj h
      refine ⟨by decide, .escape (.single ?_)⟩
      have hdigits : ∀ d ∈ ['0', '1', '2', '3', '4', '5', '6', '7'], isOctal d = true :=
        List.all_iff_forall_prop.mp (by decide)
      intro hc
      rcases List.mem_cons.mp hc with rfl | hc
      · exact hx rfl
      · rcases List.mem_cons.mp hc with rfl | hc
        · exact hu rfl
        · exact hoctal (hdigits c hc)

end DocSignature.JavaScript
