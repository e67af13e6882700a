import DocSignature.Proofs.Digits

/-!
# Decimal literals

A `DecimalLiteral` is digits with an optional point among them and an optional exponent behind them.
`DecimalLiteral.text` is how it is written and `DecimalLiteral.decimal` what it denotes. Both the
strict reader of digits and the lenient one around it read a literal as just that
(`unsigned?_text`, `read?_text`).
-/

namespace DocSignature

namespace Decimal

/-! ## Digits in base ten -/

theorem digitIn?_ten {c : Char} (h : isDigit c) :
    Numeral.digitIn? 10 c = some (c.toNat - '0'.toNat) := by
  unfold Numeral.digitIn?
  unfold isDigit at h
  have hc : c.toNat ≤ '9'.toNat := by
    rw [← Numeral.char_le_iff]
    simpa using (Bool.and_eq_true_iff.mp h).2
  have hlt : c.toNat - '0'.toNat < 10 := by
    have h₀ : '0'.toNat = 48 := rfl
    have h₉ : '9'.toNat = 57 := rfl
    omega
  simp only [h, if_true, hlt]

theorem isDigit_iff {c : Char} : isDigit c ↔ c ∈ Numeral.digitChars.take 10 := by
  constructor
  · intro h
    have table : ∀ d ∈ Numeral.digitChars, isDigit d → d ∈ Numeral.digitChars.take 10 :=
      List.all_iff_forall_prop.mp (by decide)
    have hdigit : (Numeral.digitIn? 10 c).isSome := by simp [digitIn?_ten h]
    exact table c (Numeral.mem_digitChars hdigit) h
  · have table : ∀ d ∈ Numeral.digitChars.take 10, isDigit d :=
      List.all_iff_forall_prop.mp (by decide)
    exact table c

theorem ne_of_isDigit {c d : Char} (hc : isDigit c) (hd : ¬isDigit d) : c ≠ d := by
  rintro rfl
  exact hd hc

theorem allIn_ten {s : List Char} (h : ∀ c ∈ s, isDigit c) : Numeral.AllIn 10 s :=
  fun c hc => by simp [digitIn?_ten (h c hc)]

/-- The value of digits is their value in base ten. -/
theorem digitsValue_eq {s : List Char} (h : ∀ c ∈ s, isDigit c) :
    digitsValue s = Numeral.valueIn 10 s := by
  have hacc : ∀ acc : Nat, s.foldl (fun n c => 10 * n + (c.toNat - '0'.toNat)) acc =
      s.foldl (fun n c => 10 * n + (Numeral.digitIn? 10 c).getD 0) acc := by
    induction s with
    | nil => exact fun _ => rfl
    | cons c s ih =>
      intro acc
      rw [List.foldl_cons, List.foldl_cons, digitIn?_ten (h c List.mem_cons_self),
        Option.getD_some]
      exact ih (fun c' hc' => h c' (List.mem_cons_of_mem c hc')) _
  exact hacc 0

/-! ## Literals -/

/-- An exponent : a mark, an optional sign and digits. -/
structure Exponent where
  /-- The letter in front. -/
  mark : Char
  /-- Whether there is a sign, and whether it is a minus. -/
  sign : Option Bool
  /-- The digits. -/
  digits : List Char
  mark_eq : mark = 'e' ∨ mark = 'E'
  digits_ne : digits ≠ []
  all_digits : ∀ c ∈ digits, isDigit c

namespace Exponent

/-- The sign as it is written. -/
def signText (e : Exponent) : List Char :=
  match e.sign with
  | none => []
  | some true => ['-']
  | some false => ['+']

/-- The exponent as it is written. -/
def text (e : Exponent) : List Char := e.mark :: (e.signText ++ e.digits)

/-- The power of ten that is meant. -/
def value (e : Exponent) : Int := Numeral.withSign (e.sign == some true) (digitsValue e.digits)

end Exponent

end Decimal

open Decimal

/-- Digits with an optional point and an optional exponent. -/
structure DecimalLiteral where
  /-- The digits before the point. -/
  whole : List Char
  /-- The digits behind the point, if there is one. -/
  fraction : Option (List Char)
  /-- The exponent, if there is one. -/
  exponent : Option Exponent
  whole_digits : ∀ c ∈ whole, isDigit c
  fraction_digits : ∀ c ∈ fraction.getD [], isDigit c
  some_digit : whole ++ fraction.getD [] ≠ []

namespace DecimalLiteral

/-- The point and the digits behind it, as they are written. -/
def pointText (l : DecimalLiteral) : List Char := l.fraction.elim [] ('.' :: ·)

/-- The exponent as it is written. -/
def exponentText (l : DecimalLiteral) : List Char := l.exponent.elim [] Exponent.text

/-- The literal as it is written. -/
def text (l : DecimalLiteral) : List Char := l.whole ++ (l.pointText ++ l.exponentText)

/-- The number that is meant. -/
def decimal (l : DecimalLiteral) : Decimal :=
  ⟨digitsValue (l.whole ++ l.fraction.getD []),
    l.exponent.elim 0 Exponent.value - (l.fraction.getD []).length⟩

end DecimalLiteral

namespace Decimal

/-! ## Reading literals -/

theorem takeWhile_isDigit_append {s rest : List Char} (h : ∀ c ∈ s, isDigit c)
    (hrest : ∀ c ∈ rest.head?, ¬isDigit c) : (s ++ rest).takeWhile isDigit = s := by
  rw [List.takeWhile_append_of_pos h]
  cases rest with
  | nil => simp
  | cons c rest => simp [hrest c rfl]

theorem dropWhile_isDigit_append {s rest : List Char} (h : ∀ c ∈ s, isDigit c)
    (hrest : ∀ c ∈ rest.head?, ¬isDigit c) : (s ++ rest).dropWhile isDigit = rest := by
  rw [List.dropWhile_append_of_pos h]
  cases rest with
  | nil => simp
  | cons c rest => simp [hrest c rfl]

theorem Exponent.not_isDigit_mark (e : Exponent) : ¬isDigit e.mark := by
  rcases e.mark_eq with h | h <;> rw [h] <;> decide

theorem Exponent.splitSign_eq (e : Exponent) :
    Numeral.splitSign (e.signText ++ e.digits) = (e.sign == some true, e.digits) := by
  unfold Exponent.signText
  cases e.sign with
  | none =>
    refine Numeral.splitSign_eq fun c hc => ?_
    have hdigit := e.all_digits c (List.mem_of_mem_head? hc)
    exact ⟨ne_of_isDigit hdigit (by decide), ne_of_isDigit hdigit (by decide)⟩
  | some negative => cases negative <;> rfl

theorem exponentPart?_text (e : Exponent) : exponentPart? e.text = some e.value := by
  have hmark : (e.mark == 'e' || e.mark == 'E') = true := by
    rcases e.mark_eq with h | h <;> rw [h] <;> rfl
  have hall : e.digits.all isDigit = true := List.all_eq_true.mpr e.all_digits
  have hne : e.digits.isEmpty = false := by simpa using e.digits_ne
  simp only [Exponent.text, exponentPart?, e.splitSign_eq, hmark, hall, hne, Bool.not_false,
    Bool.and_self, if_true, Exponent.value]

end Decimal

namespace DecimalLiteral

theorem exponentText_head (l : DecimalLiteral) : ∀ c ∈ l.exponentText.head?, ¬isDigit c := by
  unfold exponentText
  cases l.exponent with
  | none => simp
  | some e => simpa [Exponent.text] using e.not_isDigit_mark

theorem rest_head (l : DecimalLiteral) :
    ∀ c ∈ (l.pointText ++ l.exponentText).head?, ¬isDigit c := by
  unfold pointText
  cases l.fraction with
  | none => simpa using l.exponentText_head
  | some f =>
    rintro c hc
    obtain rfl : '.' = c := by simpa using hc
    decide

theorem splitFraction_text (l : DecimalLiteral) :
    splitFraction (l.pointText ++ l.exponentText) = (l.fraction.getD [], l.exponentText) := by
  have hdigits := l.fraction_digits
  unfold pointText
  cases hf : l.fraction with
  | none =>
    have hpoint : ∀ s, l.exponentText ≠ '.' :: s := by
      unfold exponentText
      cases l.exponent with
      | none => simp
      | some e =>
        rintro s hs
        rcases e.mark_eq with h | h <;> simp [Exponent.text, h] at hs
    simp only [Option.elim_none, List.nil_append, Option.getD_none]
    unfold splitFraction
    split
    · next s hs => exact absurd hs (hpoint s)
    · rfl
  | some f =>
    rw [hf] at hdigits
    simp only [Option.elim_some, List.cons_append, Option.getD_some] at hdigits ⊢
    rw [splitFraction, takeWhile_isDigit_append hdigits l.exponentText_head,
      dropWhile_isDigit_append hdigits l.exponentText_head]

theorem exponentPart?_exponentText (l : DecimalLiteral) :
    exponentPart? l.exponentText = some (l.exponent.elim 0 Exponent.value) := by
  unfold exponentText
  cases l.exponent with
  | none => rfl
  | some e => exact exponentPart?_text e

/-- The strict reader reads a literal as the number that is meant. -/
theorem unsigned?_text (l : DecimalLiteral) : unsigned? l.text = some l.decimal := by
  have hne : (l.whole.isEmpty && (l.fraction.getD []).isEmpty) = false := by
    have := l.some_digit
    rw [ne_eq, List.append_eq_nil_iff] at this
    simpa using this
  rw [unsigned?, text, takeWhile_isDigit_append l.whole_digits l.rest_head,
    dropWhile_isDigit_append l.whole_digits l.rest_head, l.splitFraction_text]
  simp only [hne, Bool.false_eq_true, if_false, l.exponentPart?_exponentText, Option.map_some,
    decimal]

/-- The characters that literals are made of. -/
def literalChars : List Char :=
  ['0', '1', '2', '3', '4', '5', '6', '7', '8', '9', '.', 'e', 'E', '+', '-']

theorem mem_literalChars_of_isDigit {c : Char} (h : isDigit c) : c ∈ literalChars := by
  have table : ∀ c ∈ Numeral.digitChars.take 10, c ∈ literalChars :=
    List.all_iff_forall_prop.mp (by decide)
  exact table c (isDigit_iff.mp h)

theorem mem_literalChars (l : DecimalLiteral) : ∀ c ∈ l.text, c ∈ literalChars := by
  intro c hc
  rw [text, List.mem_append, List.mem_append] at hc
  rcases hc with hc | hc | hc
  · exact mem_literalChars_of_isDigit (l.whole_digits c hc)
  · have hdigits := l.fraction_digits
    unfold pointText at hc
    cases hf : l.fraction with
    | none => simp [hf] at hc
    | some f =>
      rw [hf] at hc hdigits
      rcases List.mem_cons.mp hc with rfl | hc
      · decide
      · exact mem_literalChars_of_isDigit (hdigits c hc)
  · unfold exponentText at hc
    cases he : l.exponent with
    | none => simp [he] at hc
    | some e =>
      rw [he, Option.elim_some, Exponent.text, List.mem_cons, List.mem_append] at hc
      rcases hc with rfl | hc | hc
      · rcases e.mark_eq with h | h <;> rw [h] <;> decide
      · unfold Exponent.signText at hc
        split at hc
        · simp at hc
        · rw [List.mem_singleton.mp hc]
          decide
        · rw [List.mem_singleton.mp hc]
          decide
      · exact mem_literalChars_of_isDigit (e.all_digits c hc)

/-- A literal begins with a digit or with a point. -/
theorem text_eq_cons (l : DecimalLiteral) : ∃ c s, l.text = c :: s ∧ (isDigit c ∨ c = '.') := by
  unfold text
  cases hw : l.whole with
  | cons c s => exact ⟨c, _, rfl, Or.inl (l.whole_digits c (by simp [hw]))⟩
  | nil =>
    have hne := l.some_digit
    unfold pointText
    cases hf : l.fraction with
    | none => simp [hw, hf] at hne
    | some f => exact ⟨'.', _, rfl, Or.inr rfl⟩

/-- The lenient reader reads a literal as the number that is meant. -/
theorem read?_text (l : DecimalLiteral) : read? l.text = some (.finite false l.decimal) := by
  have table : ∀ c ∈ literalChars, Numeral.plain c = c ∧ Text.isBlank c = false :=
    List.all_iff_forall_prop.mp (by decide +kernel)
  have hplain : l.text.map Numeral.plain = l.text :=
    Numeral.map_plain_eq_self fun c hc => (table c (l.mem_literalChars c hc)).1
  have hblank : ∀ c ∈ l.text, Text.isBlank c = false :=
    fun c hc => (table c (l.mem_literalChars c hc)).2
  obtain ⟨c, s, htext, hc⟩ := l.text_eq_cons
  have first : ∀ c ∈ Numeral.digitChars.take 10 ++ ['.'],
      (c ≠ '-' ∧ c ≠ '+') ∧ c.toLower ≠ 'i' ∧ c.toLower ≠ 'n' :=
    List.all_iff_forall_prop.mp (by decide)
  obtain ⟨hnosign, hi, hn⟩ := first c (List.mem_append.mpr (hc.imp isDigit_iff.mp (by simp [·])))
  have hsign : Numeral.splitSign l.text = (false, l.text) :=
    Numeral.splitSign_eq fun d hd => by
      obtain rfl : c = d := by simpa [htext] using hd
      exact hnosign
  -- No literal is one of the words, which all begin with a letter.
  have hword {w : Char} (ws : List Char) (hw : c.toLower ≠ w) :
      (String.ofList (l.text.map Char.toLower) == String.ofList (w :: ws)) = false := by
    rw [beq_eq_false_iff_ne, ne_eq, String.ofList_inj, htext, List.map_cons, List.cons.injEq]
    exact fun h => hw h.1
  have hinf := hword ['n', 'f'] hi
  have hinfinity := hword ['n', 'f', 'i', 'n', 'i', 't', 'y'] hi
  have hnan := hword ['a', 'n'] hn
  rw [read?, hplain, Numeral.trim_eq_self hblank, hsign]
  simp only [show "inf" = String.ofList ['i', 'n', 'f'] from rfl,
    show "infinity" = String.ofList ['i', 'n', 'f', 'i', 'n', 'i', 't', 'y'] from rfl,
    show "nan" = String.ofList ['n', 'a', 'n'] from rfl, hinf, hinfinity, hnan, Bool.or_self,
    Bool.false_eq_true, if_false, l.unsigned?_text, Option.map_some]

end DecimalLiteral

end DocSignature
