import DocSignature.Proofs.DecimalText
import DocSignature.Proofs.Nearest

/-!
# Number literals by their notation

A literal denotes a number by the places of its digits (`DecimalLiteral.value`,
`NumberLiteral.value`). `NumberLiteral.Gives` says what each notation gives for it : digits behind
a mark or behind a zero give the number itself, and every other literal gives the number rounded to
the nearest magnitude (`Number.Rounded`), a whole one as a whole number.

`Number.ofLiteral_iff_gives` is that the reader of literals does just this, wherever separators
stand. Two notations of one number can thus give different results, if one of them is rounded and
the other is not. `Number.ofLiteral_eq_iff_of_value_eq` is that they agree exactly where both are
rounded or neither is, or where the number is a magnitude.
-/

namespace DocSignature

/-! ## Digits and points -/

namespace Numeral

theorem markedBase?_le {mark : Char} {base : ℕ} (h : markedBase? mark = some base) : base ≤ 16 := by
  unfold markedBase? at h
  split_ifs at h <;> obtain rfl := Option.some.inj h <;> decide

end Numeral

open Numeral Decimal

namespace DecimalLiteral

/-- The number that is meant : the digits before the point, those behind it, and the power of
ten. -/
def value (l : DecimalLiteral) : ℚ :=
  (positional 10 l.whole + positional 10 (l.fraction.getD []) / 10 ^ (l.fraction.getD []).length) *
    10 ^ l.exponent.elim 0 Exponent.value

theorem digitsValue_eq_positional {s : List Char} (h : ∀ c ∈ s, isDigit c) :
    digitsValue s = positional 10 s := by
  rw [digitsValue_eq h, valueIn_eq_positional (by decide) (allIn_ten h)]

/-- Shifting the point behind the last digit does not change the number. -/
theorem decimal_value (l : DecimalLiteral) : l.decimal.value = l.value := by
  have hten : (10 : ℚ) ^ (l.fraction.getD []).length ≠ 0 := by positivity
  rw [Decimal.value, decimal, digitsValue_append, digitsValue_eq_positional l.whole_digits,
    digitsValue_eq_positional l.fraction_digits, zpow_sub₀ (by norm_num), zpow_natCast, value]
  push_cast
  field_simp

/-- Digits alone mean a whole number. -/
theorem value_of_whole (l : DecimalLiteral) (hfraction : l.fraction = none)
    (hexponent : l.exponent = none) : l.value = positional 10 l.whole := by
  simp [value, hfraction, hexponent, positional]

instance (l : DecimalLiteral) : Decidable l.ZeroLed :=
  decidable_of_iff (Number.isZeroLed l.text) l.isZeroLed_text_iff

theorem ZeroLed.zeroLedBase_eq {l : DecimalLiteral} (h : l.ZeroLed) :
    l.zeroLedBase = if '8' ∈ l.whole ∨ '9' ∈ l.whole then 10 else 8 := by
  have table : ∀ c ∈ digitChars.take 10, (digitIn? 8 c).isSome ↔ ¬(c = '8' ∨ c = '9') :=
    List.all_iff_forall_prop.mp (by decide)
  have hdigit (c : Char) (hc : c ∈ l.whole) : (digitIn? 8 c).isSome ↔ ¬(c = '8' ∨ c = '9') :=
    table c (isDigit_iff.mp (l.whole_digits c hc))
  rw [zeroLedBase, h.text_eq]
  by_cases hten : '8' ∈ l.whole ∨ '9' ∈ l.whole
  · rw [if_pos hten, if_neg]
    intro hall
    rw [List.all_eq_true] at hall
    rcases hten with hmem | hmem
    · exact (hdigit _ hmem).mp (hall _ hmem) (Or.inl rfl)
    · exact (hdigit _ hmem).mp (hall _ hmem) (Or.inr rfl)
  · rw [if_neg hten, if_pos]
    rw [List.all_eq_true]
    intro c hc
    refine (hdigit c hc).mpr ?_
    rintro (rfl | rfl)
    · exact hten (Or.inl hc)
    · exact hten (Or.inr hc)

theorem ZeroLed.valueIn_eq {l : DecimalLiteral} (h : l.ZeroLed) :
    valueIn l.zeroLedBase l.text = positional l.zeroLedBase l.whole := by
  have hbase : l.zeroLedBase ≤ 16 := by
    unfold zeroLedBase
    split_ifs <;> decide
  rw [valueIn_eq_positional hbase h.allIn, h.text_eq]

end DecimalLiteral

/-! ## What a literal gives -/

open Magnitude in
/-- What is given for a number that is rounded : the nearest magnitude, as a whole number if it is
one, and nothing past the largest finite value. -/
inductive Number.Rounded (q : ℚ) : Except Failure Number → Prop
  | whole {x : Magnitude} {n : ℤ} (below : q < overflow) (nearest : Nearest q x)
      (whole : x.value = n) : Rounded q (.ok (.whole n))
  | fraction {x : Magnitude} (below : q < overflow) (nearest : Nearest q x)
      (fraction : ∀ n : ℤ, x.value ≠ n) : Rounded q (.ok (.float (.finite false x)))
  | past (past : overflow ≤ q) : Rounded q (.error (.source (.unknownKind "number")))

/-- What a literal gives. -/
inductive NumberLiteral.Gives : NumberLiteral → Except Failure Number → Prop
  | marked {mark : Char} {base : ℕ} {digits : List Char} {hmark : markedBase? mark = some base}
      {hdigits : AllIn base digits} {hne : digits ≠ []} :
      Gives (.marked mark base digits hmark hdigits hne) (.ok (.whole (positional base digits)))
  | octal {l : DecimalLiteral} (led : l.ZeroLed) (octal : '8' ∉ l.whole ∧ '9' ∉ l.whole) :
      Gives (.decimal l) (.ok (.whole (positional 8 l.whole)))
  | led {l : DecimalLiteral} (led : l.ZeroLed) (ten : '8' ∈ l.whole ∨ '9' ∈ l.whole) :
      Gives (.decimal l) (.ok (.whole (positional 10 l.whole)))
  | rounded {l : DecimalLiteral} {r : Except Failure Number} (led : ¬l.ZeroLed)
      (rounded : Number.Rounded l.value r) : Gives (.decimal l) r

namespace Number

theorem Rounded.unique {q : ℚ} {r r' : Except Failure Number} (h : Rounded q r)
    (h' : Rounded q r') : r = r' := by
  cases h with
  | whole below nearest whole =>
    cases h' with
    | whole below' nearest' whole' =>
      rw [nearest.unique nearest', whole'] at whole
      rw [Int.cast_inj.mp whole]
    | fraction below' nearest' fraction' =>
      rw [nearest.unique nearest'] at whole
      exact absurd whole (fraction' _)
    | past past => exact absurd past (not_le.mpr below)
  | fraction below nearest fraction =>
    cases h' with
    | whole below' nearest' whole' =>
      rw [nearest'.unique nearest] at whole'
      exact absurd whole' (fraction _)
    | fraction below' nearest' fraction' => rw [nearest.unique nearest']
    | past past => exact absurd past (not_le.mpr below)
  | past past =>
    cases h' with
    | whole below' => exact absurd past (not_le.mpr below')
    | fraction below' => exact absurd past (not_le.mpr below')
    | past _ => rfl

/-- A decimal is given rounded. -/
theorem rounded_ofBinary64 (d : Decimal) :
    Rounded d.value (ofBinary64 (Decimal.Reading.finite false d).toBinary64) := by
  cases hround : d.round with
  | none =>
    simp only [Decimal.Reading.toBinary64, hround, ofBinary64]
    exact .past (d.round_eq_none_iff.mp hround)
  | some x =>
    have below : d.value < Magnitude.overflow :=
      not_le.mp fun hle => by simp [d.round_eq_none_iff.mpr hle] at hround
    have nearest := nearest_of_round hround
    cases hwhole : x.whole? with
    | none =>
      simp only [Decimal.Reading.toBinary64, hround, ofBinary64, hwhole]
      exact .fraction below nearest (Magnitude.value_ne_of_whole? hwhole)
    | some n =>
      simp only [Decimal.Reading.toBinary64, hround, ofBinary64, hwhole]
      exact .whole below nearest (Magnitude.value_eq_of_whole? hwhole)

end Number

namespace NumberLiteral

theorem gives_ofPlain (l : NumberLiteral) : l.Gives (Number.ofPlain l.text) := by
  cases l with
  | marked mark base digits hmark hdigits hne =>
    rw [text, Number.ofPlain_marked hmark hdigits hne,
      valueIn_eq_positional (markedBase?_le hmark) hdigits]
    exact .marked
  | decimal l =>
    by_cases led : l.ZeroLed
    · rw [text, Number.ofPlain_zeroLed led, led.valueIn_eq, led.zeroLedBase_eq]
      split_ifs with ten
      · exact .led led ten
      · exact .octal led (not_or.mp ten)
    · refine .rounded led ?_
      rw [text, Number.ofPlain_rounded led, ← l.decimal_value]
      exact Number.rounded_ofBinary64 l.decimal

/-- A literal gives one result. -/
theorem Gives.unique {l : NumberLiteral} {r r' : Except Failure Number} (h : l.Gives r)
    (h' : l.Gives r') : r = r' := by
  cases h with
  | marked =>
    cases h'
    rfl
  | octal led octal =>
    cases h' with
    | octal => rfl
    | led _ ten => exact absurd ten (not_or.mpr octal)
    | rounded led' => exact absurd led led'
  | led led ten =>
    cases h' with
    | octal _ octal => exact absurd ten (not_or.mpr octal)
    | led => rfl
    | rounded led' => exact absurd led led'
  | rounded led rounded =>
    cases h' with
    | octal led' => exact absurd led' led
    | led led' => exact absurd led' led
    | rounded _ rounded' => exact rounded.unique rounded'

theorem Gives.ne_bigint {l : NumberLiteral} {r : Except Failure Number} (h : l.Gives r) :
    r ≠ .error (.source (.unknownKind "bigint")) := by
  cases h with
  | marked => simp
  | octal => simp
  | led => simp
  | rounded _ rounded => cases rounded <;> simp

end NumberLiteral

/-- The last character that is left by a filter is the last one, if that is left. -/
theorem getLast?_filter_of_last {α : Type} {p : α → Bool} {s : List α} (h : ∀ c ∈ s.getLast?, p c) :
    (s.filter p).getLast? = s.getLast? := by
  rcases List.eq_nil_or_concat s with rfl | ⟨s, c, rfl⟩
  · rfl
  · simp [List.filter_append, h c (by simp)]

/-- A number literal with an `n` at its end, separators apart, has no description, and no other
literal fails like that. Without the `n` it gives what its notation says, and nothing else. Where
separators stand does not count. -/
theorem Number.ofLiteral_iff_gives (s : List Char) (h : NumberText s) :
    (ofLiteral s = .error (.source (.unknownKind "bigint")) ↔
      (s.filter (· != '_')).getLast? = some 'n') ∧
    (s.getLast? ≠ some '_' →
      (ofLiteral s = .error (.source (.unknownKind "bigint")) ↔ s.getLast? = some 'n')) ∧
    (∀ l : NumberLiteral, s.filter (· != '_') = l.text → ∀ r, ofLiteral s = r ↔ l.Gives r) ∧
    ∀ s' : List Char, s'.filter (· != '_') = s.filter (· != '_') → ofLiteral s' = ofLiteral s := by
  have hgives (l : NumberLiteral) (hl : s.filter (· != '_') = l.text) : l.Gives (ofLiteral s) := by
    rw [ofLiteral_eq hl]
    exact l.gives_ofPlain
  have hbigint : ofLiteral s = .error (.source (.unknownKind "bigint")) ↔
      (s.filter (· != '_')).getLast? = some 'n' := by
    obtain ⟨l, hl | hl⟩ := h
    · refine iff_of_false (hgives l hl).ne_bigint fun hn => ?_
      rw [hl] at hn
      exact l.not_mem_text (List.mem_of_getLast? hn)
    · refine iff_of_true (ofLiteral_bigint hl) ?_
      rw [hl, List.getLast?_concat]
  refine ⟨hbigint, fun hlast => ?_, fun l hl r => ?_, fun s' hs' => ?_⟩
  · rw [hbigint, getLast?_filter_of_last]
    intro c hc
    rw [bne_iff_ne]
    rintro rfl
    exact hlast hc
  · constructor
    · rintro rfl
      exact hgives l hl
    · exact (hgives l hl).unique
  · rw [ofLiteral, ofLiteral, hs']

/-- A number half way between two magnitudes, the lesser of which has an even significand. -/
def halfwayLiteral : DecimalLiteral :=
  ⟨"9007199254740993".toList, none, none, List.all_iff_forall_prop.mp (by decide), by simp,
    by decide⟩

/-- The literal as it may be written with separators. -/
def halfwayText : List Char := "9_007_199_254_740_993".toList

theorem halfwayText_filter :
    halfwayText.filter (· != '_') = (NumberLiteral.decimal halfwayLiteral).text := by
  decide

/-- It gives the lesser of the two. -/
theorem Number.ofLiteral_halfwayText : NumberText halfwayText ∧
    Number.ofLiteral halfwayText = .ok (.whole 9007199254740992) ∧
    (NumberLiteral.decimal halfwayLiteral).Gives (.ok (.whole 9007199254740992)) := by
  have htext : NumberText halfwayText := ⟨.decimal halfwayLiteral, Or.inl halfwayText_filter⟩
  have hvalue : ofLiteral halfwayText = .ok (.whole 9007199254740992) := by decide +kernel
  refine ⟨htext, hvalue, ?_⟩
  exact ((ofLiteral_iff_gives halfwayText htext).2.2.1 _ halfwayText_filter _).mp hvalue

/-! ## Two notations of one number -/

namespace NumberLiteral

/-- The number that a literal denotes. -/
def value : NumberLiteral → ℚ
  | .marked _ base digits .. => positional base digits
  | .decimal l =>
    if l.ZeroLed then positional (if '8' ∈ l.whole ∨ '9' ∈ l.whole then 10 else 8) l.whole
    else l.value

/-- A notation whose numbers are not rounded : digits behind a mark or behind a zero. -/
def Exact : NumberLiteral → Prop
  | .marked .. => True
  | .decimal l => l.ZeroLed

theorem Gives.of_exact {l : NumberLiteral} {r : Except Failure Number} (h : l.Gives r)
    (exact : l.Exact) : ∃ n : ℕ, l.value = n ∧ r = .ok (.whole n) := by
  cases h with
  | marked => exact ⟨_, rfl, rfl⟩
  | octal led octal => exact ⟨_, by rw [value, if_pos led, if_neg (not_or.mpr octal)], rfl⟩
  | led led ten => exact ⟨_, by rw [value, if_pos led, if_pos ten], rfl⟩
  | rounded led _ => exact absurd exact led

theorem Gives.of_not_exact {l : NumberLiteral} {r : Except Failure Number} (h : l.Gives r)
    (exact : ¬l.Exact) : Number.Rounded l.value r := by
  cases h with
  | marked => exact (exact trivial).elim
  | octal led _ => exact absurd led exact
  | led led _ => exact absurd led exact
  | rounded led rounded =>
    rw [value, if_neg led]
    exact rounded

end NumberLiteral

/-- A whole number is given as it is if it is a magnitude. -/
theorem Number.Rounded.eq_whole_iff {n : ℕ} {r : Except Failure Number} (h : Rounded n r) :
    r = .ok (.whole n) ↔ ∃ x : Magnitude, x.Canonical ∧ x.value = n := by
  constructor
  · rintro rfl
    cases h with
    | whole _ nearest whole => exact ⟨_, nearest.canonical, whole.trans (Int.cast_natCast n)⟩
  · rintro ⟨y, hy, hvalue⟩
    cases h with
    | @whole _ m _ nearest whole =>
      rw [nearest.value_eq hy hvalue] at whole
      have hm : (n : ℤ) = m := by exact_mod_cast whole
      rw [hm]
    | fraction _ nearest fraction => exact absurd (nearest.value_eq hy hvalue) (fraction n)
    | past past => exact absurd (hvalue ▸ past) (not_le.mpr hy.value_lt_overflow)

/-- Two literals of the same number give the same, exactly if their notations are both rounded or
both not, or if the number is a magnitude, so that rounding keeps it. -/
theorem Number.ofLiteral_eq_iff_of_value_eq (s₁ s₂ : List Char) (l₁ l₂ : NumberLiteral)
    (h₁ : s₁.filter (· != '_') = l₁.text) (h₂ : s₂.filter (· != '_') = l₂.text)
    (hvalue : l₁.value = l₂.value) :
    ofLiteral s₁ = ofLiteral s₂ ↔
      (l₁.Exact ↔ l₂.Exact) ∨ ∃ x : Magnitude, x.Canonical ∧ x.value = l₁.value := by
  have gives₁ := l₁.gives_ofPlain
  have gives₂ := l₂.gives_ofPlain
  rw [ofLiteral_eq h₁, ofLiteral_eq h₂]
  generalize ofPlain l₁.text = r₁, ofPlain l₂.text = r₂ at gives₁ gives₂
  by_cases exact₁ : l₁.Exact <;> by_cases exact₂ : l₂.Exact
  · obtain ⟨n₁, hn₁, rfl⟩ := gives₁.of_exact exact₁
    obtain ⟨n₂, hn₂, rfl⟩ := gives₂.of_exact exact₂
    have hn : n₁ = n₂ := by
      rw [hn₁, hn₂] at hvalue
      exact_mod_cast hvalue
    exact iff_of_true (by rw [hn]) (Or.inl (iff_of_true exact₁ exact₂))
  · obtain ⟨n, hn, rfl⟩ := gives₁.of_exact exact₁
    have rounded := gives₂.of_not_exact exact₂
    rw [← hvalue, hn] at rounded
    simp only [exact₁, exact₂, iff_false, not_true_eq_false, false_or, hn]
    rw [eq_comm]
    exact rounded.eq_whole_iff
  · obtain ⟨n, hn, rfl⟩ := gives₂.of_exact exact₂
    have rounded := gives₁.of_not_exact exact₁
    rw [hvalue, hn] at rounded
    simp only [exact₁, exact₂, iff_true, false_or, hvalue, hn]
    exact rounded.eq_whole_iff
  · have rounded := gives₁.of_not_exact exact₁
    rw [hvalue] at rounded
    exact iff_of_true (rounded.unique (gives₂.of_not_exact exact₂))
      (Or.inl (iff_of_false exact₁ exact₂))

/-- The number of `halfwayLiteral` in base sixteen. -/
def halfwayMarked : NumberLiteral :=
  .marked 'x' 16 "20000000000001".toList rfl (List.all_iff_forall_prop.mp (by decide)) (by decide)

theorem value_halfwayMarked :
    halfwayMarked.value = (NumberLiteral.decimal halfwayLiteral).value := by
  have hled : ¬halfwayLiteral.ZeroLed := by decide +kernel
  have hdecimal := halfwayLiteral.value_of_whole rfl rfl
  have hdigits : positional 16 "20000000000001".toList = positional 10 halfwayLiteral.whole := by
    decide +kernel
  rw [NumberLiteral.value, if_neg hled, hdecimal, ← hdigits]
  rfl

/-- The two notations give the same exactly if the number is a magnitude, for one of them is rounded
and the other is not. -/
theorem Number.ofLiteral_halfway_iff :
    halfwayMarked.value = (NumberLiteral.decimal halfwayLiteral).value ∧
    (ofLiteral halfwayMarked.text = ofLiteral halfwayText ↔
      (halfwayMarked.Exact ↔ (NumberLiteral.decimal halfwayLiteral).Exact) ∨
        ∃ x : Magnitude, x.Canonical ∧ x.value = halfwayMarked.value) :=
  ⟨value_halfwayMarked, ofLiteral_eq_iff_of_value_eq halfwayMarked.text halfwayText halfwayMarked
    (.decimal halfwayLiteral) (by decide) halfwayText_filter value_halfwayMarked⟩

/-- It is none, and they differ. -/
theorem Number.ofLiteral_halfway_ne :
    halfwayMarked.text = "0x20000000000001".toList ∧
    (NumberLiteral.decimal halfwayLiteral).text = "9007199254740993".toList ∧
    halfwayMarked.value = (NumberLiteral.decimal halfwayLiteral).value ∧
    ofLiteral halfwayMarked.text = .ok (.whole 9007199254740993) ∧
    ofLiteral (NumberLiteral.decimal halfwayLiteral).text = .ok (.whole 9007199254740992) := by
  refine ⟨by decide, by decide, value_halfwayMarked, ?_, ?_⟩
  · decide +kernel
  · decide +kernel

end DocSignature
