import DocSignature.Proofs.Grammar
import DocSignature.Proofs.Rounding

/-!
# Values of number literals

Literals behind a mark such as `0x`, and digits behind a zero (`DecimalLiteral.ZeroLed`), are read
exactly. All others are rounded, and a number from `Magnitude.overflow` on rounds past the largest
finite value (`Decimal.round_eq_none_iff`). So a literal has a value unless it `Overflows`
(`Number.ofPlain_eq_ok`, `Number.ofPlain_of_overflows`), and a text that ends in `n` has none
(`Number.ofLiteral_bigint`).
-/

namespace DocSignature

open Decimal

/-! ## Past the largest value -/

namespace Magnitude

/-- The least number that rounds past the largest finite value : half a unit above that value. -/
def overflow : ℚ := 2 ^ (1024 : ℤ) - 2 ^ (970 : ℤ)

theorem overflow_eq : overflow = (2 * leadingBit - 1 / 2) * 2 ^ greatestExponent := by
  rw [overflow, leadingBit_eq, greatestExponent, sub_mul, ← two_zpow_succ,
    ← zpow_add₀ (by norm_num), show (971 : ℤ) = 970 + 1 from rfl, two_zpow_succ]
  ring_nf

theorem exponent_carry_le (m : ℕ) (e : ℤ) : (carry m e).exponent ≤ e + 1 := by
  unfold carry
  split_ifs
  · exact le_refl _
  · exact (lt_add_one e).le

theorem le_exponent_carry (m : ℕ) (e : ℤ) : e ≤ (carry m e).exponent := by
  unfold carry
  split_ifs
  · exact (lt_add_one e).le
  · exact le_refl _

/-- In the unit of the largest value, a number rounds past it if its significand has one bit too
many. -/
theorem eq_two_mul_leadingBit_iff {x : ℚ} {m : ℕ} (hx : x < 2 * leadingBit)
    (hm : NearestEven x m) : m = 2 * leadingBit ↔ 2 * leadingBit - 1 / 2 ≤ x := by
  rw [nearestEven_iff] at hm
  constructor
  · rintro rfl
    have := hm.1.1
    push_cast at this
    exact this
  · intro hle
    -- Between the last odd number and its successor the half goes to the even one.
    have hlt : (m : ℚ) < (2 * leadingBit + 1 : ℕ) := by
      push_cast
      linarith [hm.1.1]
    have hge : (2 * leadingBit : ℕ) ≤ (m + 1 : ℚ) := by
      push_cast
      linarith [hm.1.2]
    have hlt' := Nat.cast_lt.mp hlt
    have hge' : 2 * leadingBit ≤ m + 1 := by exact_mod_cast hge
    by_contra hne
    have hodd : m % 2 = 1 := by omega
    have hsucc : (m : ℚ) + 1 = 2 * leadingBit := by
      have : m + 1 = 2 * leadingBit := by omega
      exact_mod_cast this
    linarith [(hm.2 hodd).2]

/-- A number rounds to a finite value if it is below the bound. -/
theorem UnitFor.exponent_carry_le_iff {q : ℚ} {e : ℤ} {m : ℕ} (he : UnitFor q e)
    (hm : NearestEven (q / 2 ^ e) m) :
    (carry m e).exponent ≤ greatestExponent ↔ q < overflow := by
  have hpos := two_zpow_pos greatestExponent
  have hbit : (1 : ℚ) < leadingBit := by norm_num [leadingBit]
  rw [overflow_eq]
  rcases lt_trichotomy e greatestExponent with hlt | rfl | hgt
  · -- The unit is too small for the number to reach the bound.
    have hunit : (2 : ℚ) ^ (e + 1) ≤ 2 ^ greatestExponent := zpow_le_zpow_right₀ (by norm_num) hlt
    have hq : q < (2 * leadingBit - 1 / 2) * 2 ^ greatestExponent := by
      calc q < 2 * leadingBit * 2 ^ e := he.lt
        _ = leadingBit * 2 ^ (e + 1) := by
          rw [two_zpow_succ]
          ring
        _ ≤ (2 * leadingBit - 1 / 2) * 2 ^ greatestExponent :=
          mul_le_mul (by linarith) hunit (two_zpow_pos _).le (by linarith)
    exact iff_of_true ((exponent_carry_le m e).trans hlt) hq
  · have hx : q / 2 ^ greatestExponent < 2 * leadingBit := (div_lt_iff₀ hpos).mpr he.lt
    rw [← div_lt_iff₀ hpos, ← not_le, ← eq_two_mul_leadingBit_iff hx hm]
    unfold carry
    split_ifs with h
    · simp [h]
    · simp [h]
  · -- The unit is so large that the least number in it is past the bound.
    have hleast : e ≠ leastExponent := by
      rintro rfl
      exact absurd hgt (by decide)
    have hunit : (2 : ℚ) ^ (greatestExponent + 1) ≤ 2 ^ e := zpow_le_zpow_right₀ (by norm_num) hgt
    have hq : (2 * leadingBit - 1 / 2) * 2 ^ greatestExponent ≤ q := by
      calc (2 * leadingBit - 1 / 2 : ℚ) * 2 ^ greatestExponent
          ≤ leadingBit * 2 ^ (greatestExponent + 1) := by
            rw [two_zpow_succ]
            linarith
        _ ≤ leadingBit * 2 ^ e := mul_le_mul_of_nonneg_left hunit (by linarith)
        _ ≤ q := he.le.resolve_left hleast
    exact iff_of_false (not_le.mpr (hgt.trans_le (le_exponent_carry m e))) (not_lt.mpr hq)

theorem overflow_pos : 0 < overflow := by
  rw [overflow_eq]
  have hbit : (1 : ℚ) < leadingBit := by norm_num [leadingBit]
  exact mul_pos (by linarith) (two_zpow_pos _)

theorem roundRatio_eq_none_iff (num : ℕ) {den : ℕ} (hden : den ≠ 0) :
    roundRatio num den = none ↔ overflow ≤ num / den := by
  by_cases hnum : num = 0
  · simp [roundRatio, hnum, overflow_pos]
  · have he := unitFor_log2Ratio hnum hden
    generalize max (log2Ratio num den - 52) leastExponent = e at he
    have hm := nearestEven_roundDiv (scaleDown num den e).1
      (scaleDown_pos (Nat.pos_of_ne_zero hden) num e)
    rw [scaleDown_ratio] at hm
    have hle := he.exponent_carry_le_iff hm
    rw [roundRatio_eq hnum hden he hm]
    split_ifs with h
    · simpa using hle.mp h
    · simpa using mt hle.mpr h

theorem overflow_lt_ten_zpow : overflow < 10 ^ (310 : ℤ) :=
  (sub_lt_self _ (two_zpow_pos 970)).trans Decimal.two_zpow_lt_ten_zpow

theorem ten_zpow_lt_overflow : (10 : ℚ) ^ (-330 : ℤ) < overflow := by
  have hbit : (1 : ℚ) ≤ 2 * leadingBit - 1 / 2 := by norm_num [leadingBit]
  calc (10 : ℚ) ^ (-330 : ℤ) < 2 ^ (-1075 : ℤ) := Decimal.ten_zpow_lt_two_zpow
    _ ≤ 2 ^ greatestExponent := zpow_le_zpow_right₀ (by norm_num) (by decide)
    _ ≤ (2 * leadingBit - 1 / 2) * 2 ^ greatestExponent :=
      le_mul_of_one_le_left (two_zpow_pos _).le hbit
    _ = overflow := overflow_eq.symm

end Magnitude

/-- A decimal rounds past the largest finite value exactly from the bound on. -/
theorem Decimal.round_eq_none_iff (d : Decimal) :
    d.round = none ↔ Magnitude.overflow ≤ d.value := by
  have hratio := Magnitude.roundRatio_eq_none_iff d.ratio.1 d.ratio_den_ne
  rw [d.ratio_value] at hratio
  unfold round
  dsimp only
  split_ifs with hsmall hlarge
  · -- Next to nothing
    refine iff_of_false (by simp) (not_le.mpr ?_)
    rcases Bool.or_eq_true_iff.mp hsmall with hzero | htop
    · have hdigits : d.digits = 0 := by simpa using hzero
      rw [value, hdigits, Nat.cast_zero, zero_mul]
      exact Magnitude.overflow_pos
    · have htop : d.exponent + width d.digits ≤ -330 := by
        have : d.exponent + width d.digits < -330 := by simpa using htop
        exact this.le
      calc d.value < 10 ^ (d.exponent + width d.digits) := d.value_lt
        _ ≤ 10 ^ (-330 : ℤ) := zpow_le_zpow_right₀ (by norm_num) htop
        _ ≤ Magnitude.overflow := Magnitude.ten_zpow_lt_overflow.le
  · have hdigits : d.digits ≠ 0 := by
      intro hzero
      simp [hzero] at hsmall
    refine iff_of_true rfl ?_
    calc Magnitude.overflow ≤ 10 ^ (310 : ℤ) := Magnitude.overflow_lt_ten_zpow.le
      _ ≤ 10 ^ (d.exponent + width d.digits - 1) := zpow_le_zpow_right₀ (by norm_num) (by omega)
      _ ≤ d.value := le_value hdigits
  · exact hratio

/-! ## Digits behind a zero -/

namespace DecimalLiteral

/-- Digits alone, and more than one, the first of which is a zero. Such a literal is not rounded. -/
structure ZeroLed (l : DecimalLiteral) : Prop where
  head : l.whole.head? = some '0'
  length : 1 < l.whole.length
  fraction : l.fraction = none
  exponent : l.exponent = none

theorem ZeroLed.text_eq {l : DecimalLiteral} (h : l.ZeroLed) : l.text = l.whole := by
  simp [text, pointText, exponentText, h.fraction, h.exponent]

theorem isZeroLed_text_iff (l : DecimalLiteral) : Number.isZeroLed l.text ↔ l.ZeroLed := by
  have hdigit : ∀ c ∈ Numeral.digitChars.take 10, (Text.digit? c).isSome :=
    List.all_iff_forall_prop.mp (by decide +kernel)
  have hother : ∀ c ∈ ['.', 'e', 'E'], ¬(Text.digit? c).isSome :=
    List.all_iff_forall_prop.mp (by decide +kernel)
  simp only [Number.isZeroLed, Bool.and_eq_true, decide_eq_true_eq, beq_iff_eq, List.all_eq_true]
  constructor
  · rintro ⟨⟨hlength, hhead⟩, hall⟩
    have hfraction : l.fraction = none := by
      cases hf : l.fraction with
      | none => rfl
      | some f => exact absurd (hall '.' (by simp [text, pointText, hf])) (hother '.' (by simp))
    have hexponent : l.exponent = none := by
      cases he : l.exponent with
      | none => rfl
      | some e =>
        refine absurd (hall e.mark (by simp [text, exponentText, Exponent.text, he])) ?_
        exact hother e.mark (by rcases e.mark_eq with h | h <;> simp [h])
    have htext : l.text = l.whole := by
      simp [text, pointText, exponentText, hfraction, hexponent]
    rw [htext] at hlength hhead
    exact ⟨hhead, hlength, hfraction, hexponent⟩
  · intro h
    rw [h.text_eq]
    exact ⟨⟨h.length, h.head⟩, fun c hc => hdigit c (isDigit_iff.mp (l.whole_digits c hc))⟩

/-- The base of digits behind a zero : eight, unless there is an eight or a nine among them. -/
def zeroLedBase (l : DecimalLiteral) : ℕ :=
  if l.text.all fun c => (Numeral.digitIn? 8 c).isSome then 8 else 10

theorem ZeroLed.allIn {l : DecimalLiteral} (h : l.ZeroLed) :
    Numeral.AllIn l.zeroLedBase l.text := by
  unfold zeroLedBase
  split_ifs with hoctal
  · exact List.all_eq_true.mp hoctal
  · rw [h.text_eq]
    exact allIn_ten l.whole_digits

end DecimalLiteral

/-- A literal overflows if it is rounded, and past the largest finite value. -/
def NumberLiteral.Overflows : NumberLiteral → Prop
  | .marked .. => False
  | .decimal l => ¬l.ZeroLed ∧ Magnitude.overflow ≤ l.decimal.value

theorem NumberLiteral.not_mem_text (l : NumberLiteral) : 'n' ∉ l.text := by
  intro hn
  cases l with
  | marked mark base digits hmark hdigits hne =>
    simp only [text, List.mem_cons] at hn
    rcases hn with hn | rfl | hn
    · exact absurd hn (by decide)
    · simp [Numeral.markedBase?] at hmark
    · exact absurd (hdigits.mem_digitChars _ hn) (by decide)
  | decimal l => exact absurd (l.mem_literalChars _ hn) (by decide)

/-! ## Reading -/

namespace Number

theorem ofWhole_whole? {base : ℕ} {s : List Char} (h : Numeral.AllIn base s) (hne : s ≠ []) :
    ofWhole (Numeral.whole? base s) = .ok (.whole (Numeral.valueIn base s)) := by
  rw [Numeral.whole?_eq h hne]
  rfl

/-- Digits behind a mark are read in its base. -/
theorem ofPlain_marked {mark : Char} {base : ℕ} {digits : List Char}
    (hmark : Numeral.markedBase? mark = some base) (hdigits : Numeral.AllIn base digits)
    (hne : digits ≠ []) :
    ofPlain ('0' :: mark :: digits) = .ok (.whole (Numeral.valueIn base digits)) := by
  have hmem := hdigits.mem_digitChars
  have hblank : ∀ c ∈ '0' :: digits, Text.isBlank c = false := by
    intro c hc
    rcases List.mem_cons.mp hc with rfl | hc
    · decide
    · exact Numeral.not_isBlank_of_mem c (hmem c hc)
  simp only [ofPlain, hmark]
  rw [Numeral.map_plain_eq_self fun c hc => Numeral.plain_of_mem c (hmem c hc),
    Numeral.trim_eq_self hblank, List.drop_one, List.tail_cons]
  exact ofWhole_whole? hdigits hne

/-- No character of a decimal literal is a mark, so only a zero in front counts. -/
theorem ofPlain_decimal (l : DecimalLiteral) : ofPlain l.text =
    if isZeroLed l.text then ofWhole (Numeral.whole? l.zeroLedBase (l.text.map Numeral.plain))
    else ofDecimal l.text := by
  have table : ∀ c ∈ DecimalLiteral.literalChars, Numeral.markedBase? c = none :=
    List.all_iff_forall_prop.mp (by decide)
  unfold ofPlain
  split
  · next mark digits htext =>
    have hmark : Numeral.markedBase? mark = none :=
      table mark (l.mem_literalChars mark (by simp [htext]))
    simp only [hmark]
    rfl
  · next hshort =>
    rw [if_neg]
    intro hzero
    have hled := l.isZeroLed_text_iff.mp hzero
    have hhead := hled.head
    have hlength := hled.length
    rw [← hled.text_eq] at hhead hlength
    rcases htext : l.text with _ | ⟨c, _ | ⟨d, s⟩⟩
    · simp [htext] at hlength
    · simp [htext] at hlength
    · obtain rfl : c = '0' := by simpa [htext] using hhead
      exact hshort d s htext

theorem ofPlain_zeroLed {l : DecimalLiteral} (h : l.ZeroLed) :
    ofPlain l.text = .ok (.whole (Numeral.valueIn l.zeroLedBase l.text)) := by
  have hne : l.text ≠ [] := by
    obtain ⟨c, s, htext, -⟩ := l.text_eq_cons
    simp [htext]
  have hplain : l.text.map Numeral.plain = l.text :=
    Numeral.map_plain_eq_self fun c hc => Numeral.plain_of_mem c (h.allIn.mem_digitChars c hc)
  rw [ofPlain_decimal, if_pos (l.isZeroLed_text_iff.mpr h), hplain]
  exact ofWhole_whole? h.allIn hne

theorem ofPlain_rounded {l : DecimalLiteral} (h : ¬l.ZeroLed) :
    ofPlain l.text = ofBinary64 (Decimal.Reading.finite false l.decimal).toBinary64 := by
  rw [ofPlain_decimal, if_neg (mt l.isZeroLed_text_iff.mp h), ofDecimal, l.read?_text]

theorem ofPlain_of_overflows {l : NumberLiteral} (h : l.Overflows) :
    ofPlain l.text = .error (.source (.unknownKind "number")) := by
  cases l with
  | marked mark base digits hmark hdigits hne => exact h.elim
  | decimal l =>
    have hround : l.decimal.round = none := l.decimal.round_eq_none_iff.mpr h.2
    rw [NumberLiteral.text, ofPlain_rounded h.1, Reading.toBinary64, hround]
    rfl

/-- A literal that does not overflow has a value. -/
theorem ofPlain_eq_ok {l : NumberLiteral} (h : ¬l.Overflows) : ∃ n, ofPlain l.text = .ok n := by
  cases l with
  | marked mark base digits hmark hdigits hne => exact ⟨_, ofPlain_marked hmark hdigits hne⟩
  | decimal l =>
    by_cases hzero : l.ZeroLed
    · exact ⟨_, ofPlain_zeroLed hzero⟩
    · have hbelow : ¬Magnitude.overflow ≤ l.decimal.value := fun hle => h ⟨hzero, hle⟩
      obtain ⟨size, hsize⟩ :=
        Option.ne_none_iff_exists'.mp (mt l.decimal.round_eq_none_iff.mp hbelow)
      rw [NumberLiteral.text, ofPlain_rounded hzero, Reading.toBinary64, hsize]
      simp only [ofBinary64]
      cases size.whole? with
      | some n => exact ⟨_, rfl⟩
      | none => exact ⟨_, rfl⟩

/-- Separators do not count. -/
theorem ofLiteral_eq {s : List Char} {l : NumberLiteral} (h : s.filter (· != '_') = l.text) :
    ofLiteral s = ofPlain l.text := by
  have hlast : ¬(l.text.getLast? == some 'n') := by
    rw [beq_iff_eq]
    exact fun hn => l.not_mem_text (List.mem_of_getLast? hn)
  rw [ofLiteral, h, if_neg hlast]

theorem ofLiteral_bigint {s : List Char} {l : NumberLiteral}
    (h : s.filter (· != '_') = l.text ++ ['n']) :
    ofLiteral s = .error (.source (.unknownKind "bigint")) := by
  simp [ofLiteral, h]

end Number

end DocSignature
