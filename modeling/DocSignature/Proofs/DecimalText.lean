import DocSignature.Proofs.ShortestDecimal
import Mathlib.Data.List.TakeWhile

/-!
# The text of a decimal

A decimal is written as a literal of the same value (`DecimalLayout.render_eq_text`). The literal
is `DecimalLiteral.Strict` : no zero leads other digits, digits follow the point, and there is a
point or an exponent, so that it cannot be taken for a whole number.
-/

namespace DocSignature

open Decimal

/-! ## Digits -/

namespace Decimal

theorem digitsValue_append (s t : List Char) :
    digitsValue (s ++ t) = digitsValue s * 10 ^ t.length + digitsValue t := by
  have happend : digitsValue (s ++ t) = Nat.ofDigitChars 10 t (digitsValue s) :=
    Nat.ofDigitChars_append 0
  rw [happend, Nat.ofDigitChars_eq_ofDigitChars_zero, Nat.mul_comm]
  rfl

theorem digitsValue_replicate (k : ℕ) : digitsValue (List.replicate k '0') = 0 := by
  have h : Nat.ofDigitChars 10 (List.replicate k '0') 0 = 10 ^ k * 0 :=
    Nat.ofDigitChars_replicate_zero
  exact h

theorem digitsValue_decimal (n : ℕ) : digitsValue (Numeral.decimal n) = n :=
  Nat.ofDigitChars_ten_toDigits

theorem decimal_ne_nil (n : ℕ) : Numeral.decimal n ≠ [] := Nat.toDigits_ne_nil

theorem isDigit_of_mem_decimal (n : ℕ) : ∀ c ∈ Numeral.decimal n, isDigit c := by
  intro c hc
  have hdigit := Nat.isDigit_of_mem_toDigits (by decide) (by decide) hc
  simpa [Char.isDigit, isDigit, Char.le_def] using hdigit

theorem digitsValue_lt {s : List Char} (h : ∀ c ∈ s, isDigit c) :
    digitsValue s < 10 ^ s.length := by
  rw [digitsValue_eq h]
  exact Numeral.valueIn_lt (allIn_ten h)

/-- Only nothing is written with a zero in front. -/
theorem decimal_head {n : ℕ} (h : (Numeral.decimal n).head? = some '0') :
    Numeral.decimal n = ['0'] := by
  by_cases hn : n = 0
  · rw [hn]
    rfl
  · obtain ⟨s, hs⟩ : ∃ s, Numeral.decimal n = '0' :: s := by
      cases hd : Numeral.decimal n with
      | nil => simp [hd] at h
      | cons c s =>
        rw [hd, List.head?_cons, Option.some.injEq] at h
        exact ⟨s, by rw [h]⟩
    -- The digits behind the zero would be too few for the number.
    have hdigits : ∀ c ∈ s, isDigit c := fun c hc =>
      isDigit_of_mem_decimal n c (by simp [hs, hc])
    have hvalue : digitsValue s = n := by
      have := digitsValue_decimal n
      rw [hs, show '0' :: s = List.replicate 1 '0' ++ s from rfl, digitsValue_append,
        digitsValue_replicate] at this
      omega
    have hlt := digitsValue_lt hdigits
    have hle := pow_width_le hn
    rw [width, if_neg hn, hs, List.length_cons, Nat.add_sub_cancel] at hle
    omega

/-- The number that digits stand for whose first one stands for `10 ^ lead`. -/
def scaledValue (s : List Char) (lead : ℤ) : ℚ := digitsValue s * 10 ^ (lead + 1 - s.length)

theorem scaledValue_append_replicate (s : List Char) (k : ℕ) (lead : ℤ) :
    scaledValue (s ++ List.replicate k '0') lead = scaledValue s lead := by
  unfold scaledValue
  rw [digitsValue_append, digitsValue_replicate, List.length_append, List.length_replicate,
    add_zero]
  have hexp : lead + 1 - s.length = (k : ℤ) + (lead + 1 - (s.length + k : ℕ)) := by
    push_cast
    ring
  rw [hexp, zpow_add₀ (by norm_num), zpow_natCast]
  push_cast
  ring

theorem scaledValue_replicate_append (k : ℕ) (s : List Char) (lead : ℤ) :
    scaledValue (List.replicate k '0' ++ s) lead = scaledValue s (lead - k) := by
  unfold scaledValue
  rw [digitsValue_append, digitsValue_replicate, List.length_append, List.length_replicate,
    Nat.zero_mul, Nat.zero_add]
  congr 2
  push_cast
  ring

end Decimal

namespace DecimalLiteral

/-- The first digit of a literal stands for a power of ten as far up as digits precede the point. -/
theorem value_decimal (l : DecimalLiteral) : l.decimal.value =
    scaledValue (l.whole ++ l.fraction.getD [])
      (l.exponent.elim 0 Exponent.value + l.whole.length - 1) := by
  unfold scaledValue decimal Decimal.value
  congr 2
  rw [List.length_append]
  push_cast
  ring

/-- A literal that says plainly that it is no whole number. -/
structure Strict (l : DecimalLiteral) : Prop where
  whole_ne : l.whole ≠ []
  whole_head : l.whole.head? = some '0' → l.whole = ['0']
  fraction_ne : l.fraction ≠ some []
  marked : l.fraction.isSome ∨ l.exponent.isSome

end DecimalLiteral

namespace DecimalLayout

theorem dropZeros_spec {s : List Char} (hs : s ≠ []) :
    dropZeros s ≠ [] ∧ ∃ k, s = dropZeros s ++ List.replicate k '0' := by
  have hsplit : s = (s.reverse.dropWhile (· == '0')).reverse ++
      (s.reverse.takeWhile (· == '0')).reverse := by
    rw [← List.reverse_append, List.takeWhile_append_dropWhile, List.reverse_reverse]
  have hzeros : (s.reverse.takeWhile (· == '0')).reverse =
      List.replicate (s.reverse.takeWhile (· == '0')).length '0' := by
    rw [List.eq_replicate_iff]
    refine ⟨List.length_reverse, fun c hc => ?_⟩
    simpa using List.mem_takeWhile_imp (List.mem_reverse.mp hc)
  generalize (s.reverse.takeWhile (· == '0')).length = k at hzeros
  rw [hzeros] at hsplit
  unfold dropZeros
  split
  · next hnil =>
    rw [hnil, List.nil_append] at hsplit
    cases k with
    | zero => exact absurd hsplit hs
    | succ k => exact ⟨by simp, k, by rw [hsplit, List.replicate_succ]; rfl⟩
  · next hne => exact ⟨hne, k, hsplit⟩

theorem isDigit_of_mem_replicate {k : ℕ} : ∀ c ∈ List.replicate k '0', isDigit c := by
  intro c hc
  rw [List.eq_of_mem_replicate hc]
  rfl

/-- Digits behind a zero and a point. -/
theorem positional_of_neg {s : List Char} (hs : ∀ c ∈ s, isDigit c) (hne : s ≠ []) {lead : ℤ}
    (hlead : lead < 0) :
    ∃ l : DecimalLiteral, l.text = positional s lead ∧ l.decimal.value = scaledValue s lead ∧
      l.Strict := by
  set k := (-lead - 1).toNat with hk
  have hfraction : ∀ c ∈ List.replicate k '0' ++ s, isDigit c := by
    intro c hc
    rcases List.mem_append.mp hc with hc | hc
    · exact isDigit_of_mem_replicate c hc
    · exact hs c hc
  refine ⟨⟨['0'], some (List.replicate k '0' ++ s), none,
    List.forall_mem_singleton.mpr rfl, hfraction, by simp⟩, ?_, ?_,
    ⟨by simp, by simp, by simpa using fun _ => hne, Or.inl rfl⟩⟩
  · rw [positional, if_pos hlead, ← hk]
    simp [DecimalLiteral.text, DecimalLiteral.pointText, DecimalLiteral.exponentText]
  · rw [DecimalLiteral.value_decimal]
    change scaledValue (List.replicate 1 '0' ++ (List.replicate k '0' ++ s)) (0 + 1 - 1) = _
    rw [scaledValue_replicate_append, scaledValue_replicate_append]
    congr 1
    omega

/-- Digits with a point behind the one that stands for units, or behind zeros up to there. -/
theorem positional_of_nonneg {s : List Char} (hs : ∀ c ∈ s, isDigit c) {lead : ℤ}
    (hlead : 0 ≤ lead) (hzero : s.head? = some '0' → s = ['0'] ∧ lead = 0) (hne : s ≠ []) :
    ∃ l : DecimalLiteral, l.text = positional s lead ∧ l.decimal.value = scaledValue s lead ∧
      l.Strict := by
  set cut := lead.toNat + 1 with hcut
  set whole := s.take cut ++ List.replicate (cut - s.length) '0' with hwhole
  set fraction := if (s.drop cut).isEmpty then ['0'] else s.drop cut with hfraction
  have htext : positional s lead = whole ++ '.' :: fraction := by
    rw [positional, if_neg (not_lt.mpr hlead)]
  have hdigits : ∀ c ∈ whole, isDigit c := by
    intro c hc
    rcases List.mem_append.mp hc with hc | hc
    · exact hs c (List.mem_of_mem_take hc)
    · exact isDigit_of_mem_replicate c hc
  have hdigits' : ∀ c ∈ fraction, isDigit c := by
    rw [hfraction]
    split_ifs
    · exact List.forall_mem_singleton.mpr rfl
    · exact fun c hc => hs c (List.mem_of_mem_drop hc)
  have hfne : fraction ≠ [] := by
    rw [hfraction]
    split_ifs with h
    · simp
    · simpa using h
  have hhead : whole.head? = s.head? := by
    cases s with
    | nil => exact absurd rfl hne
    | cons c s => rfl
  have hwne : whole ≠ [] := by
    intro h
    rw [h, List.head?_nil, eq_comm, List.head?_eq_none_iff] at hhead
    exact hne hhead
  refine ⟨⟨whole, some fraction, none, hdigits, hdigits', by simp [hwne]⟩, ?_, ?_,
    ⟨hwne, fun h => ?_, by simpa using hfne, Or.inl rfl⟩⟩
  · rw [htext]
    simp [DecimalLiteral.text, DecimalLiteral.pointText, DecimalLiteral.exponentText]
  · have hlength : (whole.length : ℤ) = lead + 1 := by
      rw [hwhole, List.length_append, List.length_take, List.length_replicate]
      omega
    rw [DecimalLiteral.value_decimal]
    change scaledValue (whole ++ fraction) (0 + whole.length - 1) = _
    rw [hlength, show 0 + (lead + 1) - 1 = lead by ring]
    -- The digits are the given ones, with zeros behind them where these end before the point.
    rcases Nat.lt_or_ge cut s.length with hlt | hge
    · have hdrop : ¬(s.drop cut).isEmpty := by simpa using hlt
      rw [hwhole, hfraction, if_neg hdrop, Nat.sub_eq_zero_of_le hlt.le, List.replicate_zero,
        List.append_nil, List.take_append_drop]
    · have hdrop : (s.drop cut).isEmpty := by simpa using hge
      rw [hwhole, hfraction, if_pos hdrop, List.take_of_length_le hge, List.append_assoc,
        show ['0'] = List.replicate 1 '0' from rfl, List.replicate_append_replicate,
        scaledValue_append_replicate]
  · obtain ⟨rfl, rfl⟩ := hzero (hhead ▸ h)
    rfl

theorem digitsValue_padZeros (width : ℕ) (s : List Char) :
    digitsValue (padZeros width s) = digitsValue s := by
  rw [padZeros, digitsValue_append, digitsValue_replicate, Nat.zero_mul, Nat.zero_add]

/-- One digit before the point, the others behind it, and an exponent. -/
theorem scientific_eq_text (width : ℕ) {s : List Char} (hs : ∀ c ∈ s, isDigit c) (hne : s ≠ [])
    (lead : ℤ) :
    ∃ l : DecimalLiteral, l.text = scientific width s lead ∧
      l.decimal.value = scaledValue s lead ∧ l.Strict := by
  obtain ⟨c, s, rfl⟩ := List.exists_cons_of_ne_nil hne
  have hexponent : ∀ c ∈ padZeros width (Numeral.decimal lead.natAbs), isDigit c := by
    intro c hc
    rcases List.mem_append.mp hc with hc | hc
    · exact isDigit_of_mem_replicate c hc
    · exact isDigit_of_mem_decimal _ c hc
  have hexponent_ne : padZeros width (Numeral.decimal lead.natAbs) ≠ [] := by
    simp [padZeros, Numeral.decimal]
  let exponent : Exponent :=
    ⟨'e', some (decide (lead < 0)), padZeros width (Numeral.decimal lead.natAbs), Or.inl rfl,
      hexponent_ne, hexponent⟩
  have hsign : exponent.signText = [if lead < 0 then '-' else '+'] := by
    by_cases h : lead < 0 <;> simp [exponent, Exponent.signText, h]
  have hvalue : exponent.value = lead := by
    simp only [exponent, Exponent.value, digitsValue_padZeros, digitsValue_decimal,
      Numeral.withSign]
    by_cases h : lead < 0
    · simp only [h, decide_true, beq_self_eq_true, if_true]
      omega
    · simp only [h, decide_false]
      change (lead.natAbs : ℤ) = lead
      omega
  have hfraction : (if s = [] then none else some s).getD [] = s := by
    split_ifs with h
    · rw [h]
      rfl
    · rfl
  have hdigits : ∀ d ∈ (if s = [] then none else some s).getD [], isDigit d := by
    rw [hfraction]
    exact fun d hd => hs d (List.mem_cons_of_mem c hd)
  refine ⟨⟨[c], if s = [] then none else some s, some exponent, ?_, hdigits, by simp⟩, ?_, ?_,
    ⟨by simp, by simp, ?_, Or.inr rfl⟩⟩
  · exact fun d hd => hs d (by simpa using Or.inl (List.mem_singleton.mp hd))
  · simp only [DecimalLiteral.text, DecimalLiteral.pointText, DecimalLiteral.exponentText,
      Option.elim_some, Exponent.text, hsign, scientific, List.drop_one, List.tail_cons,
      List.take_succ_cons, List.take_zero]
    by_cases h : s = []
    · simp [h, exponent]
    · simp [h, exponent]
  · rw [DecimalLiteral.value_decimal]
    simp only [hfraction, Option.elim_some, hvalue]
    congr 1
    simp
  · split_ifs with h
    · simp
    · simpa using h

/-- A decimal is written as a literal of the same value. -/
theorem render_eq_text (layout : DecimalLayout) (d : Decimal) :
    ∃ l : DecimalLiteral, l.text = layout.render d ∧ l.decimal.value = d.value ∧ l.Strict := by
  set all := Numeral.decimal d.digits with hall
  set lead : ℤ := if d.digits = 0 then 0 else d.exponent + all.length - 1 with hlead
  have hallne : all ≠ [] := decimal_ne_nil d.digits
  obtain ⟨hne, k, hk⟩ := dropZeros_spec hallne
  have hs : ∀ c ∈ dropZeros all, isDigit c := by
    intro c hc
    refine isDigit_of_mem_decimal d.digits c ?_
    rw [← hall, hk]
    exact List.mem_append_left _ hc
  have hvalue : scaledValue (dropZeros all) lead = d.value := by
    rw [← scaledValue_append_replicate _ k, ← hk, scaledValue, hall, digitsValue_decimal, value]
    by_cases hzero : d.digits = 0
    · rw [hzero, Nat.cast_zero, zero_mul, zero_mul]
    · rw [hlead, if_neg hzero, ← hall]
      congr 2
      ring
  have hzero : (dropZeros all).head? = some '0' → dropZeros all = ['0'] ∧ lead = 0 := by
    intro h
    have hhead : all.head? = some '0' := by
      rw [hk, List.head?_append, h]
      rfl
    have hall0 : all = ['0'] := decimal_head hhead
    have hdigits : d.digits = 0 := by
      rw [← digitsValue_decimal d.digits, ← hall, hall0]
      rfl
    refine ⟨?_, by rw [hlead, if_pos hdigits]⟩
    rw [hall0]
    rfl
  unfold render
  dsimp only
  rw [← hall, ← hlead]
  split_ifs with hplain
  · rcases lt_or_ge lead 0 with hneg | hnonneg
    · obtain ⟨l, htext, hl, hstrict⟩ := positional_of_neg hs hne hneg
      exact ⟨l, htext, hl.trans hvalue, hstrict⟩
    · obtain ⟨l, htext, hl, hstrict⟩ := positional_of_nonneg hs hnonneg hzero hne
      exact ⟨l, htext, hl.trans hvalue, hstrict⟩
  · obtain ⟨l, htext, hl, hstrict⟩ := scientific_eq_text layout.exponentWidth hs hne lead
    exact ⟨l, htext, hl.trans hvalue, hstrict⟩

end DecimalLayout

/-- No other value has the same sign and size. -/
def Binary64.Canonical : Binary64 → Prop
  | .finite _ size => size.Canonical
  | .infinity _ => True
  | .nan => True

/-- The text of a finite value is a literal behind its sign. A canonical value is what the literal
rounds to. -/
theorem Binary64.render_finite (negative : Bool) (size : Magnitude) :
    ∃ l : DecimalLiteral, (Binary64.finite negative size).render.toList =
      (if negative then ['-'] else []) ++ l.text ∧
      (size.Canonical → l.decimal.round = some size) ∧ l.Strict := by
  obtain ⟨l, htext, hvalue, hstrict⟩ := layout.render_eq_text size.shortest
  refine ⟨l, ?_, fun h => size.round_of_value_eq_shortest h hvalue, hstrict⟩
  rw [render, htext, String.toList_ofList]

end DocSignature
