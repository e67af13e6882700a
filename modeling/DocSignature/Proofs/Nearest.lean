import DocSignature.Proofs.NumberLiteral

/-!
# The nearest magnitude

A magnitude is `Magnitude.Nearest` to a number if no canonical one is nearer, and if its significand
is even where another is as near. There is at most one (`Magnitude.Nearest.unique`) : between two
of the same distance, both with an even significand, lies the one after the lesser.

Rounding gives it. In the unit of a number, rounding to a whole number is enough : the magnitudes
with a larger exponent are whole in that unit, and those with a smaller one lie below all that have
it (`Magnitude.UnitFor.nearest_carry`). So it is for ratios (`Magnitude.nearest_of_roundRatio`) and
for decimals (`Decimal.nearest_of_round`). A number that is itself a magnitude is kept
(`Magnitude.Nearest.value_eq`).
-/

namespace DocSignature

/-! ## Whole numbers -/

/-- Two whole numbers are at least one apart, so a number is not near to both. -/
theorem one_le_abs_add_abs (q : ℚ) {m k : ℕ} (hne : k ≠ m) : (1 : ℚ) ≤ |q - k| + |q - m| := by
  have hapart : (1 : ℤ) ≤ |(k : ℤ) - m| := Int.one_le_abs (sub_ne_zero.mpr (by exact_mod_cast hne))
  calc (1 : ℚ) ≤ |(k : ℚ) - m| := by exact_mod_cast hapart
    _ ≤ |(k : ℚ) - q| + |q - m| := abs_sub_le _ _ _
    _ = |q - k| + |q - m| := by rw [abs_sub_comm]

theorem NearestEven.abs_le {q : ℚ} {m : ℕ} (h : NearestEven q m) (k : ℕ) : |q - m| ≤ |q - k| := by
  rcases eq_or_ne k m with rfl | hne
  · exact le_refl _
  · linarith [one_le_abs_add_abs q hne, h.1]

theorem NearestEven.even_of_abs_eq {q : ℚ} {m k : ℕ} (h : NearestEven q m) (hne : k ≠ m)
    (heq : |q - k| = |q - m|) : m % 2 = 0 :=
  h.2 (le_antisymm h.1 (by linarith [one_le_abs_add_abs q hne]))

namespace Magnitude

/-! ## The order of magnitudes -/

theorem Canonical.value_lt {x : Magnitude} (hx : x.Canonical) :
    x.value < 2 * leadingBit * 2 ^ x.exponent :=
  mul_lt_mul_of_pos_right (by exact_mod_cast hx.lt) (two_zpow_pos _)

theorem two_mul_leadingBit_zpow (e : ℤ) :
    (2 * leadingBit : ℚ) * 2 ^ e = leadingBit * 2 ^ (e + 1) := by
  rw [two_zpow_succ]
  ring

/-- Magnitudes with a larger exponent lie above. -/
theorem Canonical.le_value_of_exponent_lt {x y : Magnitude} (hx : x.Canonical) (hy : y.Canonical)
    (h : x.exponent < y.exponent) : 2 * leadingBit * 2 ^ x.exponent ≤ y.value := by
  have hbit : leadingBit ≤ y.significand :=
    hy.le.resolve_left fun hleast => absurd hx.least_le (not_le.mpr (hleast ▸ h))
  calc (2 * leadingBit : ℚ) * 2 ^ x.exponent = leadingBit * 2 ^ (x.exponent + 1) :=
        two_mul_leadingBit_zpow _
    _ ≤ y.significand * 2 ^ y.exponent := by
      refine mul_le_mul (by exact_mod_cast hbit) ?_ (two_zpow_pos _).le (by positivity)
      exact zpow_le_zpow_right₀ (by norm_num) h

theorem Canonical.eq_of_value_eq {x y : Magnitude} (hx : x.Canonical) (hy : y.Canonical)
    (h : x.value = y.value) : x = y := by
  have hexponent : x.exponent = y.exponent := by
    rcases lt_trichotomy x.exponent y.exponent with hlt | heq | hlt
    · linarith [hx.le_value_of_exponent_lt hy hlt, hx.value_lt]
    · exact heq
    · linarith [hy.le_value_of_exponent_lt hx hlt, hy.value_lt]
  have hsignificand : (x.significand : ℚ) = y.significand := by
    rw [value, value, hexponent] at h
    exact mul_right_cancel₀ (two_zpow_pos _).ne' h
  obtain ⟨m, e⟩ := x
  obtain ⟨n, f⟩ := y
  obtain rfl : e = f := hexponent
  obtain rfl : m = n := by exact_mod_cast hsignificand
  rfl

/-- Every magnitude is below the bound from which numbers are rounded past the largest one. -/
theorem Canonical.value_lt_overflow {x : Magnitude} (hx : x.Canonical) : x.value < overflow := by
  have hsucc : (x.significand : ℚ) + 1 ≤ 2 * leadingBit := by exact_mod_cast hx.lt
  have hbit : (1 : ℚ) < leadingBit := by norm_num [leadingBit]
  calc x.value ≤ (2 * leadingBit - 1) * 2 ^ greatestExponent := by
        refine mul_le_mul (by linarith) ?_ (two_zpow_pos _).le (by linarith)
        exact zpow_le_zpow_right₀ (by norm_num) hx.le_greatest
    _ < (2 * leadingBit - 1 / 2) * 2 ^ greatestExponent :=
      mul_lt_mul_of_pos_right (by linarith) (two_zpow_pos _)
    _ = overflow := overflow_eq.symm

/-- Between two magnitudes with even significands lies another one. -/
theorem Canonical.exists_between {x y : Magnitude} (hx : x.Canonical) (hy : y.Canonical)
    (hxe : x.significand % 2 = 0) (hye : y.significand % 2 = 0) (h : x.value < y.value) :
    ∃ z : Magnitude, z.Canonical ∧ x.value < z.value ∧ z.value < y.value := by
  have hroom : x.significand + 1 < 2 * leadingBit := by
    have := hx.lt
    omega
  have hz : Canonical ⟨x.significand + 1, x.exponent⟩ :=
    ⟨hroom, hx.le.imp id Nat.le_succ_of_le, hx.least_le, hx.le_greatest⟩
  have hsucc : x.value < (⟨x.significand + 1, x.exponent⟩ : Magnitude).value := by
    refine mul_lt_mul_of_pos_right ?_ (two_zpow_pos _)
    exact_mod_cast Nat.lt_succ_self _
  refine ⟨_, hz, hsucc, ?_⟩
  rcases lt_trichotomy x.exponent y.exponent with hlt | heq | hlt
  · exact hz.value_lt.trans_le (hx.le_value_of_exponent_lt hy hlt)
  · have hlt : x.significand < y.significand := by
      rw [value, value, ← heq] at h
      exact_mod_cast lt_of_mul_lt_mul_right h (two_zpow_pos _).le
    rw [value, value, ← heq]
    refine mul_lt_mul_of_pos_right ?_ (two_zpow_pos _)
    have : x.significand + 1 < y.significand := by omega
    exact_mod_cast this
  · linarith [hy.le_value_of_exponent_lt hx hlt, hy.value_lt]

/-! ## Nearest magnitudes -/

/-- A canonical magnitude is nearest to a number, and even if another one is as near. -/
structure Nearest (q : ℚ) (x : Magnitude) : Prop where
  canonical : x.Canonical
  le : ∀ {y : Magnitude}, y.Canonical → |q - x.value| ≤ |q - y.value|
  even : ∀ {y : Magnitude}, y.Canonical → y ≠ x → |q - y.value| = |q - x.value| →
    x.significand % 2 = 0

theorem Nearest.not_value_lt {q : ℚ} {x y : Magnitude} (hx : Nearest q x) (hy : Nearest q y) :
    ¬x.value < y.value := by
  intro hlt
  have hne : x ≠ y := fun h => (h ▸ hlt).false
  have heq : |q - x.value| = |q - y.value| :=
    le_antisymm (hx.le hy.canonical) (hy.le hx.canonical)
  obtain ⟨z, hz, hxz, hzy⟩ := hx.canonical.exists_between hy.canonical
    (hx.even hy.canonical hne.symm heq.symm) (hy.even hx.canonical hne heq) hlt
  -- The number is half way between the two, and nearer to what lies between them.
  have hmiddle : q - x.value = y.value - q := by
    rcases abs_eq_abs.mp heq with hsame | hopposite
    · linarith
    · linarith
  have hnear : |q - z.value| < q - x.value := abs_lt.mpr ⟨by linarith, by linarith⟩
  exact absurd (hx.le hz) (not_le.mpr (hnear.trans_le (le_abs_self _)))

/-- There is one nearest magnitude. -/
theorem Nearest.unique {q : ℚ} {x y : Magnitude} (hx : Nearest q x) (hy : Nearest q y) : x = y :=
  hx.canonical.eq_of_value_eq hy.canonical
    (le_antisymm (not_lt.mp (hy.not_value_lt hx)) (not_lt.mp (hx.not_value_lt hy)))

/-- A number that a magnitude stands for is its own nearest one. -/
theorem Nearest.value_eq {q : ℚ} {x y : Magnitude} (hx : Nearest q x) (hy : y.Canonical)
    (h : y.value = q) : x.value = q := by
  have hle := hx.le hy
  rw [h, sub_self, abs_zero] at hle
  exact (sub_eq_zero.mp (abs_nonpos_iff.mp hle)).symm

/-! ## Rounding gives the nearest -/

theorem value_carry (m : ℕ) (e : ℤ) : (carry m e).value = m * 2 ^ e := by
  unfold carry
  split_ifs with h
  · rw [value, h, two_zpow_succ]
    push_cast
    ring
  · rfl

theorem even_significand_carry {m : ℕ} {e : ℤ} (h : m % 2 = 0) :
    (carry m e).significand % 2 = 0 := by
  unfold carry
  split_ifs
  · exact (by decide : leadingBit % 2 = 0)
  · exact h

/-- Distances in the unit of a number. -/
theorem abs_sub_mul_two_zpow (q a : ℚ) (e : ℤ) :
    |q - a * 2 ^ e| = |q / 2 ^ e - a| * 2 ^ e := by
  have hpos := two_zpow_pos e
  rw [← abs_of_pos hpos, ← abs_mul, abs_of_pos hpos, sub_mul, div_mul_cancel₀ q hpos.ne']

/-- A magnitude is whole in every unit that is not larger than its own. -/
theorem exists_value_eq {y : Magnitude} {e : ℤ} (h : e ≤ y.exponent) :
    ∃ k : ℕ, y.value = k * 2 ^ e := by
  obtain ⟨n, hn⟩ := Int.eq_ofNat_of_zero_le (sub_nonneg.mpr h)
  refine ⟨y.significand * 2 ^ n, ?_⟩
  have hexponent : y.exponent = n + e := by omega
  rw [value, hexponent, zpow_add₀ (by norm_num), zpow_natCast]
  push_cast
  ring

/-- A magnitude with a smaller exponent than the unit of a number is farther away than the rounded
number. -/
theorem UnitFor.abs_lt_of_exponent_lt {q : ℚ} {e : ℤ} {m : ℕ} (he : UnitFor q e)
    (hm : NearestEven (q / 2 ^ e) m) {y : Magnitude} (hy : y.Canonical) (h : y.exponent < e) :
    |q - m * 2 ^ e| < |q - y.value| := by
  have hle : leadingBit * 2 ^ e ≤ q :=
    he.le.resolve_left fun hleast => absurd hy.least_le (not_le.mpr (hleast ▸ h))
  have hlt : y.value < leadingBit * 2 ^ e := by
    calc y.value < 2 * leadingBit * 2 ^ y.exponent := hy.value_lt
      _ = leadingBit * 2 ^ (y.exponent + 1) := two_mul_leadingBit_zpow _
      _ ≤ leadingBit * 2 ^ e := by
        refine mul_le_mul_of_nonneg_left ?_ (by positivity)
        exact zpow_le_zpow_right₀ (by norm_num) h
  calc |q - m * 2 ^ e| ≤ |q - leadingBit * 2 ^ e| := by
        rw [abs_sub_mul_two_zpow, abs_sub_mul_two_zpow]
        exact mul_le_mul_of_nonneg_right (hm.abs_le leadingBit) (two_zpow_pos e).le
    _ = q - leadingBit * 2 ^ e := abs_of_nonneg (sub_nonneg.mpr hle)
    _ < q - y.value := by linarith
    _ ≤ |q - y.value| := le_abs_self _

/-- A number that is rounded in its unit is rounded to the nearest magnitude. -/
theorem UnitFor.nearest_carry {q : ℚ} {e : ℤ} {m : ℕ} (he : UnitFor q e)
    (hm : NearestEven (q / 2 ^ e) m) (hle : (carry m e).exponent ≤ greatestExponent) :
    Nearest q (carry m e) := by
  have hpos := two_zpow_pos e
  have hcanonical := he.canonical_carry hm hle
  refine ⟨hcanonical, fun {y} hy => ?_, fun {y} hy hne heq => ?_⟩
  · rw [value_carry]
    rcases lt_or_ge y.exponent e with hlt | hge
    · exact (he.abs_lt_of_exponent_lt hm hy hlt).le
    · obtain ⟨k, hk⟩ := exists_value_eq hge
      rw [hk, abs_sub_mul_two_zpow, abs_sub_mul_two_zpow]
      exact mul_le_mul_of_nonneg_right (hm.abs_le k) hpos.le
  · refine even_significand_carry ?_
    rw [value_carry] at heq
    rcases lt_or_ge y.exponent e with hlt | hge
    · exact absurd heq (he.abs_lt_of_exponent_lt hm hy hlt).ne'
    · obtain ⟨k, hk⟩ := exists_value_eq hge
      rw [hk, abs_sub_mul_two_zpow, abs_sub_mul_two_zpow] at heq
      refine hm.even_of_abs_eq (k := k) ?_ (mul_right_cancel₀ hpos.ne' heq)
      rintro rfl
      exact hne (hy.eq_of_value_eq hcanonical (by rw [hk, value_carry]))

/-- Below half of the least magnitude everything is next to nothing. -/
theorem nearest_zero {q : ℚ} (hq : 0 ≤ q) (hlt : q < 2 ^ (-1075 : ℤ)) : Nearest q zero := by
  have hhalf : q / 2 ^ leastExponent < 1 / 2 := by
    rw [div_lt_iff₀ (two_zpow_pos _)]
    have hstep : (2 : ℚ) ^ leastExponent = 2 * 2 ^ (-1075 : ℤ) := by
      rw [← two_zpow_succ]
      rfl
    rw [hstep]
    linarith
  have hbit : (1 : ℚ) ≤ 2 * leadingBit := by norm_num [leadingBit]
  have hunit : UnitFor q leastExponent := by
    refine ⟨le_refl _, ?_, Or.inl rfl⟩
    rw [← div_lt_iff₀ (two_zpow_pos _)]
    linarith
  have hnearest : NearestEven (q / 2 ^ leastExponent) 0 := by
    have hnonneg : 0 ≤ q / 2 ^ leastExponent := div_nonneg hq (two_zpow_pos _).le
    rw [nearestEven_iff, Nat.cast_zero]
    exact ⟨⟨by linarith, by linarith⟩, fun hodd => absurd hodd (by decide)⟩
  exact hunit.nearest_carry hnearest (by decide)

theorem nearest_of_roundRatio {num den : ℕ} (hden : den ≠ 0) {x : Magnitude}
    (h : roundRatio num den = some x) : Nearest (num / den) x := by
  by_cases hnum : num = 0
  · rw [roundRatio, if_pos hnum] at h
    rw [← Option.some.inj h, hnum, Nat.cast_zero, zero_div]
    exact nearest_zero (le_refl 0) (two_zpow_pos _)
  · have he := unitFor_log2Ratio hnum hden
    generalize max (log2Ratio num den - 52) leastExponent = e at he
    have hm := nearestEven_roundDiv (scaleDown num den e).1
      (scaleDown_pos (Nat.pos_of_ne_zero hden) num e)
    rw [scaleDown_ratio] at hm
    rw [roundRatio_eq hnum hden he hm] at h
    split_ifs at h with hle
    rw [← Option.some.inj h]
    exact he.nearest_carry hm hle

end Magnitude

/-- A decimal rounds to the nearest magnitude. -/
theorem Decimal.nearest_of_round {d : Decimal} {x : Magnitude} (h : d.round = some x) :
    Magnitude.Nearest d.value x := by
  unfold round at h
  dsimp only at h
  split_ifs at h with hsmall
  · rw [← Option.some.inj h]
    have hnonneg : 0 ≤ d.value := mul_nonneg (Nat.cast_nonneg _) (ten_zpow_pos _).le
    refine Magnitude.nearest_zero hnonneg ?_
    rcases Bool.or_eq_true_iff.mp hsmall with hzero | htop
    · have hdigits : d.digits = 0 := by simpa using hzero
      rw [value, hdigits, Nat.cast_zero, zero_mul]
      exact two_zpow_pos _
    · have htop : d.exponent + width d.digits ≤ -330 := by
        have : d.exponent + width d.digits < -330 := by simpa using htop
        exact this.le
      calc d.value < 10 ^ (d.exponent + width d.digits) := d.value_lt
        _ ≤ 10 ^ (-330 : ℤ) := zpow_le_zpow_right₀ (by norm_num) htop
        _ < 2 ^ (-1075 : ℤ) := ten_zpow_lt_two_zpow
  · have hnearest := Magnitude.nearest_of_roundRatio d.ratio_den_ne h
    rwa [d.ratio_value] at hnearest

end DocSignature
