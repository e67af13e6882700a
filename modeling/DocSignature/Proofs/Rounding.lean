import DocSignature.Number.Decimal
import Mathlib.Algebra.Order.Field.Power
import Mathlib.Algebra.Order.Field.Rat
import Mathlib.Tactic.FieldSimp
import Mathlib.Tactic.Linarith
import Mathlib.Tactic.NormNum
import Mathlib.Tactic.Positivity
import Mathlib.Tactic.Ring

/-!
# Rounding to binary

The numbers that decimals and magnitudes stand for are rationals (`Decimal.value`,
`Magnitude.value`). `NearestEven` says of a whole number that it is nearest to a rational, and
even if another is as near : `roundDiv` gives it (`nearestEven_roundDiv`), and there is no second
one (`NearestEven.unique`).

A magnitude is `Magnitude.Canonical` if it is the only one of its value. Rounding gives canonical
magnitudes (`Magnitude.canonical_of_roundRatio`). `Magnitude.Covers` is the interval of the
numbers that round to a magnitude, and every number in it does (`Magnitude.roundRatio_of_covers`,
`Decimal.round_of_covers`).
-/

namespace DocSignature

/-- The number a decimal stands for. -/
def Decimal.value (d : Decimal) : ℚ := d.digits * 10 ^ d.exponent

/-- The number a magnitude stands for. -/
def Magnitude.value (x : Magnitude) : ℚ := x.significand * 2 ^ x.exponent

/-! ## Powers -/

/-- One of the two powers of naturals is one, the other the power or its inverse. -/
theorem zpow_eq_div (b : ℕ) (hb : b ≠ 0) (i : ℤ) :
    (b : ℚ) ^ i = ((b ^ i.toNat : ℕ) : ℚ) / ((b ^ (-i).toNat : ℕ) : ℚ) := by
  have hb' : (b : ℚ) ≠ 0 := Nat.cast_ne_zero.mpr hb
  rw [Nat.cast_pow, Nat.cast_pow, ← zpow_natCast, ← zpow_natCast, ← zpow_sub₀ hb']
  congr 1
  omega

theorem two_zpow_pos (i : ℤ) : (0 : ℚ) < 2 ^ i := zpow_pos (by norm_num) i

theorem ten_zpow_pos (i : ℤ) : (0 : ℚ) < 10 ^ i := zpow_pos (by norm_num) i

theorem two_zpow_succ (i : ℤ) : (2 : ℚ) ^ (i + 1) = 2 * 2 ^ i := by
  rw [zpow_add_one₀ (by norm_num), mul_comm]

/-! ## Whole numbers -/

/-- A whole number is nearest to a number, and even if another one is as near. -/
def NearestEven (q : ℚ) (m : ℕ) : Prop := |q - m| ≤ 1 / 2 ∧ (|q - m| = 1 / 2 → m % 2 = 0)

theorem nearestEven_iff {q : ℚ} {m : ℕ} : NearestEven q m ↔
    (m - 1 / 2 ≤ q ∧ q ≤ m + 1 / 2) ∧ (m % 2 = 1 → m - 1 / 2 < q ∧ q < m + 1 / 2) := by
  have habs : |q - m| ≤ 1 / 2 ↔ (m : ℚ) - 1 / 2 ≤ q ∧ q ≤ m + 1 / 2 := by
    rw [abs_le]
    constructor <;> rintro ⟨h₁, h₂⟩ <;> constructor <;> linarith
  have hend : |q - m| = 1 / 2 ↔ q = m + 1 / 2 ∨ q = m - 1 / 2 := by
    rw [abs_eq (by norm_num)]
    constructor
    · rintro (h | h)
      · exact Or.inl (by linarith)
      · exact Or.inr (by linarith)
    · rintro (h | h)
      · exact Or.inl (by linarith)
      · exact Or.inr (by linarith)
  rw [NearestEven, habs, hend]
  refine and_congr_right fun ⟨hlo, hhi⟩ => ⟨fun h hodd => ?_, fun h hq => ?_⟩
  · have hne : ¬(q = m + 1 / 2 ∨ q = m - 1 / 2) := fun hq => by
      have := h hq
      omega
    rw [not_or] at hne
    exact ⟨lt_of_le_of_ne hlo (Ne.symm hne.2), lt_of_le_of_ne hhi hne.1⟩
  · by_contra heven
    obtain ⟨h₁, h₂⟩ := h (by omega)
    rcases hq with rfl | rfl
    · exact lt_irrefl _ h₂
    · exact lt_irrefl _ h₁

theorem NearestEven.le {q : ℚ} {m n : ℕ} (hm : NearestEven q m) (hn : NearestEven q n) : m ≤ n := by
  by_contra hlt
  rw [nearestEven_iff] at hm hn
  have hsucc : (n : ℚ) + 1 ≤ m := by exact_mod_cast Nat.lt_of_not_le hlt
  have heq : (m : ℚ) = n + 1 := by linarith [hm.1.1, hn.1.2]
  have hnat : m = n + 1 := by exact_mod_cast heq
  -- Both are a half away, so both are even.
  rcases Nat.mod_two_eq_zero_or_one n with hn' | hn'
  · have := hm.2 (by omega)
    linarith [hn.1.2]
  · have := hn.2 hn'
    linarith [hm.1.1]

theorem NearestEven.unique {q : ℚ} {m n : ℕ} (hm : NearestEven q m) (hn : NearestEven q n) :
    m = n :=
  le_antisymm (hm.le hn) (hn.le hm)

theorem roundDiv_eq_or (num den : ℕ) :
    roundDiv num den = num / den ∨ roundDiv num den = num / den + 1 := by
  rw [roundDiv]
  split_ifs <;> simp

theorem nearestEven_roundDiv (num : ℕ) {den : ℕ} (hden : 0 < den) :
    NearestEven (num / den) (roundDiv num den) := by
  have hden' : (0 : ℚ) < den := by exact_mod_cast hden
  have hq : (num : ℚ) / den = (num / den : ℕ) + (num % den : ℕ) / den := by
    rw [add_div' _ _ _ hden'.ne', div_left_inj' hden'.ne']
    exact_mod_cast (Nat.div_add_mod' num den).symm
  have hpos : (0 : ℚ) ≤ (num % den : ℕ) / den := by positivity
  have hlt : ((num % den : ℕ) : ℚ) / den < 1 := by
    rw [div_lt_one hden']
    exact_mod_cast Nat.mod_lt num hden
  have hhalf : ((num % den : ℕ) : ℚ) / den < 1 / 2 ↔ 2 * (num % den) < den := by
    rw [div_lt_div_iff₀ hden' (by norm_num), one_mul, mul_comm]
    exact_mod_cast Iff.rfl
  have hhalf' : 1 / 2 < ((num % den : ℕ) : ℚ) / den ↔ den < 2 * (num % den) := by
    rw [div_lt_div_iff₀ (by norm_num) hden', one_mul, mul_comm]
    exact_mod_cast Iff.rfl
  rw [nearestEven_iff, hq, roundDiv]
  split_ifs with hlow hhigh heven
  · have := hhalf.mpr hlow
    refine ⟨⟨by linarith, by linarith⟩, fun _ => ⟨by linarith, by linarith⟩⟩
  · have := hhalf'.mpr hhigh
    rw [Nat.cast_add, Nat.cast_one]
    refine ⟨⟨by linarith, by linarith⟩, fun _ => ⟨by linarith, by linarith⟩⟩
  · have h₁ := mt hhalf.mp hlow
    have h₂ := mt hhalf'.mp hhigh
    exact ⟨⟨by linarith, by linarith⟩, fun hodd => by omega⟩
  · have h₁ := mt hhalf.mp hlow
    have h₂ := mt hhalf'.mp hhigh
    refine ⟨⟨?_, ?_⟩, fun hodd => by omega⟩ <;> rw [Nat.cast_add, Nat.cast_one] <;> linarith

/-! ## The unit of a number -/

theorem scaleDown_ratio (num den : ℕ) (e : ℤ) :
    ((scaleDown num den e).1 : ℚ) / (scaleDown num den e).2 = num / den / 2 ^ e := by
  have h : (2 : ℚ) ^ e = (2 ^ e.toNat : ℕ) / (2 ^ (-e).toNat : ℕ) := zpow_eq_div 2 (by decide) e
  rw [scaleDown, h]
  simp only [Nat.pow_eq, Nat.cast_mul]
  rw [div_div_div_eq]

theorem scaleDown_pos {den : ℕ} (hden : 0 < den) (num : ℕ) (e : ℤ) :
    0 < (scaleDown num den e).2 :=
  Nat.mul_pos hden (Nat.pow_pos (by decide))

theorem two_zpow_log2_le {n : ℕ} (hn : n ≠ 0) : (2 : ℚ) ^ (n.log2 : ℤ) ≤ n := by
  rw [zpow_natCast]
  exact_mod_cast Nat.log2_self_le hn

theorem lt_two_zpow_log2 (n : ℕ) : (n : ℚ) < 2 ^ (n.log2 + 1 : ℤ) := by
  have h : n < 2 ^ (n.log2 + 1) := Nat.lt_log2_self
  have hcast : (2 : ℚ) ^ (n.log2 + 1 : ℤ) = (2 ^ (n.log2 + 1) : ℕ) := by
    rw [Nat.cast_pow]
    exact_mod_cast rfl
  rw [hcast]
  exact_mod_cast h

/-- A ratio lies between two powers of two next to each other. -/
theorem log2Ratio_spec {num den : ℕ} (hnum : num ≠ 0) (hden : den ≠ 0) :
    (2 : ℚ) ^ log2Ratio num den ≤ num / den ∧ (num : ℚ) / den < 2 ^ (log2Ratio num den + 1) := by
  have hden' : (0 : ℚ) < den := by exact_mod_cast Nat.pos_of_ne_zero hden
  set k : ℤ := (num.log2 : ℤ) - den.log2 with hk
  have hupper : (num : ℚ) / den < 2 ^ (k + 1) := by
    rw [div_lt_iff₀ hden']
    calc (num : ℚ) < 2 ^ (num.log2 + 1 : ℤ) := lt_two_zpow_log2 num
      _ = 2 ^ (k + 1) * 2 ^ (den.log2 : ℤ) := by
        rw [← zpow_add₀ (by norm_num), hk]
        ring_nf
      _ ≤ 2 ^ (k + 1) * den := mul_le_mul_of_nonneg_left (two_zpow_log2_le hden) (two_zpow_pos _).le
  have hlower : (2 : ℚ) ^ (k - 1) ≤ num / den := by
    rw [le_div_iff₀ hden']
    calc (2 : ℚ) ^ (k - 1) * den ≤ 2 ^ (k - 1) * 2 ^ (den.log2 + 1 : ℤ) :=
          mul_le_mul_of_nonneg_left (lt_two_zpow_log2 den).le (two_zpow_pos _).le
      _ = 2 ^ (num.log2 : ℤ) := by
        rw [← zpow_add₀ (by norm_num), hk]
        ring_nf
      _ ≤ num := two_zpow_log2_le hnum
  have hscaled : (scaleDown num den k).2 ≤ (scaleDown num den k).1 ↔ (2 : ℚ) ^ k ≤ num / den := by
    have hpos : (0 : ℚ) < (scaleDown num den k).2 := by
      exact_mod_cast scaleDown_pos (Nat.pos_of_ne_zero hden) num k
    rw [← one_le_div (two_zpow_pos k), ← scaleDown_ratio, one_le_div hpos, Nat.cast_le]
  have heq : log2Ratio num den =
      if (scaleDown num den k).2 ≤ (scaleDown num den k).1 then k else k - 1 := rfl
  rw [heq]
  split_ifs with h
  · exact ⟨hscaled.mp h, hupper⟩
  · rw [sub_add_cancel]
    exact ⟨hlower, not_le.mp (mt hscaled.mpr h)⟩

namespace Magnitude

/-- The exponent of the unit in which a number is rounded : the number has 53 bits before the
point, or fewer where the exponent is the least. -/
structure UnitFor (q : ℚ) (e : ℤ) : Prop where
  least_le : leastExponent ≤ e
  lt : q < 2 * leadingBit * 2 ^ e
  le : e = leastExponent ∨ leadingBit * 2 ^ e ≤ q

theorem leadingBit_eq : (leadingBit : ℚ) = 2 ^ (52 : ℤ) := by
  norm_num [leadingBit]

theorem UnitFor.le_of {q : ℚ} {e e' : ℤ} (h : UnitFor q e) (h' : UnitFor q e') : e ≤ e' := by
  rcases h.le with heq | hle
  · rw [heq]
    exact h'.least_le
  · by_contra hlt
    have hstep : (2 : ℚ) ^ (e' + 1) ≤ 2 ^ e :=
      zpow_le_zpow_right₀ (by norm_num) (Int.add_one_le_of_lt (not_le.mp hlt))
    have hlt' := h'.lt
    rw [two_zpow_succ] at hstep
    have hbit : (0 : ℚ) < leadingBit := by norm_num [leadingBit]
    have := mul_le_mul_of_nonneg_left hstep hbit.le
    linarith

theorem UnitFor.unique {q : ℚ} {e e' : ℤ} (h : UnitFor q e) (h' : UnitFor q e') : e = e' :=
  le_antisymm (h.le_of h') (h'.le_of h)

theorem unitFor_log2Ratio {num den : ℕ} (hnum : num ≠ 0) (hden : den ≠ 0) :
    UnitFor (num / den) (max (log2Ratio num den - 52) leastExponent) := by
  obtain ⟨hle, hlt⟩ := log2Ratio_spec hnum hden
  have hpow (e : ℤ) : (leadingBit : ℚ) * 2 ^ e = 2 ^ (e + 52) := by
    rw [leadingBit_eq, ← zpow_add₀ (by norm_num), add_comm]
  refine ⟨le_max_right _ _, hlt.trans_le ?_, ?_⟩
  · rw [mul_assoc, hpow, ← two_zpow_succ]
    refine zpow_le_zpow_right₀ (by norm_num) ?_
    have := le_max_left (log2Ratio num den - 52) leastExponent
    omega
  · rcases le_total (log2Ratio num den - 52) leastExponent with h | h
    · exact Or.inl (max_eq_right h)
    · rw [max_eq_left h, hpow, sub_add_cancel]
      exact Or.inr hle

/-! ## Rounding -/

/-- No other magnitude has the same value : the significand has 53 bits, or fewer where the
exponent is the least. -/
structure Canonical (x : Magnitude) : Prop where
  lt : x.significand < 2 * leadingBit
  le : x.exponent = leastExponent ∨ leadingBit ≤ x.significand
  least_le : leastExponent ≤ x.exponent
  le_greatest : x.exponent ≤ greatestExponent

/-- A significand of one bit too many is halved. -/
def carry (m : ℕ) (e : ℤ) : Magnitude := if m = 2 * leadingBit then ⟨leadingBit, e + 1⟩ else ⟨m, e⟩

/-- The significand is the number in its unit, rounded. -/
theorem roundRatio_eq {num den : ℕ} (hnum : num ≠ 0) (hden : den ≠ 0) {e : ℤ} {m : ℕ}
    (he : UnitFor (num / den) e) (hm : NearestEven (num / den / 2 ^ e) m) :
    roundRatio num den =
      if (carry m e).exponent ≤ greatestExponent then some (carry m e) else none := by
  have he' : max (log2Ratio num den - 52) leastExponent = e :=
    (unitFor_log2Ratio hnum hden).unique he
  have hm' : roundDiv (scaleDown num den e).1 (scaleDown num den e).2 = m := by
    refine NearestEven.unique ?_ hm
    rw [← scaleDown_ratio]
    exact nearestEven_roundDiv _ (scaleDown_pos (Nat.pos_of_ne_zero hden) num e)
  simp only [roundRatio, if_neg hnum, he', hm']
  rfl

theorem canonical_zero : zero.Canonical :=
  ⟨by decide, Or.inl rfl, le_refl _, by decide⟩

/-- A number in its unit has a significand of 53 bits when it is rounded, or of one more and no
other one, or of fewer where the exponent is the least. -/
theorem UnitFor.canonical_carry {q : ℚ} {e : ℤ} {m : ℕ} (he : UnitFor q e)
    (hm : NearestEven (q / 2 ^ e) m) (hle : (carry m e).exponent ≤ greatestExponent) :
    (carry m e).Canonical := by
  have hm := (nearestEven_iff.mp hm).1
  have hlt : q / 2 ^ e < 2 * leadingBit := (div_lt_iff₀ (two_zpow_pos e)).mpr he.lt
  have hupper : m ≤ 2 * leadingBit := by
    have : (m : ℚ) < (2 * leadingBit + 1 : ℕ) := by
      push_cast
      linarith [hm.1]
    have := Nat.cast_lt.mp this
    omega
  have hlower : e = leastExponent ∨ leadingBit ≤ m := by
    refine he.le.imp id fun h => ?_
    have hq : (leadingBit : ℚ) ≤ q / 2 ^ e := (le_div_iff₀ (two_zpow_pos e)).mpr h
    have : (leadingBit : ℚ) < (m + 1 : ℕ) := by
      push_cast
      linarith [hm.2]
    have := Nat.cast_lt.mp this
    omega
  have hleast := he.least_le
  unfold carry at hle ⊢
  split_ifs at hle ⊢ with h
  · refine ⟨?_, Or.inr (le_refl _), ?_, hle⟩
    · exact (by decide : leadingBit < 2 * leadingBit)
    · dsimp only
      omega
  · exact ⟨lt_of_le_of_ne hupper h, hlower, hleast, hle⟩

theorem canonical_of_roundRatio {num den : ℕ} (hden : den ≠ 0) {x : Magnitude}
    (h : roundRatio num den = some x) : x.Canonical := by
  by_cases hnum : num = 0
  · rw [roundRatio, if_pos hnum] at h
    rw [← Option.some.inj h]
    exact canonical_zero
  · have he := unitFor_log2Ratio hnum hden
    generalize max (log2Ratio num den - 52) leastExponent = e at he
    have hm := nearestEven_roundDiv (scaleDown num den e).1
      (scaleDown_pos (Nat.pos_of_ne_zero hden) num e)
    rw [scaleDown_ratio] at hm
    rw [roundRatio_eq hnum hden he hm] at h
    split_ifs at h with hle
    rw [← Option.some.inj h]
    exact he.canonical_carry hm hle

/-! ## Whole magnitudes -/

theorem value_eq_of_whole? {x : Magnitude} {n : ℕ} (h : x.whole? = some n) : x.value = n := by
  unfold whole? at h
  dsimp only at h
  split_ifs at h with hexponent hmod
  · obtain ⟨m, hm⟩ := Int.eq_ofNat_of_zero_le hexponent
    rw [← Option.some.inj h, value, hm, Int.toNat_natCast, zpow_natCast, Nat.pow_eq, Nat.cast_mul,
      Nat.cast_pow, Nat.cast_ofNat]
  · obtain ⟨m, hm⟩ := Int.eq_ofNat_of_zero_le (by omega : 0 ≤ -x.exponent)
    have hexp : x.exponent = -(m : ℤ) := by omega
    rw [hm, Int.toNat_natCast] at h hmod
    have hproduct : x.significand = n * 2 ^ m := by
      rw [← Option.some.inj h]
      exact (Nat.div_mul_cancel (Nat.dvd_of_mod_eq_zero hmod)).symm
    rw [value, hexp, hproduct, zpow_neg, zpow_natCast, Nat.cast_mul, Nat.cast_pow, Nat.cast_ofNat,
      mul_assoc, mul_inv_cancel₀ (by positivity), mul_one]

theorem value_ne_of_whole? {x : Magnitude} (h : x.whole? = none) (n : ℤ) :
    x.value ≠ n := by
  unfold whole? at h
  dsimp only at h
  split_ifs at h with hexponent hmod
  intro hvalue
  obtain ⟨m, hm⟩ := Int.eq_ofNat_of_zero_le (by omega : 0 ≤ -x.exponent)
  have hexp : x.exponent = -(m : ℤ) := by omega
  rw [hm, Int.toNat_natCast] at hmod
  have hproduct : (x.significand : ℚ) = n * 2 ^ m := by
    rw [← hvalue, value, hexp, zpow_neg, zpow_natCast, mul_assoc,
      inv_mul_cancel₀ (by positivity), mul_one]
  have hdvd : ((2 ^ m : ℕ) : ℤ) ∣ x.significand := ⟨n, by
    rw [mul_comm]
    exact_mod_cast hproduct⟩
  exact hmod (Nat.mod_eq_zero_of_dvd (Int.natCast_dvd_natCast.mp hdvd))

/-! ## The numbers that round to a magnitude -/

/-- Whether the gap below is half as wide as the one above. -/
def Narrow (x : Magnitude) : Prop := x.significand = leadingBit ∧ leastExponent < x.exponent

instance (x : Magnitude) : Decidable x.Narrow := inferInstanceAs (Decidable (_ ∧ _))

/-- The distance down to the least number that rounds to the magnitude, in its unit. -/
def reach (x : Magnitude) : ℚ := if x.Narrow then 1 / 4 else 1 / 2

/-- A number is less than half a gap away, or exactly that far from an even significand. -/
def Covers (x : Magnitude) (q : ℚ) : Prop :=
  ((x.significand - x.reach) * 2 ^ x.exponent ≤ q ∧ q ≤ (x.significand + 1 / 2) * 2 ^ x.exponent) ∧
    (x.significand % 2 = 1 →
      (x.significand - x.reach) * 2 ^ x.exponent < q ∧ q < (x.significand + 1 / 2) * 2 ^ x.exponent)

theorem covers_iff {x : Magnitude} {q : ℚ} : x.Covers q ↔
    (x.significand - x.reach ≤ q / 2 ^ x.exponent ∧ q / 2 ^ x.exponent ≤ x.significand + 1 / 2) ∧
      (x.significand % 2 = 1 → x.significand - x.reach < q / 2 ^ x.exponent ∧
        q / 2 ^ x.exponent < x.significand + 1 / 2) := by
  have hpos := two_zpow_pos x.exponent
  rw [le_div_iff₀ hpos, div_le_iff₀ hpos, lt_div_iff₀ hpos, div_lt_iff₀ hpos, Covers]

theorem reach_le (x : Magnitude) : x.reach ≤ 1 / 2 := by
  unfold reach
  split_ifs <;> norm_num

/-- From the leading bit on, a number that a magnitude covers has the unit of the magnitude. -/
theorem Covers.unitFor {x : Magnitude} {q : ℚ} (hx : x.Canonical) (h : x.Covers q)
    (hle : x.exponent = leastExponent ∨ leadingBit * 2 ^ x.exponent ≤ q) :
    UnitFor q x.exponent := by
  refine ⟨hx.least_le, ?_, hle⟩
  have hsucc : (x.significand : ℚ) + 1 ≤ 2 * leadingBit := by exact_mod_cast hx.lt
  rw [← div_lt_iff₀ (two_zpow_pos _)]
  linarith [(covers_iff.mp h).1.2]

theorem Covers.nearestEven {x : Magnitude} {q : ℚ} (h : x.Covers q) :
    NearestEven (q / 2 ^ x.exponent) x.significand := by
  rw [covers_iff] at h
  have := x.reach_le
  rw [nearestEven_iff]
  exact ⟨⟨by linarith [h.1.1], h.1.2⟩, fun hodd => ⟨by linarith [(h.2 hodd).1], (h.2 hodd).2⟩⟩

/-- Below the leading bit a number is rounded in half the unit, up to the leading bit. -/
theorem Covers.below {x : Magnitude} {q : ℚ} (hx : x.Canonical) (h : x.Covers q)
    (hleast : x.exponent ≠ leastExponent) (hlt : q < leadingBit * 2 ^ x.exponent) :
    x.significand = leadingBit ∧ UnitFor q (x.exponent - 1) ∧
      NearestEven (q / 2 ^ (x.exponent - 1)) (2 * leadingBit) := by
  have hbit : leadingBit ≤ x.significand := hx.le.resolve_left hleast
  have hexp : leastExponent < x.exponent := lt_of_le_of_ne hx.least_le (Ne.symm hleast)
  have hscaled := (covers_iff.mp h).1.1
  have hlt' : q / 2 ^ x.exponent < leadingBit := (div_lt_iff₀ (two_zpow_pos _)).mpr hlt
  have hsig : x.significand = leadingBit := by
    have : (x.significand : ℚ) < (leadingBit + 1 : ℕ) := by
      push_cast
      linarith [x.reach_le]
    have := Nat.cast_lt.mp this
    omega
  have hnarrow : x.reach = 1 / 4 := if_pos ⟨hsig, hexp⟩
  have hhalf : q / 2 ^ (x.exponent - 1) = 2 * (q / 2 ^ x.exponent) := by
    have : (2 : ℚ) ^ x.exponent = 2 * 2 ^ (x.exponent - 1) := by
      rw [← two_zpow_succ, sub_add_cancel]
    rw [this]
    have := (two_zpow_pos (x.exponent - 1)).ne'
    field_simp
  rw [hsig, hnarrow] at hscaled
  refine ⟨hsig, ⟨by omega, ?_, Or.inr ?_⟩, ?_⟩
  · rw [← div_lt_iff₀ (two_zpow_pos _), hhalf]
    linarith
  · rw [← le_div_iff₀ (two_zpow_pos _), hhalf]
    norm_num [leadingBit] at hscaled ⊢
    linarith
  · rw [nearestEven_iff, hhalf]
    push_cast
    refine ⟨⟨by linarith, by linarith⟩, fun hodd => absurd hodd (by decide)⟩

theorem Covers.two_zpow_le {x : Magnitude} {q : ℚ} (hx : x.Canonical) (hne : x.significand ≠ 0)
    (h : x.Covers q) : 2 ^ (-1075 : ℤ) ≤ q := by
  have hsig : (1 : ℚ) ≤ x.significand := by exact_mod_cast Nat.pos_of_ne_zero hne
  have hreach := x.reach_le
  calc (2 : ℚ) ^ (-1075 : ℤ) = 1 / 2 * 2 ^ leastExponent := by
        rw [leastExponent, show (-1075 : ℤ) = -1074 - 1 from rfl, zpow_sub_one₀ (by norm_num)]
        ring
    _ ≤ (x.significand - x.reach) * 2 ^ x.exponent := by
      refine mul_le_mul (by linarith) ?_ (two_zpow_pos _).le (by linarith)
      exact zpow_le_zpow_right₀ (by norm_num) hx.least_le
    _ ≤ q := h.1.1

theorem Covers.le_two_zpow {x : Magnitude} {q : ℚ} (hx : x.Canonical) (h : x.Covers q) :
    q ≤ 2 ^ (1024 : ℤ) := by
  have hsucc : (x.significand : ℚ) + 1 ≤ 2 * leadingBit := by exact_mod_cast hx.lt
  calc q ≤ (x.significand + 1 / 2) * 2 ^ x.exponent := h.1.2
    _ ≤ (2 * leadingBit) * 2 ^ greatestExponent := by
      refine mul_le_mul (by linarith) ?_ (two_zpow_pos _).le (by positivity)
      exact zpow_le_zpow_right₀ (by norm_num) hx.le_greatest
    _ = 2 ^ (1024 : ℤ) := by
      rw [leadingBit_eq, ← two_zpow_succ, ← zpow_add₀ (by norm_num)]
      rfl

/-- Every number that a canonical magnitude covers rounds to it. -/
theorem roundRatio_of_covers {num den : ℕ} (hnum : num ≠ 0) (hden : den ≠ 0) {x : Magnitude}
    (hx : x.Canonical) (h : x.Covers (num / den)) : roundRatio num den = some x := by
  by_cases hle : x.exponent = leastExponent ∨ leadingBit * 2 ^ x.exponent ≤ (num : ℚ) / den
  · have hcarry : carry x.significand x.exponent = x := if_neg hx.lt.ne
    rw [roundRatio_eq hnum hden (h.unitFor hx hle) h.nearestEven, hcarry, if_pos hx.le_greatest]
  · rw [not_or, not_le] at hle
    obtain ⟨hsig, hunit, hnearest⟩ := h.below hx hle.1 hle.2
    have hcarry : carry (2 * leadingBit) (x.exponent - 1) = x := by
      rw [carry, if_pos rfl, sub_add_cancel, ← hsig]
    rw [roundRatio_eq hnum hden hunit hnearest, hcarry, if_pos hx.le_greatest]

end Magnitude

/-! ## Rounding decimals -/

namespace Decimal

theorem ratio_value (d : Decimal) : (d.ratio.1 : ℚ) / d.ratio.2 = d.value := by
  have h : (10 : ℚ) ^ d.exponent = (10 ^ d.exponent.toNat : ℕ) / (10 ^ (-d.exponent).toNat : ℕ) :=
    zpow_eq_div 10 (by decide) d.exponent
  rw [ratio, value, h]
  simp only [Nat.pow_eq, Nat.cast_mul]
  rw [mul_div_assoc]

theorem ratio_den_ne (d : Decimal) : d.ratio.2 ≠ 0 := (Nat.pow_pos (by decide)).ne'

theorem canonical_of_round {d : Decimal} {x : Magnitude} (h : d.round = some x) : x.Canonical := by
  unfold round at h
  dsimp only at h
  split_ifs at h
  · rw [← Option.some.inj h]
    exact Magnitude.canonical_zero
  · exact Magnitude.canonical_of_roundRatio d.ratio_den_ne h

theorem lt_pow_width (n : ℕ) : n < 10 ^ width n := by
  unfold width
  split_ifs with hn
  · rw [hn]
    decide
  · exact (Nat.length_toDigits_le_iff (by decide) Nat.length_toDigits_pos).mp (le_refl _)

theorem pow_width_le {n : ℕ} (hn : n ≠ 0) : 10 ^ (width n - 1) ≤ n := by
  rw [width, if_neg hn, Numeral.decimal]
  have hlength : 0 < (Nat.toDigits 10 n).length := Nat.length_toDigits_pos
  by_contra hlt
  rw [not_le] at hlt
  rcases Nat.eq_zero_or_pos ((Nat.toDigits 10 n).length - 1) with hzero | hpos
  · rw [hzero, Nat.pow_zero] at hlt
    omega
  · have := (Nat.length_toDigits_le_iff (by decide) hpos).mpr hlt
    omega

theorem width_pos {n : ℕ} (hn : n ≠ 0) : 0 < width n := by
  rw [width, if_neg hn]
  exact Nat.length_toDigits_pos

theorem value_lt (d : Decimal) : d.value < 10 ^ (d.exponent + width d.digits) := by
  have h : (d.digits : ℚ) < 10 ^ width d.digits := by exact_mod_cast lt_pow_width d.digits
  rw [zpow_add₀ (by norm_num), zpow_natCast, mul_comm]
  exact mul_lt_mul_of_pos_right h (ten_zpow_pos _)

theorem le_value {d : Decimal} (hd : d.digits ≠ 0) :
    10 ^ (d.exponent + width d.digits - 1) ≤ d.value := by
  have h : (10 : ℚ) ^ (width d.digits - 1) ≤ d.digits := by exact_mod_cast pow_width_le hd
  have hpos := width_pos hd
  have hsplit : d.exponent + width d.digits - 1 = (width d.digits - 1 : ℕ) + d.exponent := by omega
  rw [hsplit, zpow_add₀ (by norm_num), zpow_natCast]
  exact mul_le_mul_of_nonneg_right h (ten_zpow_pos _).le

theorem ten_zpow_lt_two_zpow : (10 : ℚ) ^ (-330 : ℤ) < 2 ^ (-1075 : ℤ) := by
  have h : (2 : ℕ) ^ 1075 < 10 ^ 330 := by decide +kernel
  rw [zpow_neg, zpow_neg, inv_lt_inv₀ (ten_zpow_pos _) (two_zpow_pos _)]
  exact_mod_cast h

theorem two_zpow_lt_ten_zpow : (2 : ℚ) ^ (1024 : ℤ) < 10 ^ (310 : ℤ) := by
  have h : (2 : ℕ) ^ 1024 < 10 ^ 310 := by decide +kernel
  exact_mod_cast h

/-- Every decimal that a canonical magnitude covers rounds to it. -/
theorem round_of_covers {d : Decimal} {x : Magnitude} (hx : x.Canonical) (hne : x.significand ≠ 0)
    (h : x.Covers d.value) : d.round = some x := by
  have hlower := h.two_zpow_le hx hne
  have hupper := h.le_two_zpow hx
  have hdigits : d.digits ≠ 0 := by
    intro hzero
    rw [value, hzero, Nat.cast_zero, zero_mul] at hlower
    exact absurd hlower (not_le.mpr (two_zpow_pos _))
  -- So neither of the two bounds by powers of ten is passed.
  have htop : ¬d.exponent + width d.digits < -330 := by
    intro hlt
    refine absurd (hlower.trans_lt d.value_lt) (not_lt.mpr (le_trans ?_ ten_zpow_lt_two_zpow.le))
    exact zpow_le_zpow_right₀ (by norm_num) hlt.le
  have hbottom : ¬310 < d.exponent + width d.digits := by
    intro hlt
    refine absurd ((le_value hdigits).trans hupper) (not_le.mpr (two_zpow_lt_ten_zpow.trans_le ?_))
    exact zpow_le_zpow_right₀ (by norm_num) (by omega)
  have hnum : d.ratio.1 ≠ 0 := Nat.mul_ne_zero hdigits (Nat.pow_pos (by decide)).ne'
  unfold round
  rw [← d.ratio_value] at h
  simp only [hdigits, htop, hbottom, decide_false, Bool.or_self, Bool.false_eq_true, if_false]
  exact Magnitude.roundRatio_of_covers hnum d.ratio_den_ne hx h

end Decimal

end DocSignature
