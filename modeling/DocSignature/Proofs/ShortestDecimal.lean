import DocSignature.Proofs.DecimalLiteral
import DocSignature.Proofs.Rounding

/-!
# The shortest decimal

`Magnitude.admits` decides the interval of the numbers that round to a magnitude
(`Magnitude.admits_iff`), and the decimal that is chosen for a magnitude lies in it
(`Magnitude.covers_shortest`). So it rounds back to the magnitude, and so does every decimal of
the same value (`Magnitude.round_of_value_eq_shortest`).
-/

namespace DocSignature

theorem compareScaled_eq (a : ℕ) (i : ℤ) (n : ℕ) (j : ℤ) :
    compareScaled a i n j = compare ((a : ℚ) * 10 ^ i) (n * 2 ^ j) := by
  have h₁₀ : (10 : ℚ) ^ i = (10 ^ i.toNat : ℕ) / (10 ^ (-i).toNat : ℕ) :=
    zpow_eq_div 10 (by decide) i
  have h₂ : (2 : ℚ) ^ j = (2 ^ j.toNat : ℕ) / (2 ^ (-j).toNat : ℕ) := zpow_eq_div 2 (by decide) j
  have hpos₁₀ : (0 : ℚ) < (10 ^ (-i).toNat : ℕ) := by positivity
  have hpos₂ : (0 : ℚ) < (2 ^ (-j).toNat : ℕ) := by positivity
  have hcast : StrictMono (Nat.cast : ℕ → ℚ) := Nat.strictMono_cast
  set c : ℚ := (10 ^ (-i).toNat : ℕ) * (2 ^ (-j).toNat : ℕ) with hc
  have hleft : ((a * Nat.pow 10 i.toNat * Nat.pow 2 (-j).toNat : ℕ) : ℚ) = a * 10 ^ i * c := by
    rw [h₁₀, hc]
    simp only [Nat.pow_eq, Nat.cast_mul]
    field_simp
  have hright : ((n * Nat.pow 2 j.toNat * Nat.pow 10 (-i).toNat : ℕ) : ℚ) = n * 2 ^ j * c := by
    rw [h₂, hc]
    simp only [Nat.pow_eq, Nat.cast_mul]
    field_simp
  rw [compareScaled, ← cmp_eq_compare, ← cmp_eq_compare, ← hcast.cmp_map_eq, hleft, hright,
    cmp_mul_pos_right (mul_pos hpos₁₀ hpos₂)]

namespace Magnitude

/-- Four times the least number that rounds to a magnitude, in its unit. -/
theorem reach_quarters {x : Magnitude} (hne : x.significand ≠ 0) :
    (((if x.significand == leadingBit && decide (leastExponent < x.exponent) then
      4 * x.significand - 1 else 4 * x.significand - 2 : ℕ)) : ℚ) * 2 ^ (x.exponent - 2) =
      (x.significand - x.reach) * 2 ^ x.exponent := by
  have hpos : 1 ≤ x.significand := Nat.pos_of_ne_zero hne
  have hnarrow : (x.significand == leadingBit && decide (leastExponent < x.exponent)) = true ↔
      x.Narrow := by simp [Narrow]
  rw [zpow_sub₀ (by norm_num), reach]
  simp only [hnarrow]
  split_ifs
  · rw [Nat.cast_sub (by omega)]
    push_cast
    ring
  · rw [Nat.cast_sub (by omega)]
    push_cast
    ring

theorem admits_iff {x : Magnitude} (hne : x.significand ≠ 0) (d : Decimal) :
    x.admits d ↔ x.Covers d.value := by
  have hupper : ((4 * x.significand + 2 : ℕ) : ℚ) * 2 ^ (x.exponent - 2) =
      (x.significand + 1 / 2) * 2 ^ x.exponent := by
    rw [zpow_sub₀ (by norm_num)]
    push_cast
    ring
  unfold admits
  dsimp only
  rw [compareScaled_eq, compareScaled_eq, reach_quarters hne, hupper, Covers, ← Decimal.value]
  generalize ((x.significand : ℚ) - x.reach) * 2 ^ x.exponent = lo
  generalize ((x.significand : ℚ) + 1 / 2) * 2 ^ x.exponent = hi
  simp only [Bool.and_eq_true, Bool.or_eq_true, beq_iff_eq, compare_gt_iff_gt, compare_eq_iff_eq,
    compare_lt_iff_lt]
  rcases Nat.mod_two_eq_zero_or_one x.significand with h | h
  · simp only [h, le_iff_lt_or_eq, eq_comm, true_and, zero_ne_one, false_imp_iff, and_true]
  · simp only [h, one_ne_zero, false_and, or_false, true_imp_iff]
    exact ⟨fun hv => ⟨⟨hv.1.le, hv.2.le⟩, hv⟩, fun hv => hv.2⟩

/-! ## The choice -/

theorem covers_value (x : Magnitude) : x.Covers x.value := by
  have hpos := two_zpow_pos x.exponent
  have hreach : 0 < x.reach := by
    unfold reach
    split_ifs <;> norm_num
  rw [covers_iff, value, mul_div_cancel_right₀ _ hpos.ne']
  refine ⟨⟨?_, ?_⟩, fun _ => ⟨?_, ?_⟩⟩ <;> linarith

theorem exact_value (x : Magnitude) : x.exact.value = x.value := by
  unfold exact
  split_ifs with h
  · have hpow : (2 : ℚ) ^ x.exponent = 2 ^ x.exponent.toNat := by
      rw [← zpow_natCast, Int.toNat_of_nonneg h]
    simp only [Decimal.value, value, Nat.pow_eq, hpow]
    push_cast
    rw [mul_one]
  · have hexp : x.exponent = -((-x.exponent).toNat : ℤ) := by omega
    have hpow : (2 : ℚ) ^ x.exponent = 5 ^ (-x.exponent).toNat * 10 ^ x.exponent := by
      rw [hexp, zpow_neg, zpow_neg, zpow_natCast, zpow_natCast, neg_neg, Int.toNat_natCast,
        show (10 : ℚ) = 5 * 2 by norm_num, mul_pow, mul_inv, ← mul_assoc,
        mul_inv_cancel₀ (by positivity), one_mul]
    simp only [Decimal.value, value, Nat.pow_eq, hpow]
    push_cast
    rw [mul_assoc]

theorem admits_of_onGrid? {x : Magnitude} {e : ℤ} {d : Decimal} (h : x.onGrid? e = some d) :
    x.admits d := by
  unfold onGrid? at h
  dsimp only at h
  split at h
  · exact absurd h (by simp)
  · next hlow _ => rwa [← Option.some.inj h]
  · next _ hhigh => rwa [← Option.some.inj h]
  · next hlow hhigh =>
    rw [← Option.some.inj h]
    rcases roundDiv_eq_or _ _ with hdiv | hdiv
    · rwa [hdiv]
    · rwa [hdiv]

/-- The decimal that is chosen rounds back. -/
theorem covers_shortest {x : Magnitude} (hne : x.significand ≠ 0) :
    x.Covers x.shortest.value := by
  unfold shortest
  rw [if_neg hne]
  dsimp only
  split
  · next d hd =>
    obtain ⟨n, -, hn⟩ := List.exists_of_findSome?_eq_some hd
    exact (admits_iff hne d).mp (admits_of_onGrid? hn)
  · rw [exact_value]
    exact x.covers_value

/-- Every decimal with the value of the one that is chosen rounds back. -/
theorem round_of_value_eq_shortest {x : Magnitude} (hx : x.Canonical) {d : Decimal}
    (h : d.value = x.shortest.value) : d.round = some x := by
  by_cases hne : x.significand = 0
  · have hzero : x.shortest.value = 0 := by
      rw [shortest, if_pos hne, Decimal.value, Nat.cast_zero, zero_mul]
    have hdigits : d.digits = 0 := by
      rw [hzero, Decimal.value, mul_eq_zero, or_iff_left (ten_zpow_pos _).ne'] at h
      exact_mod_cast h
    have hexp : x.exponent = leastExponent := by
      refine hx.le.resolve_right fun hle => ?_
      rw [hne] at hle
      exact absurd hle (by decide)
    obtain rfl : x = zero := by
      obtain ⟨m, e⟩ := x
      obtain rfl : m = 0 := hne
      obtain rfl : e = leastExponent := hexp
      rfl
    simp [Decimal.round, hdigits]
  · refine Decimal.round_of_covers hx hne ?_
    rw [h]
    exact covers_shortest hne

end Magnitude

end DocSignature
