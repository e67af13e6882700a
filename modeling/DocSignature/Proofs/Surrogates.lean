import DocSignature.Text.Utf16
import Mathlib.Data.List.Chain

/-!
# Joined texts

A text is `Text.Joined` if no high surrogate stands directly before a low one. `Text.joinPairs`
gives such a text (`Text.joined_joinPairs`) with the same 16-bit units (`Text.units_joinPairs`), and
the text of a string is one (`Text.joined_ofString`). A joined text is found again from its units,
each taken as a code point (`Text.joinPairs_ofUnits_units`), so no other one has the same
(`Text.Joined.eq_of_units_eq`).
-/

namespace DocSignature

namespace CodePoint

theorem isHighSurrogate_iff {p : CodePoint} :
    p.isHighSurrogate ↔ 0xD800 ≤ p.val ∧ p.val ≤ 0xDBFF := by
  simp [isHighSurrogate]

theorem isLowSurrogate_iff {p : CodePoint} :
    p.isLowSurrogate ↔ 0xDC00 ≤ p.val ∧ p.val ≤ 0xDFFF := by
  simp [isLowSurrogate]

theorem isSurrogate_iff {p : CodePoint} : p.isSurrogate ↔ 0xD800 ≤ p.val ∧ p.val ≤ 0xDFFF := by
  simp [isSurrogate]

theorem ofPair_val {high low : CodePoint} (hh : high.isHighSurrogate) (hl : low.isLowSurrogate) :
    (ofPair high low).val = 0x10000 + (high.val - 0xD800) * 0x400 + (low.val - 0xDC00) := by
  rw [isHighSurrogate_iff] at hh
  rw [isLowSurrogate_iff] at hl
  rw [ofPair, Fin.val_ofNat, Nat.mod_eq_of_lt]
  omega

/-- No character is a surrogate. -/
theorem not_isSurrogate_ofChar (c : Char) : ¬(ofChar c).isSurrogate := by
  have valid := c.valid
  have hval : c.val.toNat = c.toNat := rfl
  simp only [UInt32.isValidChar, Nat.isValidChar, hval] at valid
  rw [isSurrogate_iff, ofChar]
  dsimp only
  omega

theorem ofNat?_eq {n : Nat} (h : n < 0x110000) : ofNat? n = some ⟨n, h⟩ := dif_pos h

theorem ofNat?_val (p : CodePoint) : ofNat? p.val = some p := ofNat?_eq p.isLt

theorem units_lt {p : CodePoint} : ∀ u ∈ p.units, u < 0x10000 := by
  intro u hu
  have hp := p.isLt
  unfold units at hu
  split at hu
  · simp only [List.mem_singleton] at hu
    omega
  · simp only [List.mem_cons, List.not_mem_nil, or_false] at hu
    omega

theorem units_of_lt {p : CodePoint} (h : p.val < 0x10000) : p.units = [p.val] := if_pos h

/-- The code point of a pair has the two halves for its units. -/
theorem units_ofPair {high low : CodePoint} (hh : high.isHighSurrogate) (hl : low.isLowSurrogate) :
    (ofPair high low).units = [high.val, low.val] := by
  have hval := ofPair_val hh hl
  rw [isHighSurrogate_iff] at hh
  rw [isLowSurrogate_iff] at hl
  have hhigh : 0xD800 + ((ofPair high low).val - 0x10000) / 0x400 = high.val := by omega
  have hlow : 0xDC00 + ((ofPair high low).val - 0x10000) % 0x400 = low.val := by omega
  rw [units, if_neg (by omega), hhigh, hlow]

end CodePoint

namespace Text

/-- No high surrogate stands directly before a low one. -/
def Joined (t : Text) : Prop :=
  t.IsChain fun p q => ¬(p.isHighSurrogate ∧ q.isLowSurrogate)

/-- The code points with these numbers. -/
def ofUnits (units : List Nat) : Text := units.filterMap CodePoint.ofNat?

theorem joined_cons {p : CodePoint} {t : Text} : Joined (p :: t) ↔
    (∀ q ∈ t.head?, ¬(p.isHighSurrogate ∧ q.isLowSurrogate)) ∧ Joined t :=
  List.isChain_cons

theorem joined_ofChars (s : List Char) : Joined (ofChars s) := by
  induction s with
  | nil => exact .nil
  | cons c s ih =>
    refine joined_cons.mpr ⟨fun q _ h => ?_, ih⟩
    have hc := CodePoint.not_isSurrogate_ofChar c
    have hhigh := CodePoint.isHighSurrogate_iff.mp h.1
    rw [CodePoint.isSurrogate_iff] at hc
    omega

theorem joined_ofString (s : String) : Joined (ofString s) := joined_ofChars s.toList

/-! ## Joining -/

theorem joinPairs_cons_cons {high low : CodePoint} (hh : high.isHighSurrogate)
    (hl : low.isLowSurrogate) (t : Text) :
    joinPairs (high :: low :: t) = CodePoint.ofPair high low :: joinPairs t := by
  rw [joinPairs, hh, hl, Bool.and_self, if_pos rfl]

theorem joinPairs_cons {p : CodePoint} {t : Text}
    (h : ∀ q ∈ t.head?, ¬(p.isHighSurrogate ∧ q.isLowSurrogate)) :
    joinPairs (p :: t) = p :: joinPairs t := by
  cases t with
  | nil => rfl
  | cons q t =>
    have hne : (p.isHighSurrogate && q.isLowSurrogate) ≠ true := by
      rw [ne_eq, Bool.and_eq_true]
      exact h q rfl
    rw [joinPairs, if_neg hne]

/-- A low surrogate in front of a joined text was in front before. -/
theorem head?_of_head?_joinPairs {t : Text} {q : CodePoint} (hq : q ∈ (joinPairs t).head?)
    (hlow : q.isLowSurrogate) : q ∈ t.head? := by
  fun_cases joinPairs t with
  | case1 high low rest h =>
    rw [Bool.and_eq_true] at h
    rw [joinPairs_cons_cons h.1 h.2, List.head?_cons, Option.mem_some_iff] at hq
    have hval := CodePoint.ofPair_val h.1 h.2
    rw [hq] at hval
    rw [CodePoint.isLowSurrogate_iff] at hlow
    omega
  | case2 high low rest h => simpa [joinPairs, h] using hq
  | case3 t hshort => rwa [joinPairs] at hq; exact hshort

theorem joined_joinPairs (t : Text) : Joined (joinPairs t) := by
  fun_induction joinPairs t with
  | case1 high low rest h ih =>
    rw [Bool.and_eq_true] at h
    refine joined_cons.mpr ⟨fun q _ hpair => ?_, ih⟩
    have hval := CodePoint.ofPair_val h.1 h.2
    have hhigh := CodePoint.isHighSurrogate_iff.mp hpair.1
    omega
  | case2 high low rest h ih =>
    refine joined_cons.mpr ⟨fun q hq hpair => ?_, ih⟩
    obtain rfl : low = q := by simpa using head?_of_head?_joinPairs hq hpair.2
    exact h (Bool.and_eq_true_iff.mpr hpair)
  | case3 t hshort =>
    match t with
    | [] => exact .nil
    | [p] => exact .singleton p
    | p :: q :: t => exact absurd rfl (hshort p q t)

/-! ## From units -/

theorem units_cons (p : CodePoint) (t : Text) : units (p :: t) = p.units ++ units t := rfl

theorem units_singleton (p : CodePoint) : units [p] = p.units := List.append_nil _

theorem units_append (s t : Text) : units (s ++ t) = units s ++ units t := List.flatMap_append

theorem units_flatten (parts : List Text) : units parts.flatten = parts.flatMap units := by
  induction parts with
  | nil => rfl
  | cons t parts ih => rw [List.flatten_cons, units_append, ih, List.flatMap_cons]

/-- Joining keeps the units. -/
theorem units_joinPairs (t : Text) : units (joinPairs t) = units t := by
  fun_induction joinPairs t with
  | case1 high low rest h ih =>
    rw [Bool.and_eq_true] at h
    have hhigh := CodePoint.isHighSurrogate_iff.mp h.1
    have hlow := CodePoint.isLowSurrogate_iff.mp h.2
    rw [units_cons, CodePoint.units_ofPair h.1 h.2, ih, units_cons, units_cons,
      CodePoint.units_of_lt (by omega), CodePoint.units_of_lt (by omega)]
    rfl
  | case2 high low rest h ih => rw [units_cons, ih, ← units_cons]
  | case3 t hshort => rfl

theorem ofUnits_cons {n : Nat} {p : CodePoint} (h : CodePoint.ofNat? n = some p) (us : List Nat) :
    ofUnits (n :: us) = p :: ofUnits us :=
  List.filterMap_cons_some h

theorem ofUnits_append (us vs : List Nat) : ofUnits (us ++ vs) = ofUnits us ++ ofUnits vs :=
  List.filterMap_append

theorem ofUnits_units_of_lt {p : CodePoint} (h : p.val < 0x10000) : ofUnits p.units = [p] := by
  rw [CodePoint.units, if_pos h, ofUnits_cons p.ofNat?_val]
  rfl

/-- The two units of a code point past the first plane spell it. -/
theorem ofUnits_units_of_le {p : CodePoint} (h : 0x10000 ≤ p.val) :
    ∃ high low : CodePoint, ofUnits p.units = [high, low] ∧ high.isHighSurrogate ∧
      low.isLowSurrogate ∧ CodePoint.ofPair high low = p := by
  have hp := p.isLt
  have hhigh : 0xD800 + (p.val - 0x10000) / 0x400 < 0x110000 := by omega
  have hlow : 0xDC00 + (p.val - 0x10000) % 0x400 < 0x110000 := by omega
  have hh : CodePoint.isHighSurrogate ⟨_, hhigh⟩ := by
    rw [CodePoint.isHighSurrogate_iff]
    dsimp only
    omega
  have hl : CodePoint.isLowSurrogate ⟨_, hlow⟩ := by
    rw [CodePoint.isLowSurrogate_iff]
    dsimp only
    omega
  refine ⟨⟨_, hhigh⟩, ⟨_, hlow⟩, ?_, hh, hl, ?_⟩
  · rw [CodePoint.units, if_neg (by omega)]
    rw [ofUnits_cons (CodePoint.ofNat?_eq hhigh), ofUnits_cons (CodePoint.ofNat?_eq hlow)]
    rfl
  · refine Fin.ext ?_
    rw [CodePoint.ofPair_val hh hl]
    dsimp only
    omega

/-- Only a low surrogate has a low surrogate as its first unit. -/
theorem head?_of_head?_ofUnits {t : Text} {q : CodePoint} (hq : q ∈ (ofUnits (units t)).head?)
    (hlow : q.isLowSurrogate) : q ∈ t.head? := by
  cases t with
  | nil => simp [units, ofUnits] at hq
  | cons p t =>
    rw [units_cons, ofUnits_append] at hq
    by_cases hp : p.val < 0x10000
    · simpa [ofUnits_units_of_lt hp] using hq
    · obtain ⟨high, low, hunits, hh, -, -⟩ := ofUnits_units_of_le (Nat.le_of_not_lt hp)
      obtain rfl : high = q := by simpa [hunits] using hq
      rw [CodePoint.isHighSurrogate_iff] at hh
      rw [CodePoint.isLowSurrogate_iff] at hlow
      omega

/-- A joined text is found again from its units. -/
theorem joinPairs_ofUnits_units {t : Text} (h : Joined t) : joinPairs (ofUnits (units t)) = t := by
  induction t with
  | nil => rfl
  | cons p t ih =>
    obtain ⟨hhead, ht⟩ := joined_cons.mp h
    rw [units_cons, ofUnits_append]
    by_cases hp : p.val < 0x10000
    · rw [ofUnits_units_of_lt hp, List.singleton_append, joinPairs_cons, ih ht]
      intro q hq hpair
      exact hhead q (head?_of_head?_ofUnits hq hpair.2) hpair
    · obtain ⟨high, low, hunits, hh, hl, hpair⟩ := ofUnits_units_of_le (Nat.le_of_not_lt hp)
      rw [hunits, List.cons_append, List.singleton_append, joinPairs_cons_cons hh hl, ih ht, hpair]

/-- No two joined texts have the same units. -/
theorem Joined.eq_of_units_eq {s t : Text} (hs : Joined s) (ht : Joined t)
    (h : units s = units t) : s = t := by
  rw [← joinPairs_ofUnits_units hs, h, joinPairs_ofUnits_units ht]

end Text

end DocSignature
