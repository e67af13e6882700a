import DocSignature.Number.Decimal
import Mathlib.Data.Bool.AllAny
import Mathlib.Data.List.Induction
import Mathlib.Data.Nat.Digits.Defs
import Mathlib.Tactic.IntervalCases

/-!
# Digits

Readers of numerals are lenient about blanks, signs, separators and the digits of other scripts.
On the digits `0` to `9` and the letters `a` to `f` none of that matters : `digitChars` lists
them, and a run of them is read as the value it has in its base (`whole?_eq`, `hexadecimal?_eq`),
which is the value its digits have by their places (`valueIn_eq_positional`).
-/

namespace DocSignature.Numeral

/-! ## Single digits -/

/-- The characters that are digits in some base up to sixteen. -/
def digitChars : List Char :=
  ['0', '1', '2', '3', '4', '5', '6', '7', '8', '9', 'a', 'b', 'c', 'd', 'e', 'f',
   'A', 'B', 'C', 'D', 'E', 'F']

theorem char_le_iff (a b : Char) : a ≤ b ↔ a.toNat ≤ b.toNat := Iff.rfl

theorem digitIn?_lt {base : Nat} {c : Char} {d : Nat} (h : digitIn? base c = some d) :
    d < base := by
  unfold digitIn? at h
  dsimp only at h
  rw [Option.ite_none_right_eq_some] at h
  obtain ⟨hlt, hd⟩ := h
  exact Option.some.inj hd ▸ hlt

theorem mem_digitChars {base : Nat} {c : Char} (h : (digitIn? base c).isSome) :
    c ∈ digitChars := by
  have hrange : (48 ≤ c.toNat ∧ c.toNat ≤ 57) ∨ (97 ≤ c.toNat ∧ c.toNat ≤ 102) ∨
      (65 ≤ c.toNat ∧ c.toNat ≤ 70) := by
    by_contra hno
    simp only [not_or] at hno
    unfold digitIn? at h
    simp only [Bool.and_eq_true, decide_eq_true_eq, char_le_iff] at h
    rw [if_neg (show ¬('0'.toNat ≤ c.toNat ∧ c.toNat ≤ '9'.toNat) from hno.1),
      if_neg (show ¬('a'.toNat ≤ c.toNat ∧ c.toNat ≤ 'f'.toNat) from hno.2.1),
      if_neg (show ¬('A'.toNat ≤ c.toNat ∧ c.toNat ≤ 'F'.toNat) from hno.2.2),
      if_neg (Nat.lt_irrefl base)] at h
    cases h
  rw [← Char.ofNat_toNat c]
  generalize c.toNat = n at hrange
  rcases hrange with ⟨h₁, h₂⟩ | ⟨h₁, h₂⟩ | ⟨h₁, h₂⟩ <;> interval_cases n <;> decide

theorem plain_of_mem : ∀ c ∈ digitChars, plain c = c :=
  List.all_iff_forall_prop.mp (by decide +kernel)

theorem not_isBlank_of_mem : ∀ c ∈ digitChars, Text.isBlank c = false :=
  List.all_iff_forall_prop.mp (by decide +kernel)

theorem digitIn?_underscore (base : Nat) : digitIn? base '_' = none := by
  simp [digitIn?]

/-! ## Runs of digits -/

/-- The value of a run of digits in a base. -/
def valueIn (base : Nat) (s : List Char) : Nat :=
  s.foldl (fun n c => base * n + (digitIn? base c).getD 0) 0

/-- Every character is a digit in the base. -/
def AllIn (base : Nat) (s : List Char) : Prop := ∀ c ∈ s, (digitIn? base c).isSome

theorem AllIn.mem_digitChars {base : Nat} {s : List Char} (h : AllIn base s) :
    ∀ c ∈ s, c ∈ digitChars :=
  fun c hc => Numeral.mem_digitChars (h c hc)

theorem wholeFrom_eq {base : Nat} :
    ∀ {s : List Char} {acc : Nat} {ready : Bool}, AllIn base s → (ready ∨ s ≠ []) →
      wholeFrom base acc ready s =
        some (s.foldl (fun n c => base * n + (digitIn? base c).getD 0) acc)
  | [], acc, ready, _, hready => by simpa [wholeFrom] using hready
  | c :: s, acc, ready, h, _ => by
    obtain ⟨d, hd⟩ := Option.isSome_iff_exists.mp (h c List.mem_cons_self)
    have hc : (c == '_') = false := by
      rw [beq_eq_false_iff_ne]
      rintro rfl
      simp [digitIn?_underscore] at hd
    rw [wholeFrom, hc, if_neg Bool.false_ne_true, hd, List.foldl_cons, hd]
    exact wholeFrom_eq (fun c' hc' => h c' (List.mem_cons_of_mem c hc')) (Or.inl rfl)

/-- A run of digits is read as its value. -/
theorem whole?_eq {base : Nat} {s : List Char} (h : AllIn base s) (hne : s ≠ []) :
    whole? base s = some (valueIn base s) :=
  wholeFrom_eq h (Or.inr hne)

theorem foldl_lt_pow {base : Nat} :
    ∀ {s : List Char} {acc k : Nat}, AllIn base s → acc < base ^ k →
      s.foldl (fun n c => base * n + (digitIn? base c).getD 0) acc < base ^ (k + s.length)
  | [], acc, k, _, hacc => by simpa using hacc
  | c :: s, acc, k, h, hacc => by
    obtain ⟨d, hd⟩ := Option.isSome_iff_exists.mp (h c List.mem_cons_self)
    have hlt := digitIn?_lt hd
    have hstep : base * acc + d < base ^ (k + 1) := by
      calc base * acc + d < base * acc + base := by omega
        _ = base * (acc + 1) := by rw [Nat.mul_succ]
        _ ≤ base * base ^ k := Nat.mul_le_mul_left base hacc
        _ = base ^ (k + 1) := by rw [Nat.pow_succ, Nat.mul_comm]
    rw [List.foldl_cons, hd, List.length_cons, Nat.add_comm s.length 1, ← Nat.add_assoc]
    exact foldl_lt_pow (fun c' hc' => h c' (List.mem_cons_of_mem c hc')) hstep

theorem valueIn_lt {base : Nat} {s : List Char} (h : AllIn base s) :
    valueIn base s < base ^ s.length := by
  have := foldl_lt_pow (k := 0) h (by simp : 0 < base ^ 0)
  rwa [Nat.zero_add] at this

/-! ## Digits by their places -/

/-- The value of a single digit. -/
def digitValue (c : Char) : ℕ := (digitIn? 16 c).getD 0

/-- The value of digits by their places, the last of which counts once. -/
def positional (base : ℕ) (s : List Char) : ℕ := Nat.ofDigits base (s.reverse.map digitValue)

theorem digitValue_eq {base : ℕ} (hbase : base ≤ 16) {c : Char} {d : ℕ}
    (h : digitIn? base c = some d) : digitValue c = d := by
  have hsixteen : digitIn? 16 c = some d := by
    unfold digitIn? at h ⊢
    dsimp only at h ⊢
    rw [Option.ite_none_right_eq_some] at h ⊢
    obtain ⟨hlt, hd⟩ := h
    split_ifs at hlt hd ⊢
    · exact ⟨hlt.trans_le hbase, hd⟩
    · exact ⟨hlt.trans_le hbase, hd⟩
    · exact ⟨hlt.trans_le hbase, hd⟩
    · exact absurd hlt (Nat.lt_irrefl base)
  rw [digitValue, hsixteen, Option.getD_some]

/-- Reading digits from the left gives their value by places. -/
theorem valueIn_eq_positional {base : ℕ} (hbase : base ≤ 16) {s : List Char} (h : AllIn base s) :
    valueIn base s = positional base s := by
  induction s using List.reverseRecOn with
  | nil => rfl
  | append_singleton s c ih =>
    obtain ⟨d, hd⟩ := Option.isSome_iff_exists.mp (h c (by simp))
    have hs : valueIn base s = positional base s :=
      ih fun c' hc' => h c' (List.mem_append_left _ hc')
    have hlast : valueIn base (s ++ [c]) = base * valueIn base s + d := by
      rw [valueIn, List.foldl_append, List.foldl_cons, List.foldl_nil, hd, Option.getD_some]
      rfl
    rw [hlast, hs, positional, positional, List.reverse_append, List.reverse_singleton,
      List.singleton_append, List.map_cons, Nat.ofDigits_cons, digitValue_eq hbase hd, add_comm]

/-! ## Lenient reading -/

theorem map_plain_eq_self {s : List Char} (h : ∀ c ∈ s, plain c = c) : s.map plain = s := by
  rw [List.map_congr_left h, List.map_id']

theorem dropWhile_eq_self {α : Type} {p : α → Bool} {s : List α} (h : ∀ c ∈ s, p c = false) :
    s.dropWhile p = s := by
  cases s with
  | nil => rfl
  | cons c s => simp [h c List.mem_cons_self]

theorem trim_eq_self {s : List Char} (h : ∀ c ∈ s, Text.isBlank c = false) : Text.trim s = s := by
  have hrev : ∀ c ∈ s.reverse, Text.isBlank c = false := fun c hc => h c (List.mem_reverse.mp hc)
  rw [Text.trim, dropWhile_eq_self h, dropWhile_eq_self hrev, List.reverse_reverse]

theorem splitSign_eq {s : List Char} (h : ∀ c ∈ s.head?, c ≠ '-' ∧ c ≠ '+') :
    splitSign s = (false, s) := by
  unfold splitSign
  split
  · exact absurd rfl (h '-' rfl).1
  · exact absurd rfl (h '+' rfl).2
  · rfl

theorem dropHexMark_eq_self {s : List Char} (h : ∀ c ∈ s, c ∈ digitChars) : dropHexMark s = s := by
  have hmark : ∀ x ∈ digitChars, ¬(x == 'x' || x == 'X') :=
    List.all_iff_forall_prop.mp (by decide)
  unfold dropHexMark
  split
  · exact if_neg (hmark _ (h _ (by simp)))
  · exact if_neg (hmark _ (h _ (by simp)))
  · rfl

/-- A run of hexadecimal digits is read as its value. -/
theorem hexadecimal?_eq {s : List Char} (h : AllIn 16 s) (hne : s ≠ []) :
    hexadecimal? s = some (valueIn 16 s : Int) := by
  have hmem := h.mem_digitChars
  have hsign : splitSign s = (false, s) := by
    refine splitSign_eq fun c hc => ?_
    have := hmem c (List.mem_of_mem_head? hc)
    constructor <;> rintro rfl <;> revert this <;> decide
  rw [hexadecimal?, map_plain_eq_self fun c hc => plain_of_mem c (hmem c hc),
    trim_eq_self fun c hc => not_isBlank_of_mem c (hmem c hc), hsign]
  simp only [dropHexMark_eq_self hmem, whole?_eq h hne, Option.map_some, withSign,
    Bool.false_eq_true, if_false]

end DocSignature.Numeral
