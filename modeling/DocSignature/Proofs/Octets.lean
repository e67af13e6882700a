import DocSignature.Source
import Mathlib.Data.List.Basic
import Mathlib.Tactic.SplitIfs

/-!
# The octets of characters

A character is written as one octet below 128, or as a first octet that tells how many follow and
tails of six bits each (`tailOctet`). The reader of `Utf8` takes them apart again : `Completes` says
which octets finish a character that it has begun, and `Spread` that the octets of a character do.

Three facts about single characters follow, and all else about texts rests on them. A character that
is all there is read back (`decodeFrom_encodeChar`), one that the end cuts off is one mark
(`decode_take_encodeChar`), and each tail without its first octet is a mark of its own
(`decodeFrom_strays`, `first_of_mem_drop`).
-/

namespace DocSignature.Utf8

theorem encode_cons (c : Char) (s : List Char) :
    encode (c :: s) = String.utf8EncodeChar c ++ encode s :=
  List.flatMap_cons

theorem encode_append (s t : List Char) : encode (s ++ t) = encode s ++ encode t :=
  List.flatMap_append

/-! ## First octets -/

theorem first_of_ascii {b : UInt8} (h : b.toNat < 0x80) :
    first b = ([Char.ofNat b.toNat], .between) := by
  rw [first, if_pos (UInt8.lt_iff_toNat_lt.mpr h)]

/-- The octets from 128 on that are tails, or would begin an overlong form. -/
theorem first_of_stray {b : UInt8} (hlo : 0x80 ≤ b.toNat) (hhi : b.toNat < 0xC2) :
    first b = ([replacement], .between) := by
  simp only [first, UInt8.lt_iff_toNat_lt, UInt8.reduceToNat]
  rw [if_neg (by omega), if_pos hhi]

theorem first_of_two {b : UInt8} (hlo : 0xC2 ≤ b.toNat) (hhi : b.toNat < 0xE0) :
    first b = ([], .inside 0 0x80 0xBF (b.toNat - 0xC0)) := by
  simp only [first, UInt8.lt_iff_toNat_lt, UInt8.reduceToNat]
  rw [if_neg (by omega), if_neg (by omega), if_pos hhi]

theorem first_of_three {b : UInt8} (hlo : 0xE0 ≤ b.toNat) (hhi : b.toNat < 0xF0) :
    first b = ([], .inside 1 (if b.toNat = 0xE0 then 0xA0 else 0x80)
      (if b.toNat = 0xED then 0x9F else 0xBF) (b.toNat - 0xE0)) := by
  simp only [first, UInt8.lt_iff_toNat_lt, beq_iff_eq, ← UInt8.toNat_inj, UInt8.reduceToNat]
  rw [if_neg (by omega), if_neg (by omega), if_neg (by omega)]
  rcases eq_or_ne b.toNat 0xE0 with hE0 | hE0
  · simp [hE0]
  rcases eq_or_ne b.toNat 0xED with hED | hED
  · simp [hED]
  · simp [hE0, hED, hhi]

theorem first_of_four {b : UInt8} (hlo : 0xF0 ≤ b.toNat) (hhi : b.toNat ≤ 0xF4) :
    first b = ([], .inside 2 (if b.toNat = 0xF0 then 0x90 else 0x80)
      (if b.toNat = 0xF4 then 0x8F else 0xBF) (b.toNat - 0xF0)) := by
  simp only [first, UInt8.lt_iff_toNat_lt, beq_iff_eq, ← UInt8.toNat_inj, UInt8.reduceToNat]
  rw [if_neg (by omega), if_neg (by omega), if_neg (by omega), if_neg (by omega),
    if_neg (by omega), if_neg (by omega)]
  rcases eq_or_ne b.toNat 0xF0 with hF0 | hF0
  · simp [hF0]
  rcases eq_or_ne b.toNat 0xF4 with hF4 | hF4
  · simp [hF4]
  · simp [hF0, hF4, Nat.lt_of_le_of_ne hhi hF4]

/-! ## Tails -/

/-- The octet with the last six bits of a number. -/
def tailOctet (m : ℕ) : UInt8 := UInt8.ofNat (m % 64 + 128)

@[simp] theorem toNat_tailOctet (m : ℕ) : (tailOctet m).toNat = m % 64 + 128 := by
  have hlt : m % 64 + 128 < 256 := by omega
  exact UInt8.toNat_ofNat_of_lt' hlt

theorem first_tailOctet (m : ℕ) : first (tailOctet m) = ([replacement], .between) :=
  first_of_stray (by simp) (by rw [toNat_tailOctet]; omega)

/-- From a state inside a character, the octets give `c` at the last of them and nothing before. -/
inductive Completes (c : Char) : Reading → List UInt8 → Prop
  | last {lo hi b : UInt8} {value : ℕ} (hlo : lo.toNat ≤ b.toNat) (hhi : b.toNat ≤ hi.toNat)
      (hc : 64 * value + (b.toNat - 0x80) = c.toNat) : Completes c (.inside 0 lo hi value) [b]
  | next {more : ℕ} {lo hi b : UInt8} {value : ℕ} {bs : List UInt8} (hlo : lo.toNat ≤ b.toNat)
      (hhi : b.toNat ≤ hi.toNat)
      (tail : Completes c (.inside more 0x80 0xBF (64 * value + (b.toNat - 0x80))) bs) :
      Completes c (.inside (more + 1) lo hi value) (b :: bs)

section Step

variable {lo hi b : UInt8} {value : ℕ}

theorem step_last (hlo : lo.toNat ≤ b.toNat) (hhi : b.toNat ≤ hi.toNat) :
    step (.inside 0 lo hi value) b =
      ([Char.ofNat (64 * value + (b.toNat - 0x80))], .between) := by
  simp [step, UInt8.le_iff_toNat_le, hlo, hhi]

theorem step_next (more : ℕ) (hlo : lo.toNat ≤ b.toNat) (hhi : b.toNat ≤ hi.toNat) :
    step (.inside (more + 1) lo hi value) b =
      ([], .inside more 0x80 0xBF (64 * value + (b.toNat - 0x80))) := by
  simp [step, UInt8.le_iff_toNat_le, hlo, hhi]

end Step

namespace Completes

variable {c : Char} {state : Reading} {bs : List UInt8}

theorem decodeFrom_append (h : Completes c state bs) (rest : List UInt8) :
    decodeFrom state (bs ++ rest) = c :: decodeFrom .between rest := by
  induction h with
  | last hlo hhi hc =>
    rw [List.singleton_append, decodeFrom, step_last hlo hhi, hc, Char.ofNat_toNat]
    rfl
  | next hlo hhi _ ih =>
    rw [List.cons_append, decodeFrom, step_next _ hlo hhi]
    exact ih

/-- Octets that the end cuts off are one mark, however many there are. -/
theorem decodeFrom_take (h : Completes c state bs) {k : ℕ} (hk : k < bs.length) :
    decodeFrom state (bs.take k) = [replacement] := by
  induction h generalizing k with
  | last hlo hhi hc =>
    obtain rfl : k = 0 := by simpa using hk
    rfl
  | next hlo hhi _ ih =>
    cases k with
    | zero => rfl
    | succ k =>
      rw [List.take_succ_cons, decodeFrom, step_next _ hlo hhi]
      exact ih (by simpa using hk)

end Completes

/-! ## Characters -/

/-- The octets of a character that has several : the first begins it, the others complete it, and
none of the others begins anything. -/
structure Spread (c : Char) (b : UInt8) (bs : List UInt8) : Prop where
  encode : String.utf8EncodeChar c = b :: bs
  begins : ∃ state, first b = ([], state) ∧ Completes c state bs
  stray : ∀ x ∈ bs, first x = ([replacement], .between)

/-- The four lengths of a character, with its tails by name. -/
theorem encodeChar_eq (c : Char) : String.utf8EncodeChar c =
    if c.toNat ≤ 0x7F then [UInt8.ofNat c.toNat]
    else if c.toNat ≤ 0x7FF then
      [UInt8.ofNat (c.toNat / 64 % 32 + 192), tailOctet c.toNat]
    else if c.toNat ≤ 0xFFFF then
      [UInt8.ofNat (c.toNat / 4096 % 16 + 224), tailOctet (c.toNat / 64), tailOctet c.toNat]
    else
      [UInt8.ofNat (c.toNat / 262144 % 8 + 240), tailOctet (c.toNat / 4096),
        tailOctet (c.toNat / 64), tailOctet c.toNat] := rfl

section Spread

variable {c : Char}

theorem encodeChar_one (h : c.toNat < 0x80) :
    String.utf8EncodeChar c = [UInt8.ofNat c.toNat] ∧
      first (UInt8.ofNat c.toNat) = ([c], .between) := by
  have hnat : (UInt8.ofNat c.toNat).toNat = c.toNat :=
    UInt8.toNat_ofNat_of_lt' (Nat.lt_trans h (by decide))
  refine ⟨by rw [encodeChar_eq, if_pos (by omega)], ?_⟩
  rw [first_of_ascii (by rwa [hnat]), hnat, Char.ofNat_toNat]

theorem encodeChar_two (hlo : 0x80 ≤ c.toNat) (hhi : c.toNat < 0x800) :
    Spread c (UInt8.ofNat (c.toNat / 64 % 32 + 192)) [tailOctet c.toNat] := by
  have hfirst : (UInt8.ofNat (c.toNat / 64 % 32 + 192)).toNat = c.toNat / 64 + 192 := by
    rw [UInt8.toNat_ofNat_of_lt' (by change _ < 256; omega)]
    omega
  refine ⟨?_, ⟨_, first_of_two (by omega) (by omega), .last ?_ ?_ ?_⟩, by simp [first_tailOctet]⟩
  · rw [encodeChar_eq, if_neg (by omega), if_pos (by omega)]
  · simp
  · simp only [toNat_tailOctet, UInt8.reduceToNat]
    omega
  · simp only [hfirst, toNat_tailOctet]
    omega

theorem encodeChar_three (hlo : 0x800 ≤ c.toNat) (hhi : c.toNat < 0x10000) :
    Spread c (UInt8.ofNat (c.toNat / 4096 % 16 + 224))
      [tailOctet (c.toNat / 64), tailOctet c.toNat] := by
  have hvalid : c.toNat < 0xD800 ∨ 0xDFFF < c.toNat ∧ c.toNat < 0x110000 := c.valid
  have hfirst : (UInt8.ofNat (c.toNat / 4096 % 16 + 224)).toNat = c.toNat / 4096 + 224 := by
    rw [UInt8.toNat_ofNat_of_lt' (by change _ < 256; omega)]
    omega
  refine ⟨?_, ⟨_, first_of_three (by omega) (by omega), .next ?_ ?_ (.last ?_ ?_ ?_)⟩,
    by simp [first_tailOctet]⟩
  · rw [encodeChar_eq, if_neg (by omega), if_neg (by omega), if_pos (by omega)]
  · -- A second octet below 0xA0 behind 0xE0 would be an overlong form.
    simp only [hfirst, toNat_tailOctet]
    split_ifs <;> simp only [UInt8.reduceToNat] <;> omega
  · -- One above 0x9F behind 0xED would be a surrogate.
    simp only [hfirst, toNat_tailOctet]
    split_ifs <;> simp only [UInt8.reduceToNat] <;> omega
  · simp
  · simp only [toNat_tailOctet, UInt8.reduceToNat]
    omega
  · simp only [hfirst, toNat_tailOctet]
    omega

theorem encodeChar_four (hlo : 0x10000 ≤ c.toNat) :
    Spread c (UInt8.ofNat (c.toNat / 262144 % 8 + 240))
      [tailOctet (c.toNat / 4096), tailOctet (c.toNat / 64), tailOctet c.toNat] := by
  have hvalid : c.toNat < 0xD800 ∨ 0xDFFF < c.toNat ∧ c.toNat < 0x110000 := c.valid
  have hfirst : (UInt8.ofNat (c.toNat / 262144 % 8 + 240)).toNat = c.toNat / 262144 + 240 := by
    rw [UInt8.toNat_ofNat_of_lt' (by change _ < 256; omega)]
    omega
  refine ⟨?_, ⟨_, first_of_four (by omega) (by omega), .next ?_ ?_ (.next ?_ ?_ (.last ?_ ?_ ?_))⟩,
    by simp [first_tailOctet]⟩
  · rw [encodeChar_eq, if_neg (by omega), if_neg (by omega), if_neg (by omega)]
  · simp only [hfirst, toNat_tailOctet]
    split_ifs <;> simp only [UInt8.reduceToNat] <;> omega
  · -- A second octet above 0x8F behind 0xF4 would be past the last code point.
    simp only [hfirst, toNat_tailOctet]
    split_ifs <;> simp only [UInt8.reduceToNat] <;> omega
  · simp
  · simp only [toNat_tailOctet, UInt8.reduceToNat]
    omega
  · simp
  · simp only [toNat_tailOctet, UInt8.reduceToNat]
    omega
  · simp only [hfirst, toNat_tailOctet]
    omega

/-- A character is one octet that is read back at once, or several that are spread. -/
theorem encodeChar_cases (c : Char) :
    (∃ b, String.utf8EncodeChar c = [b] ∧ first b = ([c], .between)) ∨ ∃ b bs, Spread c b bs := by
  rcases Nat.lt_or_ge c.toNat 0x80 with h | h
  · exact Or.inl ⟨_, encodeChar_one h⟩
  rcases Nat.lt_or_ge c.toNat 0x800 with h' | h'
  · exact Or.inr ⟨_, _, encodeChar_two h h'⟩
  rcases Nat.lt_or_ge c.toNat 0x10000 with h'' | h''
  · exact Or.inr ⟨_, _, encodeChar_three h' h''⟩
  · exact Or.inr ⟨_, _, encodeChar_four h''⟩

end Spread

/-- A character that is all there is read back. -/
theorem decodeFrom_encodeChar (c : Char) (rest : List UInt8) :
    decodeFrom .between (String.utf8EncodeChar c ++ rest) = c :: decodeFrom .between rest := by
  rcases encodeChar_cases c with ⟨b, hencode, hfirst⟩ | ⟨b, bs, hencode, ⟨state, hfirst, h⟩, -⟩
  · rw [hencode, List.singleton_append, decodeFrom, step, hfirst]
    rfl
  · rw [hencode, List.cons_append, decodeFrom, step, hfirst]
    exact h.decodeFrom_append rest

/-- A character that is cut off behind its first octets is one mark. -/
theorem decode_take_encodeChar {c : Char} {k : ℕ} (hpos : 0 < k)
    (hk : k < (String.utf8EncodeChar c).length) :
    decode ((String.utf8EncodeChar c).take k) = [replacement] := by
  obtain ⟨k, rfl⟩ := Nat.exists_eq_add_one.mpr hpos
  rcases encodeChar_cases c with ⟨b, hencode, -⟩ | ⟨b, bs, hencode, ⟨state, hfirst, h⟩, -⟩
  · simp [hencode] at hk
  · rw [hencode] at hk ⊢
    rw [List.take_succ_cons, decode, decodeFrom, step, hfirst]
    exact h.decodeFrom_take (by simpa using hk)

/-- What is left of a character without its first octet are octets that begin nothing. -/
theorem first_of_mem_drop {c : Char} {k : ℕ} (hpos : 0 < k) {x : UInt8}
    (hx : x ∈ (String.utf8EncodeChar c).drop k) : first x = ([replacement], .between) := by
  obtain ⟨k, rfl⟩ := Nat.exists_eq_add_one.mpr hpos
  rcases encodeChar_cases c with ⟨b, hencode, -⟩ | ⟨b, bs, hencode, -, hstray⟩
  · simp [hencode] at hx
  · rw [hencode, List.drop_succ_cons] at hx
    exact hstray x (List.mem_of_mem_drop hx)

/-- Octets that begin nothing are marks, one each. -/
theorem decodeFrom_strays {bs : List UInt8} (h : ∀ x ∈ bs, first x = ([replacement], .between))
    (rest : List UInt8) : decodeFrom .between (bs ++ rest) =
      List.replicate bs.length replacement ++ decodeFrom .between rest := by
  induction bs with
  | nil => rfl
  | cons b bs ih =>
    obtain ⟨hb, hbs⟩ := List.forall_mem_cons.mp h
    rw [List.cons_append, decodeFrom, step, hb, ih hbs]
    rfl

/-- Whole characters are read back. -/
theorem decode_encode (s : List Char) : decode (encode s) = s := by
  induction s with
  | nil => rfl
  | cons c s ih => rw [encode_cons, decode, decodeFrom_encodeChar, ← decode, ih]

/-! ## Line feeds -/

theorem encodeChar_lineFeed : String.utf8EncodeChar '\n' = [Source.lineFeed] := by decide

/-- No other character has the octet of a line feed in it. -/
theorem lineFeed_notMem {c : Char} (hc : c ≠ '\n') :
    Source.lineFeed ∉ String.utf8EncodeChar c := by
  have hval : c.val.toNat ≠ 10 := fun h => hc (Char.ext (UInt32.toNat_inj.mp h))
  simp only [Source.lineFeed]
  fun_cases String.utf8EncodeChar c <;> simp [← UInt8.toNat_inj] <;> omega

theorem count_lineFeed_encode (s : List Char) :
    (encode s).count Source.lineFeed = s.count '\n' := by
  induction s with
  | nil => rfl
  | cons c s ih =>
    rw [encode_cons, List.count_append, ih, List.count_cons, Nat.add_comm]
    congr 1
    by_cases hc : c = '\n'
    · rw [hc, encodeChar_lineFeed]
      rfl
    · rw [List.count_eq_zero_of_not_mem (lineFeed_notMem hc)]
      simp [hc]

theorem getLast?_encode {s : List Char} (h : s.getLast? = some '\n') :
    (encode s).getLast? = some Source.lineFeed := by
  obtain ⟨t, rfl⟩ := List.getLast?_eq_some_iff.mp h
  rw [encode_append, List.getLast?_append]
  rfl

end DocSignature.Utf8
