import DocSignature.Json.Reader
import DocSignature.Json.Writer
import DocSignature.Proofs.DecimalText
import DocSignature.Proofs.Surrogates

/-!
# Reading back strings and numbers

The reader finds again what was written in ASCII : a joined text (`Json.string_quoted`), a whole
number (`Json.unsignedNumber_decimal`) and a literal that is none (`Json.unsignedNumber_text`).
Behind a number there must be nothing, or what closes a value (`Json.Delimited`).
-/

namespace DocSignature.Json

/-! ## Strings -/

theorem digitIn?_hexDigit {n : ℕ} (h : n < 16) : Numeral.digitIn? 16 (hexDigit n) = some n := by
  have table : ∀ n < 16, Numeral.digitIn? 16 (hexDigit n) = some n := by decide
  exact table n h

theorem hexCode?_hexDigit {n : ℕ} (h : n < 0x10000) :
    hexCode? (hexDigit (n / 16 / 16 / 16 % 16)) (hexDigit (n / 16 / 16 % 16))
      (hexDigit (n / 16 % 16)) (hexDigit (n % 16)) = CodePoint.ofNat? n := by
  have hdigit (m : ℕ) : Numeral.digitIn? 16 (hexDigit (m % 16)) = some (m % 16) :=
    digitIn?_hexDigit (Nat.mod_lt m (by decide))
  have hvalue : ((n / 16 / 16 / 16 % 16 * 16 + n / 16 / 16 % 16) * 16 + n / 16 % 16) * 16 + n % 16 =
      n := by omega
  simp only [hexCode?, hdigit, bind, Option.bind_some, hvalue]

/-- An escape spells its unit. Something must follow it. -/
theorem stringFrom_escapeUnit (start : List Char) {n : ℕ} (h : n < 0x10000) {p : CodePoint}
    (hp : CodePoint.ofNat? n = some p) {s : List Char} (hs : s ≠ []) :
    stringFrom start (escapeUnit n ++ s) =
      (stringFrom start s).map fun r => (p :: r.1, r.2) := by
  have hempty : s.isEmpty = false := by simpa using hs
  change stringFrom start ('\\' :: 'u' :: _ :: _ :: _ :: _ :: s) = _
  rw [stringFrom]
  simp only [hempty, Bool.false_eq_true, if_false, hexCode?_hexDigit h, hp]

theorem stringFrom_units (start : List Char) {s : List Char} (hs : s ≠ []) :
    ∀ {units : List ℕ}, (∀ n ∈ units, n < 0x10000) →
      stringFrom start (units.flatMap escapeUnit ++ s) =
        (stringFrom start s).map fun r => (Text.ofUnits units ++ r.1, r.2)
  | [], _ => by
    change stringFrom start s = _
    cases stringFrom start s <;> rfl
  | n :: units, h => by
    have hne : units.flatMap escapeUnit ++ s ≠ [] := by simp [hs]
    have hn : n < 0x10000 := h n List.mem_cons_self
    have hp := CodePoint.ofNat?_eq (Nat.lt_trans hn (by decide))
    rw [List.flatMap_cons, List.append_assoc, stringFrom_escapeUnit start hn hp hne,
      stringFrom_units start hs fun m hm => h m (List.mem_cons_of_mem n hm), Text.ofUnits_cons hp]
    cases stringFrom start s <;> rfl

theorem escapeLetter?_lt {p : CodePoint} {c : Char} (h : escapeLetter? p = some c) :
    p.val < 0x10000 := by
  unfold escapeLetter? at h
  split_ifs at h <;> omega

/-- A letter behind a backslash stands for the character it was written for. -/
theorem unescape?_of_escapeLetter? {p : CodePoint} {c : Char} (h : escapeLetter? p = some c) :
    c ≠ 'u' ∧ ∃ k, unescape? c = some k ∧ CodePoint.ofChar k = p := by
  unfold escapeLetter? at h
  split_ifs at h with hp hp hp hp hp hp hp <;> obtain rfl := Option.some.inj h <;>
    exact ⟨by decide, _, rfl, Fin.ext hp.symm⟩

theorem stringFrom_letter (start : List Char) {c k : Char} (hu : c ≠ 'u')
    (hk : unescape? c = some k) (s : List Char) : stringFrom start ('\\' :: c :: s) =
      (stringFrom start s).map fun r => (CodePoint.ofChar k :: r.1, r.2) := by
  rw [stringFrom]
  · rw [hk]
  · exact fun _ _ _ _ _ h => absurd h hu
  · exact hu

theorem stringFrom_plain (start : List Char) {c : Char} (hquote : c ≠ '"') (hslash : c ≠ '\\')
    (hspace : ¬c < ' ') (s : List Char) : stringFrom start (c :: s) =
      (stringFrom start s).map fun r => (CodePoint.ofChar c :: r.1, r.2) := by
  rw [stringFrom]
  · rw [if_neg hspace]
  · exact hquote
  · exact hslash

/-- Printable characters that need no escape are read as themselves. -/
theorem plain_of_printable {p : CodePoint} (hletter : escapeLetter? p = none) (hle : 0x20 ≤ p.val)
    (hge : p.val ≤ 0x7E) : Char.ofNat p.val ≠ '"' ∧ Char.ofNat p.val ≠ '\\' ∧
      ¬Char.ofNat p.val < ' ' ∧ CodePoint.ofChar (Char.ofNat p.val) = p := by
  have table : ∀ n < 0x7F, (Char.ofNat n).toNat = n := by decide
  have hval : (Char.ofNat p.val).toNat = p.val := table p.val (by omega)
  have hquote : p.val ≠ 0x22 := by
    intro h
    simp [escapeLetter?, h] at hletter
  have hslash : p.val ≠ 0x5C := by
    intro h
    simp [escapeLetter?, h] at hletter
  refine ⟨?_, ?_, ?_, Fin.ext hval⟩
  · intro h
    rw [h] at hval
    exact hquote hval.symm
  · intro h
    rw [h] at hval
    exact hslash hval.symm
  · rw [Char.not_lt, Numeral.char_le_iff, hval]
    exact hle

theorem stringFrom_asciiPoint (start : List Char) (p : CodePoint) {s : List Char} (hs : s ≠ []) :
    stringFrom start (asciiPoint p ++ s) =
      (stringFrom start s).map fun r => (Text.ofUnits p.units ++ r.1, r.2) := by
  unfold asciiPoint
  split
  · next c hc =>
    obtain ⟨hu, k, hk, hp⟩ := unescape?_of_escapeLetter? hc
    rw [Text.ofUnits_units_of_lt (escapeLetter?_lt hc), ← hp]
    exact stringFrom_letter start hu hk s
  · next hletter =>
    split
    · next hprintable =>
      simp only [Bool.and_eq_true, decide_eq_true_eq] at hprintable
      obtain ⟨hquote, hslash, hspace, hp⟩ := plain_of_printable hletter hprintable.1 hprintable.2
      rw [Text.ofUnits_units_of_lt (by omega)]
      have := stringFrom_plain start hquote hslash hspace s
      rwa [hp] at this
    · exact stringFrom_units start hs CodePoint.units_lt

theorem stringFrom_flatMap (start rest : List Char) (t : Text) :
    stringFrom start (t.flatMap asciiPoint ++ '"' :: rest) = .ok (Text.ofUnits t.units, rest) := by
  induction t with
  | nil => rfl
  | cons p t ih =>
    rw [List.flatMap_cons, List.append_assoc, stringFrom_asciiPoint start p (by simp), ih,
      Text.units_cons, Text.ofUnits_append]
    rfl

/-- A joined text is read back from between its quotes. -/
theorem string_quoted {t : Text} (h : Text.Joined t) (rest : List Char) :
    string (quoted asciiPoint t ++ rest) = .ok (t, rest) := by
  have hquoted : quoted asciiPoint t ++ rest = '"' :: (t.flatMap asciiPoint ++ '"' :: rest) := by
    simp [quoted]
  rw [hquoted, string, stringFrom_flatMap]
  change Except.ok (Text.joinPairs (Text.ofUnits (Text.units t)), rest) = _
  rw [Text.joinPairs_ofUnits_units h]

/-! ## Numbers -/

open Decimal

/-- Nothing, or what may stand behind a value inside another one. -/
def Delimited (s : List Char) : Prop := ∀ c ∈ s.head?, c ∈ [',', ']', '\x7d']

/-- Nothing that may stand behind a value goes on with a number. -/
theorem Delimited.head {s : List Char} (h : Delimited s) :
    ∀ c ∈ s.head?, ¬isDigit c ∧ c ≠ '.' ∧ c ≠ 'e' ∧ c ≠ 'E' := by
  have table : ∀ c ∈ [',', ']', '\x7d'], ¬isDigit c ∧ c ≠ '.' ∧ c ≠ 'e' ∧ c ≠ 'E' :=
    List.all_iff_forall_prop.mp (by decide)
  exact fun c hc => table c (h c hc)

/-- Digits of which no zero leads others are taken as a whole. -/
theorem splitWhole_append {whole s : List Char} (hdigits : ∀ c ∈ whole, isDigit c)
    (hhead : whole.head? = some '0' → whole = ['0']) (hne : whole ≠ [])
    (hs : ∀ c ∈ s.head?, ¬isDigit c) : splitWhole (whole ++ s) = (whole, s) := by
  by_cases hzero : whole.head? = some '0'
  · rw [hhead hzero]
    rfl
  · rw [splitWhole, takeWhile_isDigit_append hdigits hs, dropWhile_isDigit_append hdigits hs]
    intro t ht
    have := congrArg List.head? ht
    rw [List.head?_append_of_ne_nil _ hne] at this
    exact hzero this

theorem splitPoint_eq {s : List Char} (h : ∀ c ∈ s.head?, c ≠ '.') : splitPoint s = ([], s) := by
  rw [splitPoint]
  rintro t rfl
  exact h '.' rfl rfl

theorem splitPoint_cons {fraction s : List Char} (hdigits : ∀ c ∈ fraction, isDigit c)
    (hne : fraction ≠ []) (hs : ∀ c ∈ s.head?, ¬isDigit c) :
    splitPoint ('.' :: (fraction ++ s)) = ('.' :: fraction, s) := by
  have hempty : fraction.isEmpty = false := by simpa using hne
  rw [splitPoint, takeWhile_isDigit_append hdigits hs, dropWhile_isDigit_append hdigits hs]
  simp only [hempty, Bool.false_eq_true, if_false]

theorem splitExponent_eq {s : List Char} (h : ∀ c ∈ s.head?, c ≠ 'e' ∧ c ≠ 'E') :
    splitExponent s = ([], s) := by
  cases s with
  | nil => rfl
  | cons c s =>
    obtain ⟨he, hE⟩ := h c rfl
    simp [splitExponent, he, hE]

/-- The sign of an exponent is the one sign in front of its digits. -/
theorem takeWhile_signText (e : Exponent) (s : List Char) :
    ((e.signText ++ (e.digits ++ s)).takeWhile fun c => c == '+' || c == '-').take 1 =
      e.signText := by
  obtain ⟨d, digits, hd⟩ := List.exists_cons_of_ne_nil e.digits_ne
  have hdigit := e.all_digits d (by simp [hd])
  have hplus : d ≠ '+' := ne_of_isDigit hdigit (by decide)
  have hminus : d ≠ '-' := ne_of_isDigit hdigit (by decide)
  rw [hd]
  unfold Exponent.signText
  cases e.sign with
  | none => simp [hplus, hminus]
  | some negative => cases negative <;> simp [hplus, hminus]

theorem splitExponent_text (e : Exponent) {s : List Char} (hs : ∀ c ∈ s.head?, ¬isDigit c) :
    splitExponent (e.text ++ s) = (e.text, s) := by
  have hmark : (e.mark == 'e' || e.mark == 'E') = true := by
    rcases e.mark_eq with h | h <;> rw [h] <;> rfl
  have hne : e.digits.isEmpty = false := by simpa using e.digits_ne
  rw [Exponent.text, List.cons_append, List.append_assoc, splitExponent]
  simp only [takeWhile_signText, List.drop_left, takeWhile_isDigit_append e.all_digits hs,
    dropWhile_isDigit_append e.all_digits hs, hmark, hne, Bool.not_false, Bool.and_self, if_true,
    List.cons_append]

/-- The digits of a whole number are read back. -/
theorem unsignedNumber_decimal (negative : Bool) (n : ℕ) {rest : List Char} (h : Delimited rest) :
    unsignedNumber negative (Numeral.decimal n ++ rest) =
      some (.int (Numeral.withSign negative n), rest) := by
  have hne := decimal_ne_nil n
  have hempty : (Numeral.decimal n).isEmpty = false := by simpa using hne
  rw [unsignedNumber, splitWhole_append (isDigit_of_mem_decimal n) decimal_head hne
    fun c hc => (h.head c hc).1]
  simp only [hempty, Bool.false_eq_true, if_false, splitPoint_eq fun c hc => (h.head c hc).2.1,
    splitExponent_eq fun c hc => (h.head c hc).2.2, List.isEmpty_nil, Bool.and_self, if_true,
    digitsValue_decimal]

/-- Neither a digit nor a point stands where the exponent of a literal may begin. -/
theorem exponentText_append_head (l : DecimalLiteral) {rest : List Char} (h : Delimited rest) :
    ∀ c ∈ (l.exponentText ++ rest).head?, ¬isDigit c ∧ c ≠ '.' := by
  intro c hc
  unfold DecimalLiteral.exponentText at hc
  cases he : l.exponent with
  | none =>
    rw [he] at hc
    obtain ⟨hdigit, hpoint, -⟩ := h.head c hc
    exact ⟨hdigit, hpoint⟩
  | some e =>
    obtain rfl : e.mark = c := by simpa [he, Exponent.text] using hc
    rcases e.mark_eq with hmark | hmark <;> rw [hmark] <;> decide

theorem not_isDigit_pointText (l : DecimalLiteral) {rest : List Char} (h : Delimited rest) :
    ∀ c ∈ (l.pointText ++ (l.exponentText ++ rest)).head?, ¬isDigit c := by
  unfold DecimalLiteral.pointText
  cases l.fraction with
  | none => exact fun c hc => (exponentText_append_head l h c hc).1
  | some f =>
    intro c hc
    obtain rfl : '.' = c := by simpa using hc
    decide

theorem splitPoint_text {l : DecimalLiteral} (hl : l.Strict) {rest : List Char}
    (h : Delimited rest) :
    splitPoint (l.pointText ++ (l.exponentText ++ rest)) =
      (l.pointText, l.exponentText ++ rest) := by
  have hdigits := l.fraction_digits
  have hne := hl.fraction_ne
  unfold DecimalLiteral.pointText
  cases hf : l.fraction with
  | none => exact splitPoint_eq fun c hc => (exponentText_append_head l h c hc).2
  | some f =>
    rw [hf] at hdigits hne
    exact splitPoint_cons hdigits (fun hnil => hne (by rw [hnil]))
      fun c hc => (exponentText_append_head l h c hc).1

theorem splitExponent_exponentText (l : DecimalLiteral) {rest : List Char} (h : Delimited rest) :
    splitExponent (l.exponentText ++ rest) = (l.exponentText, rest) := by
  unfold DecimalLiteral.exponentText
  cases l.exponent with
  | none => exact splitExponent_eq fun c hc => (h.head c hc).2.2
  | some e => exact splitExponent_text e fun c hc => (h.head c hc).1

/-- A literal that is no whole number is read back. -/
theorem unsignedNumber_text (negative : Bool) {l : DecimalLiteral} (hl : l.Strict)
    {rest : List Char} (h : Delimited rest) :
    unsignedNumber negative (l.text ++ rest) =
      some (.float (Reading.toBinary64 (.finite negative l.decimal)), rest) := by
  have hempty : l.whole.isEmpty = false := by simpa using hl.whole_ne
  have hmarked : (l.pointText.isEmpty && l.exponentText.isEmpty) = false := by
    rw [Bool.and_eq_false_iff]
    refine hl.marked.imp (fun hf => ?_) fun he => ?_
    · obtain ⟨f, hf⟩ := Option.isSome_iff_exists.mp hf
      simp [DecimalLiteral.pointText, hf]
    · obtain ⟨e, he⟩ := Option.isSome_iff_exists.mp he
      simp [DecimalLiteral.exponentText, he, Exponent.text]
  have htext : l.whole ++ l.pointText ++ l.exponentText = l.text := List.append_assoc ..
  have hsplit : splitWhole (l.text ++ rest) =
      (l.whole, l.pointText ++ (l.exponentText ++ rest)) := by
    rw [DecimalLiteral.text, List.append_assoc, List.append_assoc]
    exact splitWhole_append l.whole_digits hl.whole_head hl.whole_ne (not_isDigit_pointText l h)
  rw [unsignedNumber, hsplit]
  simp only [hempty, Bool.false_eq_true, if_false, splitPoint_text hl h,
    splitExponent_exponentText l h, hmarked, htext, l.unsigned?_text, Option.map_some]

/-- The sign of a number as it is written. -/
def signText (negative : Bool) : List Char := if negative then ['-'] else []

/-- The first character is a digit. -/
def LeadsWithDigit (s : List Char) : Prop := ∃ c t, s = c :: t ∧ isDigit c

theorem LeadsWithDigit.append {s : List Char} (h : LeadsWithDigit s) (t : List Char) :
    LeadsWithDigit (s ++ t) := by
  obtain ⟨c, s, rfl, hc⟩ := h
  exact ⟨c, s ++ t, rfl, hc⟩

theorem leadsWithDigit_of_digits {s : List Char} (hne : s ≠ []) (h : ∀ c ∈ s, isDigit c) :
    LeadsWithDigit s := by
  obtain ⟨c, t, rfl⟩ := List.exists_cons_of_ne_nil hne
  exact ⟨c, t, rfl, h c List.mem_cons_self⟩

theorem leadsWithDigit_decimal (n : ℕ) : LeadsWithDigit (Numeral.decimal n) :=
  leadsWithDigit_of_digits (decimal_ne_nil n) (isDigit_of_mem_decimal n)

theorem leadsWithDigit_text {l : DecimalLiteral} (hl : l.Strict) : LeadsWithDigit l.text :=
  (leadsWithDigit_of_digits hl.whole_ne l.whole_digits).append _

theorem number_signText (negative : Bool) {s : List Char} (hs : LeadsWithDigit s)
    {rest : List Char} {j : Json} (h : unsignedNumber negative s = some (j, rest)) :
    number (signText negative ++ s) = .ok (j, rest) := by
  obtain ⟨c, t, rfl, hc⟩ := hs
  have hminus : c ≠ '-' := ne_of_isDigit hc (by decide)
  cases negative <;> simp [signText, number, hminus, h]

/-- No word begins like a number. -/
theorem scalar_signText (negative : Bool) {s : List Char} (hs : LeadsWithDigit s) :
    scalar (signText negative ++ s) = number (signText negative ++ s) := by
  obtain ⟨c, t, rfl, hc⟩ := hs
  have hne {d : Char} (hd : ¬isDigit d) : d ≠ c := (ne_of_isDigit hc hd).symm
  have hI : 'I' ≠ c := hne (by decide)
  cases negative with
  | true => simp [signText, scalar, words, dropWord?, hI]
  | false =>
    have hquote : c ≠ '"' := ne_of_isDigit hc (by decide)
    have hn : 'n' ≠ c := hne (by decide)
    have ht : 't' ≠ c := hne (by decide)
    have hf : 'f' ≠ c := hne (by decide)
    have hN : 'N' ≠ c := hne (by decide)
    have hminus : '-' ≠ c := hne (by decide)
    simp [signText, scalar, words, dropWord?, hquote, hn, ht, hf, hN, hI, hminus]

theorem scalar_of_unsignedNumber (negative : Bool) {s : List Char} (hs : LeadsWithDigit s)
    {rest : List Char} {j : Json} (h : unsignedNumber negative (s ++ rest) = some (j, rest)) :
    scalar (signText negative ++ s ++ rest) = .ok (j, rest) := by
  rw [List.append_assoc, scalar_signText negative (hs.append rest)]
  exact number_signText negative (hs.append rest) h

theorem intText_eq (n : ℤ) :
    intText n = signText (decide (n < 0)) ++ Numeral.decimal n.natAbs := by
  simp [intText, signText]

theorem floatText_finite (negative : Bool) (size : Magnitude) :
    ∃ l : DecimalLiteral, floatText (.finite negative size) = signText negative ++ l.text ∧
      (size.Canonical → l.decimal.round = some size) ∧ l.Strict :=
  Binary64.render_finite negative size

theorem scalar_intText (n : ℤ) {rest : List Char} (h : Delimited rest) :
    scalar (intText n ++ rest) = .ok (.int n, rest) := by
  have hread := unsignedNumber_decimal (decide (n < 0)) n.natAbs h
  have hvalue : Numeral.withSign (decide (n < 0)) n.natAbs = n := by
    unfold Numeral.withSign
    split_ifs with hneg <;> simp only [decide_eq_true_eq] at hneg <;> omega
  rw [hvalue] at hread
  rw [intText_eq]
  exact scalar_of_unsignedNumber _ (leadsWithDigit_decimal n.natAbs) hread

theorem scalar_floatText {x : Binary64} (hx : x.Canonical) {rest : List Char} (h : Delimited rest) :
    scalar (floatText x ++ rest) = .ok (.float x, rest) := by
  match x, hx with
  | .nan, _ => rfl
  | .infinity true, _ => rfl
  | .infinity false, _ => rfl
  | .finite negative size, hx =>
    obtain ⟨l, htext, hround, hl⟩ := floatText_finite negative size
    have hbinary : Reading.toBinary64 (.finite negative l.decimal) = .finite negative size := by
      simp only [Reading.toBinary64, hround hx]
    have hread := unsignedNumber_text negative hl h
    rw [hbinary] at hread
    rw [htext]
    exact scalar_of_unsignedNumber negative (leadsWithDigit_text hl) hread

/-! ## First characters -/

/-- The characters that the text of a number begins with. -/
def numberHeads : List Char :=
  ['-', 'N', 'I', '0', '1', '2', '3', '4', '5', '6', '7', '8', '9']

theorem signText_head (negative : Bool) {s : List Char} (hs : LeadsWithDigit s) :
    ∃ c t, signText negative ++ s = c :: t ∧ c ∈ numberHeads := by
  obtain ⟨c, t, rfl, hc⟩ := hs
  cases negative with
  | true => exact ⟨'-', c :: t, rfl, by decide⟩
  | false =>
    have table : ∀ c ∈ Numeral.digitChars.take 10, c ∈ numberHeads :=
      List.all_iff_forall_prop.mp (by decide)
    exact ⟨c, t, rfl, table c (isDigit_iff.mp hc)⟩

theorem intText_head (n : ℤ) : ∃ c s, intText n = c :: s ∧ c ∈ numberHeads := by
  rw [intText_eq]
  exact signText_head _ (leadsWithDigit_decimal n.natAbs)

theorem floatText_head (x : Binary64) : ∃ c s, floatText x = c :: s ∧ c ∈ numberHeads := by
  match x with
  | .nan => exact ⟨'N', _, rfl, by decide⟩
  | .infinity true => exact ⟨'-', _, rfl, by decide⟩
  | .infinity false => exact ⟨'I', _, rfl, by decide⟩
  | .finite negative size =>
    obtain ⟨l, htext, -, hl⟩ := floatText_finite negative size
    rw [htext]
    exact signText_head negative (leadsWithDigit_text hl)

end DocSignature.Json
